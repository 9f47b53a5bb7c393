import Mathlib.Data.List.AList

/-! Boxes at addresses. A box is given an address that no other has, and freeing one that is not
there is a fault, so that a run without faults frees none twice. -/
namespace XxCore

/-- The boxes that are held, with what is in each. -/
structure Boxes (α β : Type) where
  cells : AList fun _ : α => β

variable {α β : Type} [DecidableEq α]

namespace Boxes

def read (boxes : Boxes α β) (address : α) : Option β := boxes.cells.lookup address

def alloc (boxes : Boxes α β) (address : α) (cell : β) : Option (Boxes α β) :=
  if address ∈ boxes.cells then none else some ⟨boxes.cells.insert address cell⟩

def free (boxes : Boxes α β) (address : α) : Option (Boxes α β) :=
  if address ∈ boxes.cells then some ⟨boxes.cells.erase address⟩ else none

def size (boxes : Boxes α β) : Nat := boxes.cells.keys.length

variable {boxes next : Boxes α β} {address other : α} {cell : β}

theorem read_alloc (placed : boxes.alloc address cell = some next) : next.read address = some cell := by
  unfold alloc at placed
  split at placed
  · cases placed
  · obtain rfl := Option.some.inj placed
    exact AList.lookup_insert _

theorem read_alloc_ne (placed : boxes.alloc address cell = some next) (apart : other ≠ address) :
    next.read other = boxes.read other := by
  unfold alloc at placed
  split at placed
  · cases placed
  · obtain rfl := Option.some.inj placed
    exact AList.lookup_insert_ne apart

theorem read_of_alloc (placed : boxes.alloc address cell = some next) : boxes.read address = none := by
  unfold alloc at placed
  split at placed
  · cases placed
  · exact AList.lookup_eq_none.mpr ‹_›

theorem alloc_of_read (free : boxes.read address = none) (cell : β) :
    ∃ next, boxes.alloc address cell = some next :=
  ⟨_,if_neg (AList.lookup_eq_none.mp free)⟩

/-- A box that is there can be freed, and it alone is gone. -/
theorem free_of_read (held : boxes.read address = some cell) :
    ∃ next, boxes.free address = some next ∧ next.read address = none ∧
      ∀ other, other ≠ address → next.read other = boxes.read other := by
  have inside : address ∈ boxes.cells := AList.lookup_isSome.mp (by rw [← read,held]; rfl)
  refine ⟨⟨boxes.cells.erase address⟩,if_pos inside,AList.lookup_erase _ _,?_⟩
  intro other apart
  exact AList.lookup_erase_ne apart

/-- There are at least as many boxes as addresses of boxes in a list without repetition. -/
theorem length_le_size {addresses : List α} (once : addresses.Nodup)
    (held : ∀ address ∈ addresses, (boxes.read address).isSome) : addresses.length ≤ boxes.size := by
  have inside : addresses ⊆ boxes.cells.keys := by
    intro address mem
    exact AList.mem_keys.mp (AList.lookup_isSome.mp (held address mem))
  exact (List.subperm_of_subset once inside).length_le

end Boxes

end XxCore
