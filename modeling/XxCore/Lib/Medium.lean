import XxCore.Lib.Slice

/-! A storage of cells that are addressed by position: what a write of some cells does to it, and a
cursor that moves behind what it has written. -/
universe u v

/-- A state of the storage has a length; `put` writes cells from a position on. -/
structure Medium (σ : Type u) (β : Type v) where
  length : σ → Nat
  put : σ → Nat → List β → σ
  put_nil : ∀ s p, put s p [] = s
  put_append : ∀ s p xs ys, put s p (xs ++ ys) = put (put s p xs) (p + xs.length) ys
  length_le : ∀ s p xs, length s ≤ length (put s p xs)

namespace Medium

variable {σ : Type u} {β : Type v}

/-- A storage and a position in it, after a write there. -/
def advance (M : Medium σ β) (at_ : σ × Nat) (xs : List β) : σ × Nat :=
  (M.put at_.1 at_.2 xs,at_.2 + xs.length)

@[simp] theorem advance_nil (M : Medium σ β) (at_ : σ × Nat) : M.advance at_ [] = at_ := by
  simp [advance,M.put_nil]

theorem advance_append (M : Medium σ β) (at_ : σ × Nat) (xs ys : List β) :
    M.advance at_ (xs ++ ys) = M.advance (M.advance at_ xs) ys := by
  simp only [advance,M.put_append,List.length_append,Nat.add_assoc]

/-- Cells that are written in one piece or in two. -/
theorem advance_take_drop (M : Medium σ β) (at_ : σ × Nat) (xs : List β) (n : Nat) :
    M.advance (M.advance at_ (xs.take n)) (xs.drop n) = M.advance at_ xs := by
  rw [← advance_append,List.take_append_drop]

theorem length_le_advance (M : Medium σ β) (at_ : σ × Nat) (xs : List β) :
    M.length at_.1 ≤ M.length (M.advance at_ xs).1 :=
  M.length_le _ _ _

/-- The list with `gap` behind its end, up to a position. -/
def pad (gap : β) (l : List β) (p : Nat) : List β := l ++ List.replicate (p - l.length) gap

/-- A write behind the end of a list extends it. -/
def fill (gap : β) (l : List β) (p : Nat) (xs : List β) : List β :=
  if xs.isEmpty then l else Slice.splice (pad gap l p) p xs

theorem le_length_pad (gap : β) (l : List β) (p : Nat) : p ≤ (pad gap l p).length := by
  rw [pad,List.length_append,List.length_replicate]
  omega

theorem pad_of_le {gap : β} {l : List β} {p : Nat} (le : p ≤ l.length) : pad gap l p = l := by
  rw [pad,Nat.sub_eq_zero_of_le le,List.replicate_zero,List.append_nil]

theorem fill_of_ne_nil {gap : β} {l xs : List β} {p : Nat} (some : xs ≠ []) :
    fill gap l p xs = Slice.splice (pad gap l p) p xs := by
  simp [fill,some]

theorem fill_append (gap : β) (l : List β) (p : Nat) (xs ys : List β) :
    fill gap l p (xs ++ ys) = fill gap (fill gap l p xs) (p + xs.length) ys := by
  by_cases first : xs = []
  · simp [first,fill]
  by_cases second : ys = []
  · simp [second,fill]
  have fits := le_length_pad gap l p
  have reach : p + xs.length ≤ (Slice.splice (pad gap l p) p xs).length := by
    simp only [Slice.splice,List.length_append,List.length_take,List.length_drop]
    omega
  have front : (Slice.splice (pad gap l p) p xs).take (p + xs.length) = (pad gap l p).take p ++ xs := by
    rw [Slice.take_splice_add (Nat.le_refl _) fits,List.take_length]
  have back : (Slice.splice (pad gap l p) p xs).drop (p + xs.length + ys.length) =
      (pad gap l p).drop (p + xs.length + ys.length) := by
    rw [← List.drop_drop,Slice.splice,List.drop_left' (by
      rw [List.length_append,List.length_take_of_le fits]),List.drop_drop]
  rw [fill_of_ne_nil (by simp [first]),fill_of_ne_nil second,fill_of_ne_nil first,pad_of_le reach,
    Slice.splice,Slice.splice,front,back,List.length_append,← Nat.add_assoc]
  simp only [List.append_assoc]

theorem length_le_fill (gap : β) (l : List β) (p : Nat) (xs : List β) :
    l.length ≤ (fill gap l p xs).length := by
  rw [fill]
  split
  · exact Nat.le_refl _
  · simp only [Slice.splice,pad,List.length_append,List.length_take,List.length_drop,
      List.length_replicate]
    omega

/-- The lists over `β` as a storage. -/
def filled (gap : β) : Medium (List β) β :=
  ⟨List.length,fill gap,fun _ _ => rfl,fill_append gap,length_le_fill gap⟩

end Medium
