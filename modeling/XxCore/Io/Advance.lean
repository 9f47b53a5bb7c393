import XxCore.Io.Vectored

/-! `advance_slices` and `advance_slices_mut` of `async_std/io/mod.rs` as their loop runs: the slice it
stops at is shortened in place, the slices before it are counted and dropped afterwards. The
vectored transfers follow the same advance with the dropped slices kept beside. A panic is `none`. -/
namespace XxCore.Io.IoSlice

/-- The loop: the slices after it, how many of them to remove, and what is left of the amount. -/
def advanceLoop (remove : Nat) : List (List UInt8) → Nat → List (List UInt8) × Nat × Nat
  | [],amount => ([],remove,amount)
  | buf :: bufs,amount =>
    if buf.length ≤ amount then
      let (bufs,remove,amount) := advanceLoop (remove + 1) bufs (amount - buf.length)
      (buf :: bufs,remove,amount)
    else (buf.drop amount :: bufs,remove,0)

/-- The body that the two functions have in common. -/
def advance (bufs : List (List UInt8)) (amount : Nat) : Option (List (List UInt8)) :=
  let (bufs,remove,amount) := advanceLoop 0 bufs amount
  if remove ≤ bufs.length ∧ amount = 0 then some (bufs.drop remove) else none

def advanceSlices (bufs : List (List UInt8)) (amount : Nat) : Option (List (List UInt8)) :=
  advance bufs amount

def advanceSlicesMut (bufs : List (List UInt8)) (amount : Nat) : Option (List (List UInt8)) :=
  advance bufs amount

/-- What an advance leaves. -/
structure Advanced (bufs : List (List UInt8)) (amount : Nat) (next : List (List UInt8)) : Prop where
  rest : next.flatten = bufs.flatten.drop amount
  first : ∀ buf ∈ next.head?, buf ≠ []
  suffix : next <:+ bufs ∨ ∃ buf rest n, buf :: rest <:+ bufs ∧ next = buf.drop n :: rest

/-- An advance by any amount there is, which panics for every other one. -/
def Exact (f : List (List UInt8) → Nat → Option (List (List UInt8))) : Prop :=
  ∀ bufs amount,
    (amount ≤ bufs.flatten.length → ∃ next, f bufs amount = some next ∧
      Advanced bufs amount next) ∧
    (bufs.flatten.length < amount → f bufs amount = none)

/-- The loop counts the slices that the advance with the passed ones beside has passed. -/
theorem advanceLoop_spec (bufs : List (List UInt8)) (remove amount : Nat)
    (passed : List (List UInt8)) (front : List UInt8) :
    ∃ gone, (advanceLoop remove bufs amount).2.1 = remove + gone ∧
      gone ≤ (advanceLoop remove bufs amount).1.length ∧
      (if (advanceLoop remove bufs amount).2.2 = 0 then
          some ((advanceLoop remove bufs amount).1.drop gone) else none) =
        (Io.advanceSlices passed front bufs amount).map Slices.bufs := by
  induction bufs generalizing remove amount passed front with
  | nil =>
    refine ⟨0,rfl,Nat.le_refl 0,?_⟩
    rw [Io.advanceSlices,advanceLoop]
    split
    all_goals rfl
  | cons buf bufs ih =>
    rw [advanceLoop,Io.advanceSlices]
    split
    next whole =>
      obtain ⟨gone,counted,le,same⟩ := ih (remove + 1) (amount - buf.length)
        (passed ++ [front ++ buf]) []
      refine ⟨gone + 1,?_,Nat.succ_le_succ le,same⟩
      rw [counted]
      omega
    next part => exact ⟨0,rfl,Nat.zero_le _,rfl⟩

theorem advance_eq (bufs : List (List UInt8)) (amount : Nat) :
    advance bufs amount = (Io.advanceSlices [] [] bufs amount).map Slices.bufs := by
  obtain ⟨gone,counted,le,same⟩ := advanceLoop_spec bufs 0 amount [] []
  rw [Nat.zero_add] at counted
  rw [← same,advance]
  simp only [counted,le,true_and]

/-- What is left is nothing, or begins inside one of the slices. -/
theorem bufs_of_advanced {passed bufs : List (List UInt8)} {front : List UInt8} {amount : Nat}
    {next : Slices} (advanced : Io.advanceSlices passed front bufs amount = some next) :
    next.bufs = [] ∨ ∃ buf rest n, buf :: rest <:+ bufs ∧ n < buf.length ∧
      next.bufs = buf.drop n :: rest := by
  induction bufs generalizing passed front amount with
  | nil =>
    rw [Io.advanceSlices,Option.ite_none_right_eq_some] at advanced
    obtain ⟨_,is⟩ := advanced
    obtain rfl := Option.some.inj is
    exact .inl rfl
  | cons buf bufs ih =>
    rw [Io.advanceSlices] at advanced
    split at advanced
    next whole =>
      rcases ih advanced with none | ⟨last,rest,n,suffix,inside,left⟩
      · exact .inl none
      · exact .inr ⟨last,rest,n,suffix.trans (List.suffix_cons buf bufs),inside,left⟩
    next part =>
      obtain rfl := Option.some.inj advanced
      exact .inr ⟨buf,bufs,amount,List.suffix_rfl,by omega,rfl⟩

theorem advanced_of_eq_some {bufs : List (List UInt8)} {amount : Nat} {next : Slices}
    (advanced : Io.advanceSlices [] [] bufs amount = some next) : Advanced bufs amount next.bufs := by
  obtain ⟨_,_,rest,_⟩ := advanceSlices_eq_some advanced
  refine ⟨rest,?_,?_⟩
  · rcases bufs_of_advanced advanced with none | ⟨last,rest,n,_,inside,left⟩
    · simp [none]
    · intro buf is
      rw [left] at is
      obtain rfl := Option.some.inj is
      exact List.ne_nil_of_length_pos (by rw [List.length_drop]; omega)
  · rcases bufs_of_advanced advanced with none | ⟨last,rest,n,suffix,_,left⟩
    · exact .inl (none ▸ List.nil_suffix)
    · exact .inr ⟨last,rest,n,suffix,left⟩

theorem exact_of_loop : Exact advance := by
  intro bufs amount
  rw [advance_eq]
  constructor
  · intro few
    obtain ⟨next,advanced⟩ := advanceSlices_of_le few [] []
    exact ⟨next.bufs,by rw [advanced]; rfl,advanced_of_eq_some advanced⟩
  · intro many
    rw [Option.map_eq_none_iff,Option.eq_none_iff_forall_ne_some]
    intro next advanced
    obtain ⟨few,_⟩ := advanceSlices_eq_some advanced
    omega

theorem exact_advance : Exact advanceSlices ∧ Exact advanceSlicesMut :=
  ⟨exact_of_loop,exact_of_loop⟩

end XxCore.Io.IoSlice
