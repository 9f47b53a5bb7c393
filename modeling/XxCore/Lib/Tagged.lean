import Mathlib.Data.Nat.Bitwise

/-! Words that carry a small tag below an aligned payload. -/
namespace Tagged

variable {w : Nat} {mask p q t u : BitVec w}

/-- The bits of the mask are free for a tag. -/
def Aligned (mask p : BitVec w) : Prop := p &&& mask = 0#w

def IsTag (mask t : BitVec w) : Prop := t &&& mask = t

instance : Decidable (Aligned mask p) := inferInstanceAs (Decidable (_ = _))

instance : Decidable (IsTag mask t) := inferInstanceAs (Decidable (_ = _))

theorem Aligned.and_not (aligned : Aligned mask p) : p &&& ~~~mask = p := by
  ext i bound
  have bit := congrArg (fun x => x[i]) aligned
  simp only [BitVec.getElem_and,BitVec.getElem_zero] at bit
  simp only [BitVec.getElem_and,BitVec.getElem_not]
  cases here : p[i] <;> simp_all

/-- What is shifted past the mask is aligned. -/
theorem aligned_shiftLeft (x : BitVec w) {n : Nat} (below : mask.toNat < 2 ^ n) :
    Aligned mask (x <<< n) := by
  ext i bound
  have high : n ≤ i → mask[i] = false := by
    intro le
    have small : mask.toNat < 2 ^ i := below.trans_le (Nat.pow_le_pow_right (by omega) le)
    rw [← BitVec.getLsbD_eq_getElem,BitVec.getLsbD,Nat.testBit_lt_two_pow small]
  by_cases le : n ≤ i
  · simp [high le]
  · simp [show i < n by omega]

theorem IsTag.and_not (tag : IsTag mask t) : t &&& ~~~mask = 0#w := by
  rw [← tag,BitVec.and_assoc,BitVec.and_not_self]
  simp

theorem tag_of_or (aligned : Aligned mask p) (tag : IsTag mask t) : (p ||| t) &&& mask = t := by
  rw [BitVec.and_or_distrib_right,aligned,tag,BitVec.zero_or]

theorem payload_of_or (aligned : Aligned mask p) (tag : IsTag mask t) :
    (p ||| t) &&& ~~~mask = p := by
  rw [BitVec.and_or_distrib_right,aligned.and_not,tag.and_not,BitVec.or_zero]

/-- A tagged word is not zero if its tag or its payload is not. -/
theorem or_ne_zero (aligned : Aligned mask p) (tag : IsTag mask t) (some : p ≠ 0#w ∨ t ≠ 0#w) :
    p ||| t ≠ 0#w := by
  intro zero
  rcases some with payload | tagged
  · apply payload
    rw [← payload_of_or aligned tag,zero,BitVec.zero_and]
  · apply tagged
    rw [← tag_of_or aligned tag,zero,BitVec.zero_and]

/-- A sign-extended number survives a shift that leaves its own bits in the word. -/
theorem setWidth_shift_signExtend {k n : Nat} (x : BitVec k) (fits : k + n ≤ w) :
    (((x.signExtend w) <<< n) >>> n).setWidth k = x := by
  ext i bound
  have low : i < w := by omega
  have extended : (x.signExtend w).getLsbD i = x[i] := by
    rw [BitVec.getLsbD_signExtend]
    simp [bound,low]
  simp [show n + i < w by omega,show ¬ n + i < n by omega,bound,← BitVec.getLsbD_eq_getElem,extended]

/-- And so does a natural number. -/
theorem setWidth_shift_ofNat {k n m : Nat} (fits : k + n ≤ w) :
    (((BitVec.ofNat w m) <<< n) >>> n).setWidth k = BitVec.ofNat k m := by
  ext i bound
  simp [show n + i < w by omega,show ¬ n + i < n by omega,show i < w by omega,bound,
    ← BitVec.getLsbD_eq_getElem,BitVec.getLsbD_ofNat]

end Tagged
