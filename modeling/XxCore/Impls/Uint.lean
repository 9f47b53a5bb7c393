import Mathlib.Algebra.Group.Int.Defs
import Mathlib.Algebra.Group.Nat.Defs
import Mathlib.Data.Int.Order.Basic

/-! `UintExt` of `impls/uint.rs`, for integers of any width. A signed integer is the same word, read
with a sign. -/
namespace XxCore.Impls

variable {w : Nat}

def overflowingSignedDiff (a b : BitVec w) : BitVec w × Bool :=
  let res := a - b
  (res,decide (b ≤ a) == decide (res.toInt < 0))

def saturatingSignedDiff (a b : BitVec w) : BitVec w :=
  let (res,overflow) := overflowingSignedDiff a b
  if overflow = false then res
  else if res.toInt < 0 then BitVec.intMax w
  else BitVec.intMin w

def checkedSignedDiff (a b : BitVec w) : Option (BitVec w) :=
  let (res,overflow) := overflowingSignedDiff a b
  if overflow then none else some res

/-- `overflowing_sub` of the standard library. -/
def overflowingSub (a b : BitVec w) : BitVec w × Bool := (a - b,decide (a < b))

def overflowingSubSigned (a s : BitVec w) : BitVec w × Bool :=
  let (res,overflow) := overflowingSub a s
  (res,overflow ^^ decide (s.toInt < 0))

def saturatingSubSigned (a s : BitVec w) : BitVec w :=
  let (res,overflow) := overflowingSubSigned a s
  if overflow = false then res
  else if s.toInt < 0 then BitVec.allOnes w
  else 0

def checkedSubSigned (a s : BitVec w) : Option (BitVec w) :=
  let (res,overflow) := overflowingSubSigned a s
  if overflow then none else some res

def wrappingSubSigned (a s : BitVec w) : BitVec w := a - s

/-- A type of integers of this width: what a word of it stands for, and its least and its greatest
value. -/
structure Range (w : Nat) where
  value : BitVec w → Int
  least : Int
  greatest : Int

def signed (w : Nat) : Range w := ⟨BitVec.toInt,-2 ^ (w - 1),2 ^ (w - 1) - 1⟩

def unsigned (w : Nat) : Range w := ⟨fun x => x.toNat,0,2 ^ w - 1⟩

def Range.Has (range : Range w) (x : Int) : Prop := range.least ≤ x ∧ x ≤ range.greatest

/-- The results of an operation whose exact result is `x`. -/
structure Exact (range : Range w) (x : Int) (overflowing : BitVec w × Bool)
    (checked : Option (BitVec w)) (saturating : BitVec w) : Prop where
  wrapped : overflowing.1 = BitVec.ofInt w x
  overflow : overflowing.2 = true ↔ ¬ range.Has x
  fails : checked = none ↔ ¬ range.Has x
  gives : ∀ res, checked = some res → range.value res = x
  clamped : range.value saturating = max range.least (min x range.greatest)

/-- A word is read as a number below `2 ^ w`, of which the upper half are negative. -/
theorem toInt_cases (pos : 0 < w) (x : BitVec w) :
    (2 : Int) ^ w = 2 * 2 ^ (w - 1) ∧ (x.toNat : Int) < 2 ^ w ∧
      ((x.toNat : Int) < 2 ^ (w - 1) ∧ x.toInt = x.toNat ∨
        2 ^ (w - 1) ≤ (x.toNat : Int) ∧ x.toInt = x.toNat - 2 ^ w) := by
  have half : 2 ^ w = 2 * 2 ^ (w - 1) := by
    rw [← Nat.pow_succ',Nat.succ_eq_add_one,Nat.sub_add_cancel pos]
  have half' : (2 : Int) ^ w = 2 * 2 ^ (w - 1) := by exact_mod_cast half
  have lt : (x.toNat : Int) < 2 ^ w := by exact_mod_cast x.isLt
  refine ⟨half',lt,?_⟩
  rw [BitVec.toInt_eq_toNat_cond]
  by_cases low : x.toNat < 2 ^ (w - 1)
  · rw [if_pos (by omega)]
    exact .inl ⟨by exact_mod_cast low,rfl⟩
  · rw [if_neg (by omega)]
    refine .inr ⟨by exact_mod_cast Nat.le_of_not_lt low,?_⟩
    push_cast
    rfl

theorem ofInt_sub (x y : Int) : BitVec.ofInt w (x - y) = BitVec.ofInt w x - BitVec.ofInt w y := by
  rw [Int.sub_eq_add_neg,BitVec.ofInt_add,BitVec.ofInt_neg,← BitVec.sub_eq_add_neg]

/-- The difference of two words, with the borrow. -/
theorem toNat_sub_cases (a b : BitVec w) :
    b ≤ a ∧ ((a - b).toNat : Int) = a.toNat - b.toNat ∨
      a < b ∧ ((a - b).toNat : Int) = a.toNat - b.toNat + 2 ^ w := by
  have range : ((2 ^ w : Nat) : Int) = 2 ^ w := by
    push_cast
    rfl
  have lt := b.isLt
  rcases Nat.lt_or_ge a.toNat b.toNat with below | le
  · refine .inr ⟨below,?_⟩
    rw [BitVec.toNat_sub_of_lt below,← range]
    omega
  · refine .inl ⟨le,?_⟩
    rw [BitVec.toNat_sub_of_le le]
    omega

section

variable {range : Range w} {x : Int} {overflowing : BitVec w × Bool} {saturating : BitVec w}

/-- The checked operation looks at the overflow flag. -/
theorem Exact.of_overflow (wrapped : overflowing.1 = BitVec.ofInt w x)
    (overflow : overflowing.2 = true ↔ ¬ range.Has x)
    (same : range.Has x → range.value overflowing.1 = x)
    (clamped : range.value saturating = max range.least (min x range.greatest)) :
    Exact range x overflowing (if overflowing.2 then none else some overflowing.1) saturating := by
  refine ⟨wrapped,overflow,?_,?_,clamped⟩
  · rw [← overflow]
    cases overflowing.2 <;> simp
  · intro res checked
    have fits : range.Has x := by
      by_contra far
      rw [if_pos (overflow.mpr far)] at checked
      cases checked
    rw [if_neg (mt overflow.mp (not_not_intro fits))] at checked
    obtain rfl := Option.some.inj checked
    exact same fits

end

section

variable (pos : 0 < w) (a b s : BitVec w)

include pos

theorem signed_diff_exact :
    Exact (signed w) (a.toNat - b.toNat) (overflowingSignedDiff a b) (checkedSignedDiff a b)
      (saturatingSignedDiff a b) := by
  obtain ⟨half,aLt,_⟩ := toInt_cases pos a
  obtain ⟨_,bLt,_⟩ := toInt_cases pos b
  obtain ⟨_,_,read⟩ := toInt_cases pos (a - b)
  have borrow := toNat_sub_cases a b
  have le : b ≤ a ↔ (b.toNat : Int) ≤ a.toNat := by rw [BitVec.le_def]; omega
  have lt : a < b ↔ (a.toNat : Int) < b.toNat := by rw [BitVec.lt_def]; omega
  have overflow : (overflowingSignedDiff a b).2 = true ↔
      ¬ (signed w).Has (a.toNat - b.toNat) := by
    simp only [overflowingSignedDiff,beq_iff_eq,decide_eq_decide,Range.Has,signed,le]
    omega
  refine .of_overflow ?_ overflow ?_ ?_
  · rw [ofInt_sub,BitVec.ofInt_natCast,BitVec.ofInt_natCast,BitVec.ofNat_toNat,BitVec.ofNat_toNat,
      BitVec.setWidth_eq,BitVec.setWidth_eq]
    rfl
  · intro fits
    simp only [Range.Has,signed,overflowingSignedDiff] at fits ⊢
    omega
  · have least := BitVec.toInt_intMin_of_pos pos
    have greatest : (BitVec.intMax w).toInt = 2 ^ (w - 1) - 1 := BitVec.toInt_intMax
    by_cases far : (overflowingSignedDiff a b).2 = true
    · have apart := overflow.mp far
      simp only [Range.Has,signed] at apart
      simp only [saturatingSignedDiff,far,Bool.true_eq_false,if_false,signed]
      by_cases negative : (a - b).toInt < 0
      · rw [overflowingSignedDiff,if_pos negative,greatest]
        omega
      · rw [overflowingSignedDiff,if_neg negative,least]
        omega
    · have fits := not_not.mp (mt overflow.mpr far)
      simp only [Range.Has,signed] at fits
      simp only [saturatingSignedDiff,far,if_true,signed]
      simp only [overflowingSignedDiff]
      omega

theorem sub_signed_exact :
    Exact (unsigned w) (a.toNat - s.toInt) (overflowingSubSigned a s) (checkedSubSigned a s)
      (saturatingSubSigned a s) := by
  obtain ⟨half,aLt,_⟩ := toInt_cases pos a
  obtain ⟨_,sLt,read⟩ := toInt_cases pos s
  obtain ⟨_,resLt,_⟩ := toInt_cases pos (a - s)
  have borrow := toNat_sub_cases a s
  have lt : a < s ↔ (a.toNat : Int) < s.toNat := by rw [BitVec.lt_def]; omega
  have le : s ≤ a ↔ (s.toNat : Int) ≤ a.toNat := by rw [BitVec.le_def]; omega
  have flag : (overflowingSubSigned a s).2 = true ↔ ¬ (a < s ↔ s.toInt < 0) := by
    simp only [overflowingSubSigned,overflowingSub]
    by_cases less : a < s <;> by_cases negative : s.toInt < 0 <;> simp [less,negative]
  have overflow : (overflowingSubSigned a s).2 = true ↔ ¬ (unsigned w).Has (a.toNat - s.toInt) := by
    rw [flag]
    simp only [Range.Has,unsigned,lt]
    omega
  refine .of_overflow ?_ overflow ?_ ?_
  · rw [ofInt_sub,BitVec.ofInt_natCast,BitVec.ofInt_toInt,BitVec.ofNat_toNat,BitVec.setWidth_eq]
    rfl
  · intro fits
    simp only [Range.Has,unsigned,overflowingSubSigned,overflowingSub] at fits ⊢
    omega
  · have greatest : ((BitVec.allOnes w).toNat : Int) = 2 ^ w - 1 := by
      have range : ((2 ^ w : Nat) : Int) = 2 ^ w := by
        push_cast
        rfl
      have positive := Nat.two_pow_pos w
      rw [BitVec.toNat_allOnes,← range]
      omega
    by_cases far : (overflowingSubSigned a s).2 = true
    · have apart := overflow.mp far
      simp only [Range.Has,unsigned] at apart
      simp only [saturatingSubSigned,far,Bool.true_eq_false,if_false,unsigned]
      by_cases negative : s.toInt < 0
      · rw [if_pos negative,greatest]
        omega
      · rw [if_neg negative]
        have zero : (((0 : BitVec w).toNat : Nat) : Int) = 0 := by simp
        rw [zero]
        omega
    · have fits := not_not.mp (mt overflow.mpr far)
      simp only [Range.Has,unsigned] at fits
      simp only [saturatingSubSigned,far,if_true,unsigned]
      simp only [overflowingSubSigned,overflowingSub]
      omega

/-- Every operation has its exact result, for each width of the instances. -/
theorem uint_exact :
    Exact (signed w) (a.toNat - b.toNat) (overflowingSignedDiff a b) (checkedSignedDiff a b)
      (saturatingSignedDiff a b) ∧
    Exact (unsigned w) (a.toNat - s.toInt) (overflowingSubSigned a s) (checkedSubSigned a s)
      (saturatingSubSigned a s) ∧
    wrappingSubSigned a s = BitVec.ofInt w (a.toNat - s.toInt) :=
  ⟨signed_diff_exact pos a b,sub_signed_exact pos a s,(sub_signed_exact pos a s).wrapped⟩

end

/-- `u8`: neither 255 - 0 is an `i8` nor 255 - (-128) a `u8`. -/
theorem uint_exact_u8 :
    Exact (signed 8) 255 (overflowingSignedDiff 255#8 0#8) (checkedSignedDiff 255#8 0#8)
      (saturatingSignedDiff 255#8 0#8) ∧
    Exact (unsigned 8) 383 (overflowingSubSigned 255#8 128#8) (checkedSubSigned 255#8 128#8)
      (saturatingSubSigned 255#8 128#8) ∧
    wrappingSubSigned 255#8 128#8 = BitVec.ofInt 8 383 :=
  uint_exact (by decide) 255#8 0#8 128#8

end XxCore.Impls
