import Mathlib.Algebra.BigOperators.Intervals
import Mathlib.Algebra.BigOperators.Ring.Finset
import Mathlib.Data.Nat.Digits.Defs
import Mathlib.Tactic.Ring

/-! Numbers in bytes, of which the first or the last is the least significant. -/
namespace ByteValue

/-- The value of bytes in little endian order. -/
def ofLe (bytes : List UInt8) : Nat := Nat.ofDigits 256 (bytes.map UInt8.toNat)

/-- The value of bytes in big endian order. -/
def ofBe (bytes : List UInt8) : Nat := ofLe bytes.reverse

/-- The value of bytes, as the sum over them. -/
def sum (le : Bool) (bytes : List UInt8) : Nat :=
  ∑ i ∈ Finset.range bytes.length,
    (bytes.getD i 0).toNat * 256 ^ (if le then i else bytes.length - 1 - i)

/-- The low bytes of a number in little endian order. -/
def toLe : Nat → Nat → List UInt8
  | 0,_ => []
  | size + 1,x => UInt8.ofNat x :: toLe size (x / 256)

/-- The low bytes of a number in big endian order. -/
def toBe (size x : Nat) : List UInt8 := (toLe size x).reverse

@[simp] theorem length_toLe (size x : Nat) : (toLe size x).length = size := by
  induction size generalizing x with
  | zero => rfl
  | succ size ih => simp [toLe,ih]

@[simp] theorem length_toBe (size x : Nat) : (toBe size x).length = size := by simp [toBe]

/-- The bytes of a number have its value. -/
theorem ofLe_toLe (size x : Nat) : ofLe (toLe size x) = x % 256 ^ size := by
  induction size generalizing x with
  | zero => simp [toLe,ofLe,Nat.mod_one]
  | succ size ih =>
    have step : ofLe (toLe (size + 1) x) = (UInt8.ofNat x).toNat + 256 * ofLe (toLe size (x / 256)) := rfl
    have low : (UInt8.ofNat x).toNat = x % 256 := rfl
    rw [step,ih,low,Nat.pow_succ',Nat.mod_mul]

theorem ofBe_toBe (size x : Nat) : ofBe (toBe size x) = x % 256 ^ size := by
  rw [ofBe,toBe,List.reverse_reverse,ofLe_toLe]

theorem ofLe_lt (bytes : List UInt8) : ofLe bytes < 256 ^ bytes.length := by
  have lt : ∀ x ∈ bytes.map UInt8.toNat, x < 256 := by
    intro x member
    obtain ⟨b,_,rfl⟩ := List.mem_map.mp member
    exact b.toNat_lt
  have bound := Nat.ofDigits_lt_base_pow_length (by decide) lt
  rw [List.length_map] at bound
  exact bound

theorem ofBe_lt (bytes : List UInt8) : ofBe bytes < 256 ^ bytes.length := by
  have bound := ofLe_lt bytes.reverse
  rw [List.length_reverse] at bound
  exact bound

theorem ofLe_append (front back : List UInt8) :
    ofLe (front ++ back) = ofLe front + 256 ^ front.length * ofLe back := by
  rw [ofLe,List.map_append,Nat.ofDigits_append,List.length_map]
  rfl

theorem ofBe_append (front back : List UInt8) :
    ofBe (front ++ back) = ofBe back + 256 ^ back.length * ofBe front := by
  rw [ofBe,List.reverse_append,ofLe_append,List.length_reverse]
  rfl

/-- The bytes behind the first ones are the high ones. -/
theorem ofLe_mod {bytes : List UInt8} {size : Nat} (le : size ≤ bytes.length) :
    ofLe bytes % 256 ^ size = ofLe (bytes.take size) := by
  have length := List.length_take_of_le le
  have split := ofLe_append (bytes.take size) (bytes.drop size)
  have lt := ofLe_lt (bytes.take size)
  rw [length] at split lt
  rw [List.take_append_drop] at split
  rw [split,Nat.add_mul_mod_self_left,Nat.mod_eq_of_lt lt]

/-- The bytes behind the first ones are the low ones. -/
theorem ofBe_div (bytes : List UInt8) (size : Nat) :
    ofBe bytes / 256 ^ (bytes.length - size) = ofBe (bytes.take size) := by
  have split := ofBe_append (bytes.take size) (bytes.drop size)
  have lt := ofBe_lt (bytes.drop size)
  rw [List.length_drop] at split lt
  rw [List.take_append_drop] at split
  rw [split,Nat.add_mul_div_left _ _ (Nat.pow_pos (by decide)),Nat.div_eq_of_lt lt,Nat.zero_add]

theorem ofLe_eq_sum (bytes : List UInt8) : ofLe bytes = sum true bytes := by
  simp only [sum,if_true]
  induction bytes with
  | nil => rfl
  | cons b bytes ih =>
    have step : ofLe (b :: bytes) = b.toNat + 256 * ofLe bytes := rfl
    rw [step,ih,List.length_cons,Finset.sum_range_succ',Finset.mul_sum,Nat.add_comm]
    congr 1
    · apply Finset.sum_congr rfl
      intro i _
      rw [List.getD_cons_succ]
      ring
    · rw [List.getD_cons_zero,Nat.pow_zero,Nat.mul_one]

theorem ofBe_eq_sum (bytes : List UInt8) : ofBe bytes = sum false bytes := by
  rw [ofBe,ofLe_eq_sum]
  simp only [sum,if_true,Bool.false_eq_true,if_false,List.length_reverse]
  rw [← Finset.sum_range_reflect]
  apply Finset.sum_congr rfl
  intro i member
  have inside := Finset.mem_range.mp member
  congr 2
  rw [List.getD_eq_getElem?_getD,List.getD_eq_getElem?_getD,List.getElem?_reverse (by omega)]
  congr 2
  omega

theorem sum_lt (le : Bool) (bytes : List UInt8) : sum le bytes < 256 ^ bytes.length := by
  cases le with
  | true =>
    rw [← ofLe_eq_sum]
    exact ofLe_lt bytes
  | false =>
    rw [← ofBe_eq_sum]
    exact ofBe_lt bytes

/-- A mask of the low bytes. -/
theorem and_mask (x : Nat) (k shift : Nat) (le : shift ≤ k) :
    x &&& (2 ^ k - 1) / 2 ^ shift = x % 2 ^ (k - shift) := by
  have mask : (2 ^ k - 1) / 2 ^ shift = 2 ^ (k - shift) - 1 := by
    have pos : 0 < 2 ^ shift := Nat.two_pow_pos shift
    have split : 2 ^ k = 2 ^ (k - shift) * 2 ^ shift := by rw [← Nat.pow_add,Nat.sub_add_cancel le]
    have positive : 0 < 2 ^ (k - shift) := Nat.two_pow_pos _
    rw [split]
    generalize 2 ^ (k - shift) = high at positive
    generalize 2 ^ shift = low at pos
    obtain ⟨h,rfl⟩ : ∃ h, high = h + 1 := ⟨high - 1,by omega⟩
    have value : (h + 1) * low - 1 = low - 1 + low * h := by
      rw [Nat.succ_mul,Nat.mul_comm h low]
      omega
    rw [value,Nat.add_mul_div_left _ _ pos,Nat.div_eq_of_lt (by omega)]
    omega
  rw [mask,Nat.and_two_pow_sub_one_eq_mod]

theorem pow_256 (n : Nat) : 256 ^ n = 2 ^ (8 * n) := by
  rw [Nat.pow_mul]

end ByteValue
