import Mathlib.Data.Nat.ModEq

/-! Unbounded positions kept in machine words: what equality, the signed difference and a mask
of the words say about the positions, as long as these are not too far apart. -/
namespace Word

variable {w : Nat}

theorem ofNat_eq_iff {x y : Nat} : BitVec.ofNat w x = BitVec.ofNat w y ↔ x % 2 ^ w = y % 2 ^ w := by
  rw [← BitVec.toNat_inj,BitVec.toNat_ofNat,BitVec.toNat_ofNat]

/-- Words of positions less than `2 ^ w` apart are equal only if the positions are. -/
theorem ofNat_inj {x y : Nat} (above : x < y + 2 ^ w) (below : y < x + 2 ^ w) :
    BitVec.ofNat w x = BitVec.ofNat w y ↔ x = y := by
  refine ⟨fun eq => ?_,fun eq => by rw [eq]⟩
  rw [ofNat_eq_iff] at eq
  rcases Nat.le_total x y with le | le
  · exact (Nat.ModEq.eq_of_abs_lt eq (by rw [abs_lt]; omega))
  · exact (Nat.ModEq.eq_of_abs_lt eq (by rw [abs_lt]; omega))

theorem sub_eq_zero {x y : Nat} (above : x < y + 2 ^ w) (below : y < x + 2 ^ w) :
    BitVec.ofNat w x - BitVec.ofNat w y = 0#w ↔ x = y := by
  rw [BitVec.sub_eq_iff_eq_add,BitVec.zero_add,ofNat_inj above below]

theorem toInt_sub_eq_zero {x y : Nat} :
    (BitVec.ofNat w x - BitVec.ofNat w y).toInt = 0 ↔ BitVec.ofNat w x = BitVec.ofNat w y := by
  constructor
  · intro zero
    have : BitVec.ofNat w x - BitVec.ofNat w y = 0#w := BitVec.eq_of_toInt_eq (by simpa using zero)
    simpa using BitVec.sub_eq_iff_eq_add.mp this
  · intro eq; simp [eq]

/-- The signed difference is exact for positions less than half the range apart. -/
theorem toInt_sub {x y : Nat} (below : 2 * y ≤ 2 * x + 2 ^ w) (above : 2 * x < 2 * y + 2 ^ w) :
    (BitVec.ofNat w x - BitVec.ofNat w y).toInt = (x : Int) - y := by
  rw [BitVec.toInt_sub,BitVec.toInt_ofNat',BitVec.toInt_ofNat',Int.sub_bmod_bmod,
    Int.bmod_sub_bmod]
  generalize 2 ^ w = m at below above
  exact Int.bmod_eq_of_le_mul_two (by omega) (by omega)

theorem ofNat_sub {x y : Nat} (le : y ≤ x) :
    BitVec.ofNat w x - BitVec.ofNat w y = BitVec.ofNat w (x - y) := by
  rw [BitVec.sub_eq_iff_eq_add,← BitVec.ofNat_add,Nat.sub_add_cancel le]

/-- A position moved on by the difference of the words shows the other word. -/
theorem ofNat_add_sub (x : Nat) (y : BitVec w) :
    BitVec.ofNat w (x + (y - BitVec.ofNat w x).toNat) = y := by
  rw [BitVec.ofNat_add,BitVec.ofNat_toNat,BitVec.setWidth_eq,BitVec.add_comm,BitVec.sub_add_cancel]

/-- Masking with a power of two minus one is the remainder. -/
theorem toNat_and_mask {p k : Nat} (le : k ≤ w) :
    (BitVec.ofNat w p &&& (BitVec.ofNat w (2 ^ k) - 1#w)).toNat = p % 2 ^ k := by
  have small : 2 ^ k ≤ 2 ^ w := Nat.pow_le_pow_right (by omega) le
  have pos : 0 < 2 ^ k := Nat.two_pow_pos k
  have mask : (BitVec.ofNat w (2 ^ k) - 1#w).toNat = 2 ^ k - 1 := by
    have : BitVec.ofNat w (2 ^ k) - 1#w = BitVec.ofNat w (2 ^ k - 1) := by
      rw [BitVec.sub_eq_iff_eq_add,← BitVec.ofNat_add,Nat.sub_add_cancel pos]
    rw [this,BitVec.toNat_ofNat,Nat.mod_eq_of_lt (by omega)]
  rw [BitVec.toNat_and,mask,Nat.and_two_pow_sub_one_eq_mod,BitVec.toNat_ofNat,
    Nat.mod_mod_of_dvd _ (Nat.pow_dvd_pow 2 le)]

end Word
