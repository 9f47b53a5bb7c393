import Mathlib.Algebra.BigOperators.Group.Finset.Basic
import Mathlib.Algebra.Order.BigOperators.Group.Finset

/-! What finitely many threads weigh together, when each weighs what its own place says. A step of
one thread changes the sum by what it changes there. -/
namespace Roster

variable {θ : Type u} [Fintype θ]

def total (weight : θ → Nat) : Nat := ∑ t, weight t

variable {weight weight' : θ → Nat}

theorem total_congr (same : ∀ t, weight t = weight' t) : total weight = total weight' :=
  Finset.sum_congr rfl fun t _ => same t

/-- Only the thread `t` has moved. -/
theorem total_move [DecidableEq θ] (t : θ) (same : ∀ u, u ≠ t → weight' u = weight u) :
    total weight' + weight t = total weight + weight' t := by
  have rest : ∑ u ∈ Finset.univ.erase t, weight' u = ∑ u ∈ Finset.univ.erase t, weight u :=
    Finset.sum_congr rfl fun u mem => same u (Finset.ne_of_mem_erase mem)
  have before := Finset.sum_erase_add Finset.univ weight (Finset.mem_univ t)
  have after := Finset.sum_erase_add Finset.univ weight' (Finset.mem_univ t)
  unfold total
  omega

theorem total_le {bound : Nat} (le : ∀ t, weight t ≤ bound) :
    total weight ≤ bound * Fintype.card θ := by
  have := Finset.sum_le_card_nsmul Finset.univ weight bound fun t _ => le t
  simpa [total,Nat.mul_comm] using this

theorem weight_le_total (weight : θ → Nat) (t : θ) : weight t ≤ total weight :=
  Finset.single_le_sum (fun _ _ => Nat.zero_le _) (Finset.mem_univ t)

theorem total_zero (none : ∀ t, weight t = 0) : total weight = 0 :=
  Finset.sum_eq_zero fun t _ => none t

theorem total_const (bound : Nat) : total (fun _ : θ => bound) = bound * Fintype.card θ := by
  simp [total,Nat.mul_comm]

end Roster
