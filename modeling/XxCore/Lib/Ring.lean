import Mathlib.Data.Nat.ModEq
import Mathlib.Logic.Function.Basic

/-! A ring of slots that many owners share by tickets: the positions of `tail` and `head` count
up for ever, and every slot is at one stage of its way from free to full and back. -/
universe u

variable {θ : Type u}

namespace TicketRing

inductive Stage (θ : Type u) where
  | free (position : Nat)
  | writing (position : Nat) (owner : θ)
  | full (position : Nat)
  | reading (position : Nat) (owner : θ)

/-- The position that the slot serves now, or waits for. -/
def Stage.position : Stage θ → Nat
  | .free k | .writing k _ | .full k | .reading k _ => k

/-- The number that announces the stage: the position until it is full, then the next one. -/
def Stage.sequence : Stage θ → Nat
  | .free k | .writing k _ => k
  | .full k | .reading k _ => k + 1

end TicketRing

structure TicketRing (θ : Type u) where
  size : Nat
  head : Nat
  tail : Nat
  stage : Nat → TicketRing.Stage θ

namespace TicketRing

/-- How far from `head` and `tail` the position of a slot can be. -/
def Stage.Fits (head tail size : Nat) : Stage θ → Prop
  | .free k => tail ≤ k ∧ k < head + size
  | .writing k _ | .full k => head ≤ k ∧ k < tail
  | .reading k _ => k < head ∧ tail ≤ k + size

structure Valid (r : TicketRing θ) : Prop where
  pos : 0 < r.size
  le : r.head ≤ r.tail
  bound : r.tail ≤ r.head + r.size
  position : ∀ j < r.size, (r.stage j).position % r.size = j
  fits : ∀ j < r.size, (r.stage j).Fits r.head r.tail r.size

/-- Positions of one slot that are less than a lap apart are the same. -/
theorem position_eq {k k' size : Nat} (same : k % size = k' % size) (le : k ≤ k')
    (lt : k' < k + size) : k = k' :=
  Nat.ModEq.eq_of_abs_lt same (by rw [abs_lt]; omega)

/-- Numbers less than a lap apart that agree in a word are the same. -/
theorem number_eq (size : Nat) {x y M : Nat} (same : x % M = y % M) (small : size < M)
    (below : y ≤ x + size) (above : x ≤ y + size) : x = y :=
  Nat.ModEq.eq_of_abs_lt same (by rw [abs_lt]; omega)

/-- The slot that the next ticket of `tail` is for is free if its number says so, unless the
ring has one slot only. -/
theorem Valid.free_of_sequence {r : TicketRing θ} (valid : r.Valid) (two : 2 ≤ r.size) {M : Nat}
    (small : r.size < M) (same : (r.stage (r.tail % r.size)).sequence % M = r.tail % M) :
    r.stage (r.tail % r.size) = .free r.tail := by
  have lt := Nat.mod_lt r.tail valid.pos
  have position := valid.position _ lt
  have fits := valid.fits _ lt
  have le := valid.le
  have bound := valid.bound
  cases stage : r.stage (r.tail % r.size) with
  | free k =>
    simp only [stage,Stage.position,Stage.Fits] at position fits
    rw [position_eq position.symm fits.1 (by omega)]
  | writing k owner =>
    simp only [stage,Stage.sequence,Stage.Fits] at same fits
    have := number_eq _ same small (by omega) (by omega)
    omega
  | full k =>
    simp only [stage,Stage.position,Stage.sequence,Stage.Fits] at position same fits
    have next := number_eq _ same small (by omega) (by omega)
    have := position_eq position (by omega) (by omega)
    omega
  | reading k owner =>
    simp only [stage,Stage.position,Stage.sequence,Stage.Fits] at position same fits
    have next := number_eq _ same small (by omega) (by omega)
    have := position_eq position (by omega) (by omega)
    omega

/-- The slot that the next ticket of `head` is for is full if its number says so. -/
theorem Valid.full_of_sequence {r : TicketRing θ} (valid : r.Valid) {M : Nat} (two : 2 ≤ M)
    (small : r.size < M) (same : (r.stage (r.head % r.size)).sequence % M = (r.head + 1) % M) :
    r.stage (r.head % r.size) = .full r.head := by
  have lt := Nat.mod_lt r.head valid.pos
  have position := valid.position _ lt
  have fits := valid.fits _ lt
  have le := valid.le
  have bound := valid.bound
  cases stage : r.stage (r.head % r.size) with
  | free k =>
    simp only [stage,Stage.position,Stage.sequence,Stage.Fits] at position same fits
    have here := position_eq position.symm (by omega) (by omega)
    have := number_eq 1 same (by omega) (by omega) (by omega)
    omega
  | writing k owner =>
    simp only [stage,Stage.position,Stage.sequence,Stage.Fits] at position same fits
    have here := position_eq position.symm (by omega) (by omega)
    have := number_eq 1 same (by omega) (by omega) (by omega)
    omega
  | full k =>
    simp only [stage,Stage.position,Stage.Fits] at position fits
    rw [position_eq position.symm (by omega) (by omega)]
  | reading k owner =>
    simp only [stage,Stage.sequence,Stage.Fits] at same fits
    have := number_eq _ same small (by omega) (by omega)
    omega

/-- A slot whose position is taken: what the number says of an older position. -/
theorem Valid.sequence_lt {r : TicketRing θ} (valid : r.Valid) {k : Nat} (old : k < r.tail)
    (published : ∀ t, r.stage (k % r.size) ≠ .writing k t) :
    k + 1 ≤ (r.stage (k % r.size)).sequence := by
  have lt := Nat.mod_lt k valid.pos
  have position := valid.position _ lt
  have fits := valid.fits _ lt
  have bound := valid.bound
  cases stage : r.stage (k % r.size) with
  | free k' => simp only [stage,Stage.sequence,Stage.Fits] at fits ⊢; omega
  | writing k' owner =>
    simp only [stage,Stage.position,Stage.sequence,Stage.Fits] at position fits ⊢
    rcases Nat.lt_trichotomy k' k with less | rfl | more
    · have := position_eq position (by omega) (by omega)
      omega
    · exact absurd stage (published owner)
    · omega
  | full k' =>
    simp only [stage,Stage.position,Stage.sequence,Stage.Fits] at position fits ⊢
    rcases Nat.lt_or_ge k' k with less | more
    · have := position_eq position (by omega) (by omega)
      omega
    · omega
  | reading k' owner =>
    simp only [stage,Stage.position,Stage.sequence,Stage.Fits] at position fits ⊢
    rcases Nat.lt_or_ge k' k with less | more
    · have := position_eq position (by omega) (by omega)
      omega
    · omega

/-- No number runs ahead of `head` by more than a lap. -/
theorem Valid.sequence_le {r : TicketRing θ} (valid : r.Valid) {j : Nat} (lt : j < r.size) :
    (r.stage j).sequence ≤ r.head + r.size := by
  have fits := valid.fits j lt
  have bound := valid.bound
  cases stage : r.stage j <;> simp only [stage,Stage.sequence,Stage.Fits] at fits ⊢ <;> omega

/-- No owner is at work on a slot. -/
def Settled (r : TicketRing θ) : Prop :=
  ∀ j < r.size, (∃ k, r.stage j = .free k) ∨ ∃ k, r.stage j = .full k

theorem Valid.tail_settled {r : TicketRing θ} (valid : r.Valid) (settled : r.Settled) :
    r.stage (r.tail % r.size) =
      if r.tail < r.head + r.size then .free r.tail else .full r.head := by
  have lt := Nat.mod_lt r.tail valid.pos
  have position := valid.position _ lt
  have fits := valid.fits _ lt
  have le := valid.le
  rcases settled _ lt with ⟨k,stage⟩ | ⟨k,stage⟩
  · simp only [stage,Stage.position,Stage.Fits] at position fits
    rw [if_pos (by omega),stage,position_eq position.symm fits.1 (by omega)]
  · simp only [stage,Stage.position,Stage.Fits] at position fits
    have lap : k + r.size = r.tail := by
      by_contra ne
      rcases Nat.lt_or_ge (k + r.size) r.tail with less | more
      · have := valid.bound
        omega
      · have := position_eq position (by omega) (by omega)
        omega
    have bound := valid.bound
    rw [if_neg (by omega),stage,show k = r.head by omega]

theorem Valid.head_settled {r : TicketRing θ} (valid : r.Valid) (settled : r.Settled) :
    r.stage (r.head % r.size) = if r.head < r.tail then .full r.head else .free r.head := by
  have lt := Nat.mod_lt r.head valid.pos
  have position := valid.position _ lt
  have fits := valid.fits _ lt
  have le := valid.le
  have bound := valid.bound
  rcases settled _ lt with ⟨k,stage⟩ | ⟨k,stage⟩
  · simp only [stage,Stage.position,Stage.Fits] at position fits
    have := position_eq position.symm (by omega) (by omega)
    rw [if_neg (by omega),stage,this]
  · simp only [stage,Stage.position,Stage.Fits] at position fits
    have := position_eq position.symm (by omega) (by omega)
    rw [if_pos (by omega),stage,this]

def setStage (r : TicketRing θ) (j : Nat) (stage : Stage θ) : TicketRing θ :=
  { r with stage := Function.update r.stage j stage }

/-- `owner` takes the next ticket of `tail`. -/
def claimTail (r : TicketRing θ) (owner : θ) : TicketRing θ :=
  { r.setStage (r.tail % r.size) (.writing r.tail owner) with tail := r.tail + 1 }

def claimHead (r : TicketRing θ) (owner : θ) : TicketRing θ :=
  { r.setStage (r.head % r.size) (.reading r.head owner) with head := r.head + 1 }

theorem Valid.claimTail {r : TicketRing θ} (valid : r.Valid) (owner : θ)
    (free : r.stage (r.tail % r.size) = .free r.tail) : (r.claimTail owner).Valid := by
  have here := valid.fits _ (Nat.mod_lt r.tail valid.pos)
  simp only [free,Stage.Fits] at here
  refine ⟨valid.pos,Nat.le_succ_of_le valid.le,here.2,fun j lt => ?_,fun j lt => ?_⟩
  all_goals
    simp only [TicketRing.claimTail,setStage] at lt ⊢
    by_cases same : j = r.tail % r.size
  · simp [same,Stage.position]
  · simpa [same] using valid.position j lt
  · have := valid.le
    simp [same,Stage.Fits]
    omega
  · have position := valid.position j lt
    have fits := valid.fits j lt
    have other : (r.stage j).position ≠ r.tail := fun eq => same (by rw [← eq,position])
    have lap : (r.stage j).position + r.size ≠ r.tail :=
      fun eq => same (by rw [← eq,Nat.add_mod_right,position])
    simp only [Function.update_of_ne same]
    cases stage : r.stage j <;> simp only [stage,Stage.Fits,Stage.position] at fits other lap ⊢ <;>
      omega

theorem Valid.claimHead {r : TicketRing θ} (valid : r.Valid) (owner : θ)
    (full : r.stage (r.head % r.size) = .full r.head) : (r.claimHead owner).Valid := by
  have here := valid.fits _ (Nat.mod_lt r.head valid.pos)
  simp only [full,Stage.Fits] at here
  have bound := valid.bound
  refine ⟨valid.pos,here.2,?_,fun j lt => ?_,fun j lt => ?_⟩
  · simp only [TicketRing.claimHead,setStage]
    omega
  all_goals
    simp only [TicketRing.claimHead,setStage] at lt ⊢
    by_cases same : j = r.head % r.size
  · simp [same,Stage.position]
  · simpa [same] using valid.position j lt
  · simp [same,Stage.Fits]
    omega
  · have position := valid.position j lt
    have fits := valid.fits j lt
    have other : (r.stage j).position ≠ r.head := fun eq => same (by rw [← eq,position])
    simp only [Function.update_of_ne same]
    cases stage : r.stage j <;> simp only [stage,Stage.Fits,Stage.position] at fits other ⊢ <;>
      omega

/-- A new stage of the same slot, at a position that fits, keeps the ring valid. -/
theorem Valid.setStage {r : TicketRing θ} (valid : r.Valid) {j : Nat} {stage : Stage θ}
    (position : stage.position % r.size = j) (fits : stage.Fits r.head r.tail r.size) :
    (r.setStage j stage).Valid := by
  refine ⟨valid.pos,valid.le,valid.bound,fun i lt => ?_,fun i lt => ?_⟩
  all_goals
    simp only [TicketRing.setStage] at lt ⊢
    by_cases same : i = j
  · simpa [same] using position
  · simpa [same] using valid.position i lt
  · simpa [same] using fits
  · simpa [same] using valid.fits i lt

theorem Valid.publish {r : TicketRing θ} (valid : r.Valid) {j k : Nat} {owner : θ} (lt : j < r.size)
    (writing : r.stage j = .writing k owner) : (r.setStage j (.full k)).Valid := by
  have position := valid.position j lt
  have fits := valid.fits j lt
  rw [writing] at position fits
  exact valid.setStage position fits

theorem Valid.release {r : TicketRing θ} (valid : r.Valid) {j k : Nat} {owner : θ} (lt : j < r.size)
    (reading : r.stage j = .reading k owner) : (r.setStage j (.free (k + r.size))).Valid := by
  have position := valid.position j lt
  have fits := valid.fits j lt
  rw [reading] at position fits
  simp only [Stage.Fits] at fits
  refine valid.setStage ?_ ?_
  · simpa [Stage.position] using position
  · simp only [Stage.Fits]; omega

/-- Where nobody has claimed a slot, those from `head` to `tail` are full. -/
theorem Valid.full_of_unclaimed {r : TicketRing θ} (valid : r.Valid) {k : Nat} (low : r.head ≤ k)
    (high : k < r.tail) (writing : ∀ p t, r.stage (k % r.size) ≠ .writing p t)
    (reading : ∀ p t, r.stage (k % r.size) ≠ .reading p t) :
    r.stage (k % r.size) = .full k := by
  have lt := Nat.mod_lt k valid.pos
  have position := valid.position _ lt
  have fits := valid.fits _ lt
  have bound := valid.bound
  cases stage : r.stage (k % r.size) with
  | free p =>
    simp only [stage,Stage.position,Stage.Fits] at position fits
    have := position_eq position.symm (by omega) (by omega)
    omega
  | writing p owner => exact absurd stage (writing p owner)
  | full p =>
    simp only [stage,Stage.position,Stage.Fits] at position fits
    rcases Nat.le_total k p with le | le
    · rw [position_eq position.symm le (by omega)]
    · rw [position_eq position le (by omega)]
  | reading p owner => exact absurd stage (reading p owner)

end TicketRing
