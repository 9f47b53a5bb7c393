import XxCore.Lib.Sweep
import XxCore.Sync.Channel.QueueInvariant

/-! `drop_all` of the queue: the values from `head` to `tail` are dropped in order, and `head` is
stored before each of them, so that a second sweep goes on behind a value whose destructor
panicked. -/
namespace XxCore.Sync.Queue

open Sweep

variable {θ V : Type}

theorem drop_closer {head tail : Word} (more : head ≠ tail) :
    (tail - (head + 1)).toNat < (tail - head).toNat := by
  bv_omega

/-- `drop_all`. The destructor of a value panics where `panics` says so. A slot without a value is
memory that must not be dropped. -/
def dropAll (panics : V → Bool) (s : Queue θ V) : Swept (Queue θ V) V :=
  let head := s.counter .recv
  if s.counter .recv = s.counter .send then ⟨s,[],false⟩
  else
    let next := { s with counter := Function.update s.counter .recv (head + 1) }
    let slot := s.slots (s.index head)
    match slot.data with
    | none => dropAll panics { next with fault := true }
    | some value =>
      let next := next.setSlot head { slot with data := none }
      if panics value then ⟨next,[value],true⟩
      else
        let swept := dropAll panics next
        ⟨swept.state,value :: swept.dropped,swept.panicked⟩
termination_by (s.counter .send - s.counter .recv).toNat
decreasing_by
  all_goals exact drop_closer ‹_›

/-- The queue holds these values from a position on. -/
structure Holding (first : Nat) (s : Queue θ V) (values : List V) : Prop where
  capacity : Capacity s.capacity
  head : s.counter .recv = BitVec.ofNat 64 first
  tail : s.counter .send = BitVec.ofNat 64 (first + values.length)
  fits : values.length ≤ s.capacity
  data : ∀ i v, values[i]? = some v → (s.slots ((first + i) % s.capacity)).data = some v
  fault : s.fault = false

variable {first : Nat} {s : Queue θ V} {value : V} {values : List V}

theorem Holding.index (holding : Holding first s values) (k : Nat) :
    s.index (BitVec.ofNat 64 k) = k % s.capacity := by
  obtain ⟨e,capacity,_,high⟩ := holding.capacity
  simp only [Queue.index,Queue.mask,capacity]
  exact Word.toNat_and_mask (by omega)

/-- One turn of the loop. -/
theorem Holding.next (holding : Holding first s (value :: values)) :
    Holding (first + 1)
      ({ s with counter := Function.update s.counter .recv (s.counter .recv + 1) }.setSlot
        (s.counter .recv) { s.slots (s.index (s.counter .recv)) with data := none }) values := by
  have bounds := holding.capacity.bounds
  have fits := holding.fits
  rw [List.length_cons] at fits
  refine ⟨holding.capacity,?_,?_,Nat.le_of_succ_le fits,fun i v at_ => ?_,holding.fault⟩
  · change s.counter .recv + 1 = _
    rw [holding.head]
    exact (BitVec.ofNat_add first 1).symm
  · change s.counter .send = _
    rw [holding.tail,List.length_cons]
    congr 1
    omega
  · have lt := (List.getElem?_eq_some_iff.mp at_).1
    have apart : (first + 1 + i) % s.capacity ≠ first % s.capacity := by
      intro same
      have := TicketRing.position_eq same.symm (by omega) (by omega)
      omega
    change (Function.update s.slots (s.index (s.counter .recv)) _
      ((first + 1 + i) % s.capacity)).data = some v
    rw [holding.head,holding.index,Function.update_of_ne apart]
    have held := holding.data (i + 1) v (by simpa using at_)
    rwa [show first + (i + 1) = first + 1 + i by omega] at held

/-- The loop drops what the queue holds, and ends. -/
theorem dropAll_spec (panics : V → Bool) (holding : Holding first s values) :
    (∃ first, Holding first (dropAll panics s).state (sweep panics values).state) ∧
      (dropAll panics s).dropped = (sweep panics values).dropped ∧
      (dropAll panics s).panicked = (sweep panics values).panicked := by
  induction values generalizing first s with
  | nil =>
    have empty : s.counter .recv = s.counter .send := by
      rw [holding.head,holding.tail]
      rfl
    rw [dropAll,if_pos empty]
    exact ⟨⟨first,holding⟩,rfl,rfl⟩
  | cons value values ih =>
    have fits := holding.fits
    have bounds := holding.capacity.bounds
    have more : s.counter .recv ≠ s.counter .send := by
      rw [holding.head,holding.tail,List.length_cons]
      intro same
      rw [List.length_cons] at fits
      have := (Word.ofNat_inj (w := 64) (by omega) (by omega)).mp same
      omega
    have here : (s.slots (s.index (s.counter .recv))).data = some value := by
      rw [holding.head,holding.index]
      exact holding.data 0 value rfl
    rw [dropAll,if_neg more]
    simp only [here,sweep]
    split
    · exact ⟨⟨first + 1,holding.next⟩,rfl,rfl⟩
    · obtain ⟨state,dropped,panicked⟩ := ih holding.next
      exact ⟨state,by rw [dropped],panicked⟩

theorem sweeps_dropAll (panics : V → Bool) :
    Sweeps panics (fun (s : Queue θ V) values => ∃ first, Holding first s values) (dropAll panics) where
  state _ _ held := held.elim fun _ holding => (dropAll_spec panics holding).1
  dropped _ _ held := held.elim fun _ holding => (dropAll_spec panics holding).2.1
  panicked _ _ held := held.elim fun _ holding => (dropAll_spec panics holding).2.2

end XxCore.Sync.Queue
