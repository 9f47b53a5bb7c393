import XxCore.Lib.Sweep
import XxCore.Sync.BroadcastSteady

/-! The drop of the broadcast channel. `drop_all` sets the counter of a slot to zero before it drops
the value, so that a second sweep passes over a value whose destructor panicked. -/
namespace XxCore.Sync.Broadcast

open Sweep

variable {θ V : Type}

/-- The turns of the loop of `drop_all`. The destructor of a value panics where `panics` says so. A
slot without a value is memory that must not be dropped. -/
def dropSlots (panics : V → Bool) : List Nat → Broadcast θ V → Swept (Broadcast θ V) V
  | [], s => ⟨s,[],false⟩
  | j :: rest, s =>
    let slot := s.slots j
    if slot.remaining = 0 then dropSlots panics rest s
    else
      let next := s.setSlot j { slot with remaining := 0, moved := true }
      match slot.data with
      | none => dropSlots panics rest { next with fault := true }
      | some value =>
        let next := { next with fault := s.fault || slot.moved }
        if panics value then ⟨next,[value],true⟩
        else
          let swept := dropSlots panics rest next
          ⟨swept.state,value :: swept.dropped,swept.panicked⟩

def dropAll (panics : V → Bool) (s : Broadcast θ V) : Swept (Broadcast θ V) V :=
  dropSlots panics (List.range s.capacity) s

/-- The drop of the channel, with its guard. -/
def drop (panics : V → Bool) (s : Broadcast θ V) : Cleared (Broadcast θ V) V :=
  guarded (dropAll panics) s

/-- The value in a slot that was not moved out. -/
def value? (s : Broadcast θ V) (j : Nat) : Option V :=
  if (s.slots j).holds then (s.slots j).data else none

/-- The values that were not moved out. -/
def held (s : Broadcast θ V) : List V := (List.range s.capacity).filterMap s.value?

/-- These slots hold these values, and their counters tell which of them hold one. -/
structure Holding (js : List Nat) (s : Broadcast θ V) (values : List V) : Prop where
  counted : ∀ j ∈ js, (s.slots j).remaining ≠ 0 ↔ (s.slots j).holds = true
  values : js.filterMap s.value? = values
  fault : s.fault = false

variable {s s' : Broadcast θ V} {j : Nat} {rest : List Nat} {values : List V}

theorem Holding.frame (holding : Holding rest s values) (slots : ∀ i ∈ rest, s'.slots i = s.slots i)
    (fault : s'.fault = false) : Holding rest s' values where
  counted i mem := by rw [slots i mem]; exact holding.counted i mem
  values := by
    rw [← holding.values]
    exact List.filterMap_congr fun i mem => by rw [value?,slots i mem,value?]
  fault := fault

theorem value?_of_empty (empty : (s.slots j).holds = false) : s.value? j = none := by
  rw [value?,if_neg (by simp [empty])]

theorem Holding.cons_empty (holding : Holding rest s values) (zero : (s.slots j).remaining = 0)
    (empty : (s.slots j).holds = false) : Holding (j :: rest) s values where
  counted i mem := by
    rcases List.mem_cons.mp mem with rfl | mem
    · simp [zero,empty]
    · exact holding.counted i mem
  values := by
    rw [List.filterMap_cons_none (value?_of_empty empty)]
    exact holding.values
  fault := holding.fault

/-- A slot that the loop passes over holds nothing. -/
theorem Holding.of_zero (holding : Holding (j :: rest) s values) (zero : (s.slots j).remaining = 0) :
    (s.slots j).holds = false ∧ Holding rest s values := by
  have empty : (s.slots j).holds = false := by
    have counted := holding.counted j List.mem_cons_self
    simpa [zero] using counted
  refine ⟨empty,fun i mem => holding.counted i (List.mem_cons_of_mem _ mem),?_,holding.fault⟩
  have values := holding.values
  rwa [List.filterMap_cons_none (value?_of_empty empty)] at values

/-- A slot whose value the loop drops holds it. -/
theorem Holding.of_waiting (holding : Holding (j :: rest) s values)
    (waits : (s.slots j).remaining ≠ 0) : ∃ value others, values = value :: others ∧
      (s.slots j).data = some value ∧ (s.slots j).moved = false ∧ Holding rest s others := by
  have holds := (holding.counted j List.mem_cons_self).mp waits
  obtain ⟨some_,unmoved⟩ : (s.slots j).data.isSome = true ∧ (s.slots j).moved = false := by
    simpa [Slot.holds] using holds
  obtain ⟨value,data⟩ := Option.isSome_iff_exists.mp some_
  have here : s.value? j = some value := by rw [value?,if_pos holds,data]
  have values := holding.values
  rw [List.filterMap_cons_some here] at values
  exact ⟨value,_,values.symm,data,unmoved,
    fun i mem => holding.counted i (List.mem_cons_of_mem _ mem),rfl,holding.fault⟩

/-- The slot after its value was dropped. -/
def dropped (s : Broadcast θ V) (j : Nat) : Broadcast θ V :=
  { s.setSlot j { s.slots j with remaining := 0, moved := true } with
    fault := s.fault || (s.slots j).moved }

theorem dropSlots_waiting (panics : V → Bool) {value : V} (waits : (s.slots j).remaining ≠ 0)
    (data : (s.slots j).data = some value) : dropSlots panics (j :: rest) s =
      if panics value then ⟨s.dropped j,[value],true⟩
      else
        let swept := dropSlots panics rest (s.dropped j)
        ⟨swept.state,value :: swept.dropped,swept.panicked⟩ := by
  rw [dropSlots,if_neg waits]
  split
  next none => rw [data] at none; contradiction
  next other => rw [Option.some.inj (data.symm.trans other)]; rfl

/-- The loop drops what the slots hold, and touches no others. -/
theorem dropSlots_spec (panics : V → Bool) {js : List Nat} (nodup : js.Nodup)
    (holding : Holding js s values) :
    Holding js (dropSlots panics js s).state (sweep panics values).state ∧
      (dropSlots panics js s).dropped = (sweep panics values).dropped ∧
      (dropSlots panics js s).panicked = (sweep panics values).panicked ∧
      (dropSlots panics js s).state.capacity = s.capacity ∧
      ∀ i ∉ js, (dropSlots panics js s).state.slots i = s.slots i := by
  induction js generalizing s values with
  | nil =>
    obtain rfl : [] = values := holding.values
    exact ⟨holding,rfl,rfl,rfl,fun _ _ => rfl⟩
  | cons j rest ih =>
    obtain ⟨absent,nodup⟩ := List.nodup_cons.mp nodup
    by_cases zero : (s.slots j).remaining = 0
    · obtain ⟨empty,holding⟩ := holding.of_zero zero
      obtain ⟨state,dropped,panicked,capacity,frame⟩ := ih nodup holding
      rw [dropSlots,if_pos zero]
      have here := frame j absent
      exact ⟨state.cons_empty (by rw [here,zero]) (by rw [here,empty]),dropped,panicked,capacity,
        fun i out => frame i fun mem => out (List.mem_cons_of_mem _ mem)⟩
    · obtain ⟨value,others,rfl,data,unmoved,holding⟩ := holding.of_waiting zero
      have here : (s.dropped j).slots j = { s.slots j with remaining := 0, moved := true } := setSlot_self
      have elsewhere (i : Nat) (ne : i ≠ j) : (s.dropped j).slots i = s.slots i := setSlot_ne ne
      have holding : Holding rest (s.dropped j) others := holding.frame
        (fun i mem => elsewhere i fun same => absent (same ▸ mem))
        (by simp [Broadcast.dropped,holding.fault,unmoved])
      have zero' : ((s.dropped j).slots j).remaining = 0 := by rw [here]
      have empty : ((s.dropped j).slots j).holds = false := by simp [here,Slot.holds]
      rw [dropSlots_waiting panics zero data]
      simp only [sweep]
      split
      · exact ⟨holding.cons_empty zero' empty,rfl,rfl,rfl,
          fun i out => elsewhere i fun same => out (same ▸ List.mem_cons_self)⟩
      · obtain ⟨state,dropped,panicked,capacity,frame⟩ := ih nodup holding
        have there := frame j absent
        refine ⟨state.cons_empty (by rw [there,zero']) (by rw [there,empty]),
          congrArg (value :: ·) dropped,panicked,capacity,fun i out => ?_⟩
        rw [List.mem_cons,not_or] at out
        exact (frame i out.2).trans (elsewhere i out.1)

theorem sweeps_dropAll (panics : V → Bool) :
    Sweeps panics (fun (s : Broadcast θ V) values => Holding (List.range s.capacity) s values)
      (dropAll panics) where
  state s values holding := by
    obtain ⟨state,_,_,capacity,_⟩ := dropSlots_spec panics List.nodup_range holding
    rw [dropAll,capacity]
    exact state
  dropped s values holding := (dropSlots_spec panics List.nodup_range holding).2.1
  panicked s values holding := (dropSlots_spec panics List.nodup_range holding).2.2.1

variable [DecidableEq θ]

/-- At the end of a sequential history the counters tell which slots hold a value. -/
theorem holding_of_path {padding size capacity : Nat} {tx rx : θ} {labels : List (θ × Label V)}
    {c : Config θ V} (created : slotCount padding size = some capacity)
    (path : Transition.Path step OneAtATime (init capacity tx rx) labels c)
    (free : ∀ t, (c.locals t).pc.isFree = true) :
    Holding (List.range c.shared.capacity) c.shared c.shared.held := by
  obtain ⟨board,steady⟩ := path_steady created path
  exact ⟨fun j mem => steady.waits_iff free (List.mem_range.mp mem),rfl,steady.intact.fault⟩

end XxCore.Sync.Broadcast
