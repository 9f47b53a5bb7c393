import XxCore.Sync.Channel.ChannelParts
import XxCore.Sync.Channel.QueueDrop

/-! Sequential histories of the channel, and its drop at their end: what was sent was received or is
dropped. -/
namespace XxCore.Sync

namespace Queue

variable {θ V : Type}

/-- Without a call nothing is claimed or loaded. -/
theorem Pc.of_phase {pc : Pc V} (free : pc.phase = none) : pc.stamp = none ∧ pc.holds = none := by
  cases pc with
  | idle => exact ⟨rfl,rfl⟩
  | returned => exact ⟨rfl,rfl⟩
  | _ => contradiction

/-- The tickets of the values that were received are those that were claimed, in order, but for the
one of a receiver that has yet to read its slot. -/
def Taken (s : Queue θ V) : Pc V → Prop
  | .success .tryRecv _ k => k + 1 = s.claims .recv ∧ s.received.map Prod.fst = List.range k
  | _ => s.received.map Prod.fst = List.range (s.claims .recv)

theorem taken_of_phase {s : Queue θ V} {pc : Pc V} (free : pc.phase = none) :
    Taken s pc ↔ s.received.map Prod.fst = List.range (s.claims .recv) := by
  cases pc with
  | idle => rfl
  | returned => rfl
  | _ => contradiction

/-- A call that nobody overtakes. -/
structure Alone (s : Queue θ V) (l : Local V) : Prop where
  stamp : ∀ side k, l.pc.stamp = some (side,k) → k = s.claims side
  taken : Taken s l.pc

theorem Step.alone {t : θ} {s s' : Queue θ V} {l l' : Local V} {label : Label V}
    (step : Step t s l label l' s') (alone : Alone s l) : Alone s' l' := by
  obtain ⟨stamp,taken⟩ := alone
  cases step with
  | call free =>
    refine ⟨nofun,?_⟩
    rcases free with rfl | ⟨_,rfl⟩
    · exact taken
    · exact taken
  | loadCounter =>
    refine ⟨fun side k is => ?_,taken⟩
    obtain ⟨rfl,rfl⟩ := Prod.mk.inj (Option.some.inj is)
    rfl
  | ready => exact ⟨stamp,taken⟩
  | rejectSend => exact ⟨nofun,taken⟩
  | rejectRecv => exact ⟨nofun,taken⟩
  | behind => exact ⟨nofun,taken⟩
  | @claim _ op =>
    refine ⟨nofun,?_⟩
    cases op with
    | trySend => exact taken
    | tryRecv => exact ⟨rfl,taken⟩
  | retry => exact ⟨nofun,taken⟩
  | write => exact ⟨nofun,taken⟩
  | readNone => exact ⟨nofun,taken⟩
  | @read _ pos ticket calls =>
    refine ⟨nofun,?_⟩
    obtain ⟨last,before⟩ := taken
    change (s.received ++ [(ticket,_)]).map Prod.fst = List.range (s.claims .recv)
    rw [List.map_append,before,← last,List.range_succ]
    rfl
  | storeSequence => exact ⟨nofun,taken⟩

/-- What was sent and not received, where it is received in the order in which it was sent. -/
def unreceived (s : Queue θ V) : List V := (s.sent.drop s.received.length).map Sent.value

variable {r : TicketRing θ} {s : Queue θ V}

theorem received_eq (shared : SharedInv r s)
    (taken : s.received.map Prod.fst = List.range (s.claims .recv)) :
    s.received.length = s.claims .recv ∧
      s.received.map Prod.snd = (s.sent.take s.received.length).map Sent.value := by
  have length : s.received.length = s.claims .recv := by
    rw [← List.length_map (f := Prod.fst),taken,List.length_range]
  refine ⟨length,List.ext_getElem? fun i => ?_⟩
  rcases Nat.lt_or_ge i s.received.length with lt | beyond
  · obtain ⟨⟨k,value⟩,at_⟩ : ∃ entry, s.received[i]? = some entry :=
      ⟨_,List.getElem?_eq_getElem lt⟩
    have ticket : (s.received.map Prod.fst)[i]? = some k := by rw [List.getElem?_map,at_]; rfl
    rw [taken,List.getElem?_range (by omega)] at ticket
    obtain rfl := Option.some.inj ticket
    obtain ⟨_,e,sent,rfl⟩ := shared.received i value (List.mem_of_getElem? at_)
    rw [List.getElem?_map,at_,List.getElem?_map,List.getElem?_take_of_lt lt,sent]
    rfl
  · rw [List.getElem?_eq_none (by rwa [List.length_map]),List.getElem?_eq_none]
    rw [List.length_map,List.length_take]
    omega

/-- Between the calls the queue holds what was sent and not received. -/
theorem holding_of_free {c : Config θ V} (holds : outline.Holds r c)
    (free : ∀ t, (c.locals t).pc.phase = none)
    (taken : c.shared.received.map Prod.fst = List.range (c.shared.claims .recv)) :
    Holding (c.shared.claims .recv) c.shared (unreceived c.shared) := by
  have shared := holds.1
  have valid := shared.valid
  have size := shared.size
  obtain ⟨length,_⟩ := received_eq shared taken
  have head : r.head = c.shared.claims .recv := shared.next .recv
  have tail : r.tail = c.shared.claims .send := shared.next .send
  have le := valid.le
  have bound := valid.bound
  have sent := shared.length
  have many : (unreceived c.shared).length = c.shared.claims .send - c.shared.claims .recv := by
    rw [unreceived,List.length_map,List.length_drop,sent,length]
  have claimed (j : Nat) (lt : j < c.shared.capacity) (side : Side) (k : Nat) (t : θ) :
      r.stage j ≠ held side k t := by
    intro stage
    have owns := (holds.2 t).owns j lt side k stage
    rw [(Pc.of_phase (free t)).2] at owns
    contradiction
  have positive : 0 < c.shared.capacity := by
    have := shared.capacity.bounds
    omega
  refine ⟨shared.capacity,shared.counter .recv,?_,?_,fun i v at_ => ?_,shared.fault⟩
  · rw [many,shared.counter .send]
    congr 1
    omega
  · omega
  · have lt := (List.getElem?_eq_some_iff.mp at_).1
    have inside := Nat.mod_lt (c.shared.claims .recv + i) positive
    have stage := valid.full_of_unclaimed (k := c.shared.claims .recv + i) (by omega) (by omega)
      (fun p t => by rw [size]; exact claimed _ inside .send p t)
      (fun p t => by rw [size]; exact claimed _ inside .recv p t)
    rw [size] at stage
    obtain ⟨e,sent,data⟩ := shared.full _ inside _ stage
    rw [unreceived,length,List.getElem?_map,List.getElem?_drop,sent] at at_
    obtain rfl := Option.some.inj at_
    exact data

end Queue

namespace MCChannel

open Sweep

variable {θ ω V : Type}

/-- `drop_all`. -/
def dropAll (panics : V → Bool) (s : MCChannel θ ω V) : Swept (MCChannel θ ω V) V :=
  let swept := s.queue.dropAll panics
  ⟨{ s with queue := swept.state },swept.dropped,swept.panicked⟩

/-- The drop of the channel, with its guard. -/
def drop (panics : V → Bool) (s : MCChannel θ ω V) : Cleared (MCChannel θ ω V) V :=
  guarded (dropAll panics) s

theorem sweeps_dropAll (panics : V → Bool) :
    Sweeps panics (fun (s : MCChannel θ ω V) values => ∃ first, Queue.Holding first s.queue values)
      (dropAll panics) where
  state s := (Queue.sweeps_dropAll panics).state s.queue
  dropped s := (Queue.sweeps_dropAll panics).dropped s.queue
  panicked s := (Queue.sweeps_dropAll panics).panicked s.queue

/-- A call starts only when all other tasks are between two calls. -/
def OneAtATime (c : Config θ ω V) (label : θ × Label ω V) : Prop :=
  ∀ call, label.2 = .call call → ∀ u, u ≠ label.1 → (c.locals u).main.isFree = true

/-- What holds while at most one call is in progress. -/
structure Serial (c : Config θ ω V) : Prop where
  base : Base c
  others : ∀ t u, u ≠ t → (c.locals t).main.isFree = false → (c.locals u).main.isFree = true
  busy : ∀ t, (c.locals t).main.isFree = false → Queue.Alone c.shared.queue (c.locals t).queue
  received : (∀ t, (c.locals t).main.isFree = true) →
    c.shared.queue.received.map Prod.fst = List.range (c.shared.queue.claims .recv)

theorem Base.phase {c : Config θ ω V} (base : Base c) {t : θ} (free : (c.locals t).main.isFree = true) :
    (c.locals t).queue.pc.phase = none :=
  (base.coherent t).queue.trans (Main.of_isFree free).2.1

variable [DecidableEq θ] [DecidableEq ω]

theorem prog_of_free {t : θ} {label : Label ω V} {l l' : Local ω V} {s s' : MCChannel θ ω V}
    (free : l.main.isFree = true) (ran : prog t label l s = some (l',s')) :
    ∃ call, label = .call call := by
  unfold prog at ran
  cases main : l.main with
  | idle | returned =>
    rw [main] at ran
    cases label with
    | call call => exact ⟨call,rfl⟩
    | _ => contradiction
  | _ => simp [main,Main.isFree] at free

theorem Serial.step {c next : Config θ ω V} {label : θ × Label ω V} (serial : Serial c)
    (sequential : OneAtATime c label) (stepped : step c label = some next) :
    ClaimsInTime c label ∧ Serial next := by
  obtain ⟨t,label⟩ := label
  have base := serial.base
  have free : ∀ u, u ≠ t → (c.locals u).main.isFree = true := by
    intro u ne
    cases busy : (c.locals t).main.isFree with
    | false => exact serial.others t u ne busy
    | true =>
      obtain ⟨l,s,ran,_⟩ := Threads.step_eq_some.mp stepped
      obtain ⟨call,is⟩ := prog_of_free busy ran
      exact sequential call is u ne
  have alone : Queue.Alone c.shared.queue (c.locals t).queue := by
    cases busy : (c.locals t).main.isFree with
    | false => exact serial.busy t busy
    | true =>
      have phase := base.phase busy
      have received := serial.received fun u => by
        by_cases same : u = t
        · rw [same,busy]
        · exact free u same
      exact ⟨by simp [(Queue.Pc.of_phase phase).1],(Queue.taken_of_phase phase).mpr received⟩
  have inTime : ClaimsInTime c (t,label) := by
    intro choice _ _ op pos stamp at_ _
    have same := alone.stamp op.side stamp (by rw [show (c.locals t).queue.pc = _ from at_]; rfl)
    change c.shared.queue.claims op.side < stamp + 2 ^ 64
    omega
  have after := base.step inTime stepped
  obtain ⟨l,s,ran,rfl⟩ := Threads.step_eq_some.mp stepped
  have moved : Queue.Alone s.queue l.queue := by
    rcases (prog_step ran).queueStep with ⟨same,same'⟩ | ⟨choice,_,ran⟩
    · rw [same,same']
      exact alone
    · exact (Queue.prog_step ran).alone alone
  have others (u : θ) (ne : u ≠ t) : (Function.update c.locals t l u).main.isFree = true := by
    rw [Function.update_of_ne ne]
    exact free u ne
  refine ⟨inTime,after,fun v u ne busy => ?_,fun v busy => ?_,fun all => ?_⟩
  · by_cases same : v = t
    · exact others u (same ▸ ne)
    · rw [others v same] at busy
      contradiction
  · by_cases same : v = t
    · subst same
      simpa using moved
    · rw [others v same] at busy
      contradiction
  · have phase := after.phase (all t)
    simp only [Function.update_self] at phase
    exact (Queue.taken_of_phase phase).mp moved.taken

theorem init_serial {padding size : Nat} {slots : Nat × (Nat → Slot V)}
    (created : createSlots V padding size = some slots) (two : 2 ≤ size) :
    Serial (init slots : Config θ ω V) where
  base := init_base created two
  others _ _ _ _ := rfl
  busy _ busy := absurd busy nofun
  received _ := rfl

/-- At the end of a sequential history the channel holds what was sent and not received. -/
theorem holding_of_path {padding size : Nat} {slots : Nat × (Nat → Slot V)}
    {labels : List (θ × Label ω V)} {c : Config θ ω V}
    (created : createSlots V padding size = some slots) (two : 2 ≤ size)
    (path : Transition.Path step OneAtATime (init slots) labels c)
    (free : ∀ t, (c.locals t).main.isFree = true) :
    Queue.Holding (c.shared.queue.claims .recv) c.shared.queue (Queue.unreceived c.shared.queue) ∧
      c.shared.queue.received.map Prod.snd ++ Queue.unreceived c.shared.queue =
        c.shared.queue.sent.map Sent.value := by
  have serial : Serial c := path.invariant Serial
    (fun _ _ _ serial sequential stepped => (serial.step sequential stepped).2)
    (init_serial created two)
  obtain ⟨r,holds⟩ := serial.base.queue
  have taken := serial.received free
  refine ⟨Queue.holding_of_free holds (fun t => serial.base.phase (free t)) taken,?_⟩
  obtain ⟨_,values⟩ := Queue.received_eq holds.1 taken
  calc c.shared.queue.received.map Prod.snd ++ Queue.unreceived c.shared.queue
    _ = ((c.shared.queue.sent.take c.shared.queue.received.length).map Sent.value) ++
        Queue.unreceived c.shared.queue := congrArg (· ++ _) values
    _ = c.shared.queue.sent.map Sent.value := by
      rw [Queue.unreceived,← List.map_append,List.take_append_drop]

end MCChannel

end XxCore.Sync
