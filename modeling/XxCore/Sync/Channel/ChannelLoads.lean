import XxCore.Sync.Channel.ChannelQuiescent
import XxCore.Sync.Channel.QueueSafety

/-! `len` and `spare_capacity`, which load the two counters one after the other. Other tasks may send
and receive between the loads. -/
namespace XxCore.Sync.MCChannel

variable {θ ω V : Type}

/-- `head` is loaded in the first state and `tail` in the second. -/
def len (s s' : MCChannel θ ω V) : Word := s'.remaining .recv (s.queue.counter .recv)

/-- `tail` is loaded in the first state and `head` in the second. -/
def spareCapacity (s s' : MCChannel θ ω V) : Word := s'.remaining .send (s.queue.counter .send)

/-- What is known of the counters: they are those of the claims, and no side passes its limit. -/
theorem Base.counters {c : Config θ ω V} [DecidableEq θ] [DecidableEq ω] (base : Base c)
    (side : Side) :
    c.shared.queue.counter side = BitVec.ofNat 64 (c.shared.queue.claims side) ∧
      c.shared.queue.claims side ≤ limit c.shared side := by
  obtain ⟨r,holds⟩ := base.queue
  have shared : Queue.SharedInv r c.shared.queue := holds.1
  refine ⟨shared.counter side,?_⟩
  have le := shared.valid.le
  have bound := shared.valid.bound
  have send : r.tail = c.shared.queue.claims .send := shared.next .send
  have recv : r.head = c.shared.queue.claims .recv := shared.next .recv
  have size : r.size = c.shared.queue.capacity := shared.size
  cases side with
  | recv => rwa [limit,← send,← recv]
  | send => rwa [limit,← send,← recv,← size]

/-- The second load is that of the limit. -/
theorem Base.remaining {c : Config θ ω V} [DecidableEq θ] [DecidableEq ω] (base : Base c)
    (side : Side) (first : Word) :
    c.shared.remaining side first = BitVec.ofNat 64 (limit c.shared side) - first := by
  cases side with
  | recv => rw [MCChannel.remaining,limit,(base.counters .send).1]
  | send => rw [MCChannel.remaining,limit,(base.counters .recv).1,BitVec.ofNat_add]

variable [DecidableEq θ] [DecidableEq ω]

theorem path_claims {c next : Config θ ω V} {labels : List (θ × Label ω V)} (base : Base c)
    (path : Transition.Path step ClaimsInTime c labels next) (side : Side) :
    Base next ∧ c.shared.queue.claims side ≤ next.shared.queue.claims side :=
  path.invariant
    (fun next => Base next ∧ c.shared.queue.claims side ≤ next.shared.queue.claims side)
    (fun c label _ kept inTime stepped => by
      have base' := kept.1.step inTime stepped
      obtain ⟨l',s',ran,rfl⟩ := Threads.step_eq_some.mp stepped
      have grown := (prog_step ran).claims_le (kept.1.coherent label.1) side
      exact ⟨base',Nat.le_trans kept.2 grown⟩) ⟨base,Nat.le_refl _⟩

/-- What the difference of two loads says: `loaded` is the position of the first one and `limit` that
of the second one, and `now` is where the first counter is by then. -/
structure Observes (value : Word) (loaded limit now : Nat) : Prop where
  ordered : loaded ≤ limit
  exact : limit < loaded + 2 ^ 64 → value.toNat = limit - loaded
  zero : limit < loaded + 2 ^ 64 → value = 0 → now = limit

theorem observes {c next : Config θ ω V} {labels : List (θ × Label ω V)} (base : Base c)
    (path : Transition.Path step ClaimsInTime c labels next) (side : Side) :
    Observes (next.shared.remaining side (c.shared.queue.counter side))
      (c.shared.queue.claims side) (limit next.shared side) (next.shared.queue.claims side) := by
  obtain ⟨base',grown⟩ := path_claims base path side
  have bound := (base'.counters side).2
  have le := Nat.le_trans grown bound
  have value : next.shared.remaining side (c.shared.queue.counter side) =
      BitVec.ofNat 64 (limit next.shared side - c.shared.queue.claims side) := by
    rw [base'.remaining,(base.counters side).1,Word.ofNat_sub le]
  refine ⟨le,fun near => ?_,fun near zero => ?_⟩
  · rw [value,BitVec.toNat_ofNat]
    exact Nat.mod_eq_of_lt (by omega)
  · -- the first counter is between the two loads, which are of one position
    have same : limit next.shared side - c.shared.queue.claims side = 0 := by
      have none := congrArg BitVec.toNat (value.symm.trans zero)
      rw [BitVec.toNat_ofNat,Nat.mod_eq_of_lt (by omega)] at none
      exact none
    omega

/-- The loads of `len` and `spare_capacity`, the first of them in this state, and the tasks that wait
because of them. -/
structure LoadsSound (c : Config θ ω V) : Prop where
  len : ∀ labels next, Transition.Path step ClaimsInTime c labels next →
    Observes (MCChannel.len c.shared next.shared) (c.shared.queue.claims .recv)
      (next.shared.queue.claims .send) (next.shared.queue.claims .recv)
  spareCapacity : ∀ labels next, Transition.Path step ClaimsInTime c labels next →
    Observes (MCChannel.spareCapacity c.shared next.shared) (c.shared.queue.claims .send)
      (next.shared.queue.claims .recv + next.shared.queue.capacity)
      (next.shared.queue.claims .send)
  /-- A waiter of `recv` or `send` is put on the list only if the channel is empty or full. -/
  parks : ∀ side t label next w, step c (t,label) = some next →
    (c.locals t).waits side = .shouldBlock w → (next.locals t).waits side = .append w → Counts w →
    BlocksInTime side c (t,label) → c.shared.queue.claims side = limit c.shared side

theorem loads_sound {padding size : Nat} {slots : Nat × (Nat → Slot V)}
    {labels : List (θ × Label ω V)} {c : Config θ ω V}
    (created : createSlots V padding size = some slots) (two : 2 ≤ size)
    (path : Transition.Path step ClaimsInTime (init slots) labels c) : LoadsSound c := by
  obtain ⟨base,loaded⟩ := path.invariant (fun c => Base c ∧ Loaded c)
    (fun _ _ _ kept inTime stepped => ⟨kept.1.step inTime stepped,kept.2.step kept.1 stepped⟩)
    ⟨init_base created two,nofun⟩
  refine ⟨fun _ _ path => observes base path .recv,fun _ _ path => observes base path .send,?_⟩
  intro side t label next w stepped here appends counts inTime
  obtain ⟨l',s',ran,rfl⟩ := Threads.step_eq_some.mp stepped
  have after : l'.waits side = .append w := by simpa using appends
  have blocks := (prog_step ran).appends (base.coherent t) here after counts
  have none := resource_of_blocks base loaded inTime blocks
  have bound := (base.counters side).2
  cases side
  all_goals
    simp only [resource,limit] at none bound ⊢
    omega

/-- A receiver waits for a value, and gets it. -/
theorem loads_sound_recv : ∃ c, Transition.run step recvTrace twoSlots = some c ∧
    c.shared.queue.claims .send = 2 ∧ LoadsSound c := by
  obtain ⟨c,checked,executed,send⟩ : ∃ c, Transition.run
      (fun c l => if claimsInTime c l then step c l else none) recvTrace twoSlots = some c ∧
      Transition.run step recvTrace twoSlots = some c ∧ c.shared.queue.claims .send = 2 :=
    ⟨_,rfl,rfl,rfl⟩
  exact ⟨c,executed,send,loads_sound Queue.createSlots_two (Nat.le_refl 2)
    (Transition.run_path_checked claimsInTime claimsInTime_sound checked)⟩

/-- A channel with one task, on which nobody waits. -/
def alone (main : Main Unit) (pc : Queue.Local Unit) (waits : Side → WaitList.Pc (Waiter Unit) Unit)
    (woken : Bool) (queue : Queue Unit Unit) (users : Side → List Unit) : Config Unit Unit Unit :=
  ⟨⟨queue,fun _ => .new,fun _ => 1,users,fun _ => []⟩,fun _ => ⟨main,pc,waits,woken⟩⟩

theorem alone_step {l l' : Local Unit Unit} {s s' : MCChannel Unit Unit Unit}
    {label : Label Unit Unit} (ran : prog () label l s = some (l',s')) :
    step ⟨s,fun _ => l⟩ ((),label) = some ⟨s',fun _ => l'⟩ := by
  refine Threads.step_eq_some.mpr ⟨l',s',ran,?_⟩
  congr 1

variable {main : Main Unit} {op : Op Unit} {pc : Queue.Pc Unit} {calls : Nat}
  {waits : Side → WaitList.Pc (Waiter Unit) Unit} {woken : Bool} {queue middle : Queue Unit Unit}
  {users : Side → List Unit} {outcome : Queue.Outcome Unit} {pos : Word} {ticket : Nat}

/-- The slot that a call claims is that of the counter. -/
def claimed (op : Op Unit) (calls : Nat) (queue : Queue Unit Unit) :
    Queue.Local Unit × Queue Unit Unit :=
  Queue.claim () ⟨.exchange op (queue.counter op.side) (queue.claims op.side),calls⟩ queue op
    (queue.counter op.side)

/-- The call up to the claim of the slot, which is ready. -/
theorem claim_path (waits : Side → WaitList.Pc (Waiter Unit) Unit) (woken : Bool)
    (users : Side → List Unit) (between : main.isFree = true) (free : pc.Free)
    (ready : queue.diff op.side (queue.counter op.side) = 0) :
    ∃ labels, Transition.Path step Transition.anyStep (alone main ⟨pc,calls⟩ waits woken queue users)
      labels (alone (.startWake op false) (claimed op (calls + 1) queue).1 waits false
        (claimed op (calls + 1) queue).2 (Function.update users op.side (() :: users op.side))) := by
  let borrowed := Function.update users op.side (() :: users op.side)
  let search (pc : Queue.Pc Unit) : Config Unit Unit Unit :=
    alone (.nextSlot op false) ⟨pc,calls + 1⟩ waits woken queue borrowed
  have call : step (alone main ⟨pc,calls⟩ waits woken queue users) ((),.call (.op op false)) =
      some (alone (.begin op false) ⟨pc,calls⟩ waits woken queue borrowed) := by
    refine alone_step ?_
    cases main <;> first | rfl | cases between
  have begins : step (alone (.begin op false) ⟨pc,calls⟩ waits woken queue borrowed) ((),.next) =
      some (search (.loadCounter op)) := by
    refine alone_step ?_
    simp [prog,tryStep,WaitList.new,runQueue,Queue.prog_call op (l := ⟨pc,calls⟩) free,Local.goto]
  have loads : step (search (.loadCounter op)) ((),.queue .next) =
      some (search (.loadSequence op (queue.counter op.side) (queue.claims op.side))) :=
    alone_step rfl
  have compares : step (search (.loadSequence op (queue.counter op.side) (queue.claims op.side)))
      ((),.queue .next) =
      some (search (.exchange op (queue.counter op.side) (queue.claims op.side))) := by
    refine alone_step ?_
    simp [prog,tryStep,runQueue,Queue.prog_ready ready]
  have claims : step (search (.exchange op (queue.counter op.side) (queue.claims op.side)))
      ((),.queue (.exchange false)) =
      some (alone (.startWake op false) (claimed op (calls + 1) queue).1 waits false
        (claimed op (calls + 1) queue).2 borrowed) := by
    refine alone_step ?_
    simp [prog,tryStep,runQueue,Queue.prog_claim,claimed,Queue.claim,Local.goto]
  exact ⟨_,.cons trivial call (.cons trivial begins (.cons trivial loads (.cons trivial compares
    (.cons trivial claims .nil))))⟩

/-- The `wake_one` in it, which finds no waiter. -/
theorem wake_path (op : Op Unit) (own : Queue.Local Unit) (idle : ∀ side, waits side = .idle ∨
    ∃ value, waits side = .returned value) :
    ∃ labels, Transition.Path step Transition.anyStep (alone (.startWake op false) own waits false
      queue users) labels (alone (.access op false) own
        (Function.update waits op.side.other (.returned (.wakeOne false))) false queue users) := by
  let wakes (pc : WaitList.Pc (Waiter Unit) Unit) (lock : Option Unit) : Config Unit Unit Unit :=
    ⟨⟨queue,Function.update (fun _ => .new) op.side.other { WaitList.new with lock },fun _ => 1,users,
      fun _ => []⟩,fun _ => ⟨.wake op false,own,Function.update waits op.side.other pc,false⟩⟩
  have starts : step (alone (.startWake op false) own waits false queue users) ((),.next) =
      some (wakes (.loadEmpty ()) none) := by
    refine alone_step ?_
    have list : WaitList.prog () (.call (.wakeOne ())) (waits op.side.other) WaitList.new =
        some (.loadEmpty (),(WaitList.new : WaitList Unit (Waiter Unit) Unit)) := by
      rcases idle op.side.other with eq | ⟨_,eq⟩ <;> simp [WaitList.prog,WaitList.start,eq]
    simp only [prog,tryStep,runList,list,Option.map_some]
    rfl
  have loads : step (wakes (.loadEmpty ()) none) ((),.list .next) =
      some (wakes (.wakeLock ()) none) := by
    refine alone_step ?_
    simp [prog,tryStep,runList,Local.setWait,setList,WaitList.prog,WaitList.wakeOneStep,WaitList.new,
      untilReturned,isReturned]
  have locks : step (wakes (.wakeLock ()) none) ((),.list .next) =
      some (wakes (.popFront ()) (some ())) := by
    refine alone_step ?_
    simp [prog,tryStep,runList,Local.setWait,setList,WaitList.prog,WaitList.wakeOneStep,WaitList.new,
      WaitList.acquire,untilReturned,isReturned]
  have pops : step (wakes (.popFront ()) (some ())) ((),.list .next) =
      some (wakes .unlockNone (some ())) := by
    refine alone_step ?_
    simp [prog,tryStep,runList,Local.setWait,setList,WaitList.prog,WaitList.wakeOneStep,WaitList.new,
      untilReturned,isReturned]
  have unlocks : step (wakes .unlockNone (some ())) ((),.list .next) = some (alone (.access op false)
      own (Function.update waits op.side.other (.returned (.wakeOne false))) false queue users) := by
    refine alone_step ?_
    have released : WaitList.release { WaitList.new with lock := some () } =
      (WaitList.new : WaitList Unit (Waiter Unit) Unit) := rfl
    simp [prog,tryStep,runList,Local.setWait,setList,WaitList.prog,WaitList.wakeOneStep,released,
      untilReturned,isReturned,Local.goto]
  exact ⟨_,.cons trivial starts (.cons trivial loads (.cons trivial locks (.cons trivial pops
    (.cons trivial unlocks .nil))))⟩

/-- The access of the data and the end of the call. -/
theorem access_path (outcome : Queue.Outcome Unit)
    (accessed : Queue.access ⟨.success op pos ticket,calls⟩ queue op pos ticket =
      (⟨.storeSequence op pos ticket outcome,calls⟩,middle)) :
    ∃ labels, Transition.Path step Transition.anyStep (alone (.access op false)
      ⟨.success op pos ticket,calls⟩ waits false queue
        (Function.update users op.side (() :: users op.side))) labels
      (alone (.returned (.finished outcome)) ⟨.returned outcome,calls⟩ waits false
        (middle.setSlot pos { middle.slots (middle.index pos) with
          sequence := (Queue.map middle.capacity op.side pos).2 })
        fun side => (Function.update users op.side (() :: users op.side) side).erase ()) := by
  let borrowed := Function.update users op.side (() :: users op.side)
  have moves : step (alone (.access op false) ⟨.success op pos ticket,calls⟩ waits false queue borrowed)
      ((),.queue .next) = some (alone (.access op false) ⟨.storeSequence op pos ticket outcome,calls⟩
        waits false middle borrowed) := by
    refine alone_step ?_
    simp [prog,tryStep,runQueue,Queue.prog,accessed]
  have stores : step (alone (.access op false) ⟨.storeSequence op pos ticket outcome,calls⟩ waits false
      middle borrowed) ((),.queue .next) = some (alone (.returned (.finished outcome))
        ⟨.returned outcome,calls⟩ waits false (middle.setSlot pos
          { middle.slots (middle.index pos) with
            sequence := (Queue.map middle.capacity op.side pos).2 })
        fun side => (borrowed side).erase ()) := by
    refine alone_step ?_
    simp [prog,tryStep,runQueue,Queue.prog,leave]
  exact ⟨_,.cons trivial moves (.cons trivial stores .nil)⟩

/-- The task is between two calls. -/
def Calm (queue : Queue Unit Unit) (c : Config Unit Unit Unit) : Prop :=
  ∃ main own waits woken users, c = alone main own waits woken queue users ∧ main.isFree = true ∧
    own.pc.Free ∧ ∀ side, waits side = .idle ∨ ∃ value, waits side = .returned value

/-- A call that finds its slot ready. -/
theorem Calm.pass {c : Config Unit Unit Unit} {data : Option Unit} (calm : Calm queue c)
    (passes : ∀ calls, ∃ queue', Queue.Passed () calls op queue queue' outcome ∧
      Queue.Advanced op.side data queue queue') :
    ∃ labels next queue', Transition.Path step Transition.anyStep c labels next ∧ Calm queue' next ∧
      Queue.Advanced op.side data queue queue' := by
  obtain ⟨main,⟨pc,calls⟩,waits,woken,users,rfl,between,free,idle⟩ := calm
  obtain ⟨queue',⟨ready,middle,accessed,rfl⟩,advanced⟩ := passes (calls + 1)
  obtain ⟨_,claims⟩ := claim_path waits woken users between free ready
  obtain ⟨_,wakes⟩ := wake_path op (claimed op (calls + 1) queue).1 idle
  obtain ⟨_,ends⟩ := access_path outcome accessed
  refine ⟨_,_,_,claims.append (wakes.append ends),?_,advanced⟩
  refine ⟨_,_,_,_,_,rfl,rfl,.inr ⟨outcome,rfl⟩,?_⟩
  intro side
  by_cases at_ : side = op.side.other
  · subst at_
    exact .inr ⟨_,Function.update_self ..⟩
  · rw [Function.update_of_ne at_]
    exact idle side

theorem flow_reached (k : Nat) : ∃ labels c queue, Transition.Path step Transition.anyStep
    (init (2,fun i => ⟨BitVec.ofNat 64 i,none⟩)) labels c ∧ Calm queue c ∧ Queue.Flow k queue := by
  induction k with
  | zero =>
    exact ⟨[],_,_,.nil,⟨_,_,_,_,_,rfl,rfl,.inl rfl,fun _ => .inl rfl⟩,rfl,fun _ => rfl,fun _ => rfl,
      rfl,rfl⟩
  | succ k before =>
    obtain ⟨_,c,queue,path,calm,flow⟩ := before
    obtain ⟨_,mid,_,sends,calm,sent⟩ := calm.pass fun _ => flow.send
    obtain ⟨_,next,_,receives,calm,received⟩ := calm.pass fun _ => flow.recv sent
    exact ⟨_,next,_,path.append (sends.append receives),calm,flow.next sent received⟩

/-- After `2 ^ 64` values the second load shows the position of the first one again. -/
theorem loads_not_always_sound : ¬ ∀ (labels labels' : List (Unit × Label Unit Unit))
    (c next : Config Unit Unit Unit),
    Transition.Path step Transition.anyStep (init (2,fun i => ⟨BitVec.ofNat 64 i,none⟩)) labels c →
    Transition.Path step Transition.anyStep c labels' next → len c.shared next.shared = 0 →
    next.shared.queue.claims .recv = next.shared.queue.claims .send := by
  intro always
  obtain ⟨_,c,queue,path,calm,flow⟩ := flow_reached (2 ^ 64 - 1)
  obtain ⟨_,next,queue',sends,calm,sent⟩ := calm.pass fun _ => flow.send
  change Queue.Advanced .send (some ()) queue queue' at sent
  obtain ⟨_,_,_,_,_,rfl,_⟩ := calm
  have none : len (init (2,fun i => ⟨BitVec.ofNat 64 i,none⟩) : Config Unit Unit Unit).shared
      (⟨queue',fun _ => .new,fun _ => 1,fun _ => [],fun _ => []⟩ : MCChannel Unit Unit Unit) = 0 := by
    have tail : queue'.counter .send = 0 := by simp [sent.counter,flow.counter]
    simp [len,MCChannel.remaining,init,bounded,Queue.new,tail]
  have equal := always _ _ _ _ .nil (path.append sends) none
  have send : queue'.claims .send = 2 ^ 64 := by simp [sent.claims,flow.claims]
  have recv : queue'.claims .recv = 2 ^ 64 - 1 := by simp [sent.claims,flow.claims]
  simp [alone,send,recv] at equal

end XxCore.Sync.MCChannel
