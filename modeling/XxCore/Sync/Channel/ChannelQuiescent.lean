import Mathlib.Tactic.IntervalCases
import XxCore.Sync.Channel.ChannelClosed
import XxCore.Sync.Channel.ChannelWakes

/-! Quiescent states of the channel: a task that is still parked there was not forgotten, unless
a wake-up was lost on the way. -/
namespace XxCore.Sync.MCChannel

variable {θ ω V : Type}

/-- No task is between two steps of a call, and every task whose waiter was completed has run
on. -/
def Quiescent (c : Config θ ω V) : Prop :=
  ∀ t, (c.locals t).main.isFree = true ∨ ∃ side w, (c.locals t).waits side = .parked w ∧
    (c.shared.waiters side).resolutions w = []

/-- The task is parked in `send_wait`, called by `Sender::send`. -/
def ParkedInSend (l : Local ω V) : Prop :=
  ∃ value first w, l.main = .wait (.trySend value) first ∧ l.waits .send = .parked w

theorem Quiescent.waits {c : Config θ ω V} (quiescent : Quiescent c)
    (coherent : ∀ t, Coherent (c.locals t)) (t : θ) (side : Side) :
    ((c.locals t).waits side).isFree = true ∨ ∃ w, (c.locals t).waits side = .parked w ∧
      (c.shared.waiters side).resolutions w = [] := by
  have lists := (coherent t).lists
  rcases quiescent t with free | ⟨at_,w,parked,unresolved⟩
  · exact .inl (WaitList.isFree_of_family ((lists side).trans ((Main.of_isFree free).1 side)))
  · by_cases same : side = at_
    · subst same
      exact .inr ⟨w,parked,unresolved⟩
    · have here := lists at_
      rw [parked] at here
      refine .inl (WaitList.isFree_of_family ((lists side).trans ?_))
      rcases Main.of_wait here.symm with ⟨op,first,main,rfl⟩ | ⟨main,rfl⟩
      · rw [main,Main.list,if_neg same]
      · rw [main,Main.list,if_neg same]

theorem Quiescent.not_owes {c : Config θ ω V} (quiescent : Quiescent c)
    (coherent : ∀ t, Coherent (c.locals t)) (t : θ) (side : Side) :
    ¬ Owes side c.shared (c.locals t) := by
  intro owes
  rcases quiescent t with free | ⟨at_,w,parked,_⟩
  · have owing := owes_main (coherent t) owes
    cases main : (c.locals t).main <;> rw [main] at owing free <;> contradiction
  · rcases owes with bound | delivers | ⟨w',_,pends,_,mem⟩
    · exact not_bound_of_pends (coherent t) (by rw [parked]; rfl) bound
    · rcases quiescent.waits coherent t side with free | ⟨_,here,_⟩
      · have family := WaitList.family_of_isFree free
        rw [WaitList.family_of_delivers delivers] at family
        contradiction
      · rw [here] at delivers
        contradiction
    · rcases quiescent.waits coherent t side with free | ⟨_,here,unresolved⟩
      · have family := WaitList.family_of_isFree free
        rw [WaitList.family_of_pends pends] at family
        contradiction
      · rw [here] at pends
        obtain rfl := Option.some.inj pends
        simp [unresolved] at mem

/-- The waiter of a task that is parked in a quiescent state is linked. -/
theorem Quiescent.linked {c : Config θ ω V} (quiescent : Quiescent c) (base : Base c) {t : θ}
    {side : Side} {w : Waiter ω} (parked : (c.locals t).waits side = .parked w) :
    w ∈ (c.shared.waiters side).list := by
  obtain ⟨a,lists⟩ := base.lists side
  refine WaitList.linked_of_pends lists (t := t) ?_ ?_ fun u takes => ?_
  · exact congrArg WaitList.Pc.pends parked
  · rcases quiescent.waits base.coherent t side with free | ⟨w',here,unresolved⟩
    · simp [parked,WaitList.Pc.isFree] at free
    · obtain rfl := WaitList.Pc.parked.inj (parked.symm.trans here)
      exact unresolved
  · simp only [listOf] at takes
    rcases quiescent.waits base.coherent u side with free | ⟨_,here,_⟩
    · cases at_ : (c.locals u).waits side <;> rw [at_] at free takes <;> contradiction
    · rw [here] at takes
      contradiction

/-- While something is there to wait for, a quiescent state has no waiter that could use it, if
the wake-ups are accounted for. -/
theorem Quiescent.not_waiting {c : Config θ ω V} {side : Side} (quiescent : Quiescent c)
    (awake : Awake side c) (opened : (c.shared.waiters side).closed = false)
    (ready : 0 < resource c.shared side) : ¬ Waiting side c := by
  intro waiting
  obtain ⟨S,owing,le⟩ := awake.covered opened waiting
  obtain ⟨u,mem⟩ := Finset.card_pos.mp (Nat.lt_of_lt_of_le ready le)
  exact quiescent.not_owes awake.base.coherent u side (owing u mem).1

/-- Whoever waits in the list of the receivers is a receiver. -/
theorem counts_of_recv {c : Config θ ω V} (base : Base c) {w : Waiter ω} {t : θ}
    (waiter : ((c.locals t).waits .recv).waiter = some w)
    (family : ((c.locals t).waits .recv).family = some .wait) : Counts w := by
  have purpose := (base.coherent t).purpose .recv w waiter
  rw [(base.coherent t).lists] at family
  rcases Main.of_wait family with ⟨op,first,main,_⟩ | ⟨_,side⟩
  · rw [main] at purpose
    exact purpose
  · contradiction

variable [DecidableEq θ] [DecidableEq ω]

theorem init_awake {padding size : Nat} {slots : Nat × (Nat → Slot V)} (side : Side)
    (created : createSlots V padding size = some slots) (two : 2 ≤ size) :
    Awake side (init slots : Config θ ω V) := by
  refine ⟨init_base created two,nofun,fun _ waiting => absurd waiting ?_⟩
  exact WaitList.not_waiting rfl nofun

/-- In every run that loses no wake-up of the senders, a quiescent state with a free slot has no
task parked in `Sender::send`. -/
theorem senders_wake {padding size : Nat} {slots : Nat × (Nat → Slot V)}
    {labels : List (θ × Label ω V)} {c : Config θ ω V}
    (created : createSlots V padding size = some slots) (two : 2 ≤ size)
    (path : Transition.Path step (fun c label => Keeps .send c label ∧ WakesCovered .send c label)
      (init slots) labels c)
    (quiescent : Quiescent c) (opened : (c.shared.waiters .send).closed = false)
    (free : c.shared.queue.claims .send < c.shared.queue.claims .recv + c.shared.queue.capacity)
    (t : θ) : ¬ ParkedInSend (c.locals t) := by
  rintro ⟨value,first,w,main,parked⟩
  have awake := path.invariant (Awake .send) (fun _ _ _ awake keeps stepped =>
    awake.step keeps.1 keeps.2 stepped) (init_awake .send created two)
  have purpose := (awake.base.coherent t).purpose .send w (by rw [parked]; rfl)
  rw [main] at purpose
  refine quiescent.not_waiting awake opened (Nat.sub_pos_of_lt free) (.inl ⟨w,?_,purpose⟩)
  exact quiescent.linked awake.base parked

theorem counts_of_linked {c : Config θ ω V} (base : Base c) {w : Waiter ω}
    (linked : w ∈ (c.shared.waiters .recv).list) : Counts w := by
  obtain ⟨a,shared,threads⟩ := base.lists .recv
  have phase := (shared.linked w).mp linked
  obtain ⟨u,pends⟩ := base.pended .recv w ((shared.appended w).mpr (by rw [phase]; rfl))
    (by rw [shared.resolutions,phase]; rfl)
  exact counts_of_recv base (WaitList.waiter_of_pends pends) (WaitList.family_of_pends pends)

theorem wakesCovered_recv {c : Config θ ω V} (base : Base c) (label : θ × Label ω V) :
    WakesCovered .recv c label := by
  intro value w rest _ list other
  exact absurd (counts_of_linked base (by rw [list]; exact List.mem_cons_self)) other

/-- After the channel was closed, a receiver waits for nothing, or the `close` will find it. -/
structure Shut (c : Config θ ω V) : Prop where
  awake : Awake .recv c
  handles : handles.Holds () c
  shut : (c.shared.waiters .recv).closed = true →
    (∃ u, ((c.locals u).waits .recv).clears = true) ∨
      (Waiting .recv c → resource c.shared .recv = 0)

theorem Shut.step {c next : Config θ ω V} {label : θ × Label ω V} (shut : Shut c)
    (keeps : Keeps .recv c label) (stepped : step c label = some next) : Shut next := by
  have base := shut.awake.base
  refine ⟨shut.awake.step keeps (wakesCovered_recv base label) stepped,
    handles_step base.coherent shut.handles stepped,fun closed => ?_⟩
  rcases label with ⟨t,label⟩
  -- with nobody to send, what was not there before is not there now
  have stays (was : (c.shared.waiters .recv).closed = true)
      (zero : Waiting .recv c → resource c.shared .recv = 0)
      (waiting : Waiting .recv next) : resource next.shared .recv = 0 := by
    have zero : resource c.shared .recv = 0 := by
      rcases waiting.before (base.coherent t) stepped with waiting | blocks
      · exact zero waiting
      · exact resource_of_blocks base shut.awake.loaded keeps.blocks blocks
    obtain ⟨l',s',ran,rfl⟩ := Threads.step_eq_some.mp stepped
    have step := prog_step ran
    rcases step.claims (base.coherent t) with same | ⟨op,again,main,_,new⟩
    · rw [step.resource same,zero]
    · cases side : op.side with
      | send =>
        have uses : (c.locals t).main.uses = some .send := by rw [main,← side]; rfl
        exact absurd uses (nobody_sends shut.handles (shut.handles.1.closed was) t)
      | recv =>
        rw [side] at new
        rw [(step.resource_claim new).1,zero]
  rcases list_simulates .recv stepped with same | ⟨choice,list⟩
  · have before : (c.shared.waiters .recv).closed = true := by
      rw [show c.shared.waiters .recv = next.shared.waiters .recv from
        congrArg (·.shared) same.symm]
      exact closed
    rcases shut.shut before with ⟨u,clears⟩ | zero
    · refine .inl ⟨u,?_⟩
      rw [show (next.locals u).waits .recv = (c.locals u).waits .recv from congrArg (·.locals u) same]
      exact clears
    · exact .inr (stays before zero)
  · obtain ⟨a,lists⟩ := base.lists .recv
    rcases WaitList.clears_step lists list closed with ⟨was,nobody⟩ | clears | not
    · refine .inr (stays was ((shut.shut was).resolve_left ?_))
      rintro ⟨u,clears⟩
      exact absurd clears (by simp [show ((c.locals u).waits .recv).clears = false from nobody u])
    · exact .inl clears
    · exact .inr fun waiting => absurd waiting not

/-- In every run that loses no wake-up of the receivers, a quiescent state with a value in the
channel has no task parked in `rx_waiters`. -/
theorem receivers_wake {padding size : Nat} {slots : Nat × (Nat → Slot V)}
    {labels : List (θ × Label ω V)} {c : Config θ ω V}
    (created : createSlots V padding size = some slots) (two : 2 ≤ size)
    (path : Transition.Path step (Keeps .recv) (init slots) labels c) (quiescent : Quiescent c)
    (message : c.shared.queue.claims .recv < c.shared.queue.claims .send) (t : θ) (w : Waiter ω) :
    (c.locals t).waits .recv ≠ .parked w := by
  intro parked
  have shut := path.invariant Shut (fun _ _ _ shut keeps stepped => shut.step keeps stepped)
    ⟨init_awake .recv created two,init_handles slots,nofun⟩
  have base := shut.awake.base
  have ready : 0 < resource c.shared .recv := Nat.sub_pos_of_lt message
  have waiting : Waiting .recv c := by
    refine .inl ⟨w,quiescent.linked base parked,counts_of_recv base (t := t) ?_ ?_⟩
    · rw [parked]; rfl
    · rw [parked]; rfl
  cases closed : (c.shared.waiters .recv).closed with
  | false => exact quiescent.not_waiting shut.awake closed ready waiting
  | true =>
    rcases shut.shut closed with ⟨u,clears⟩ | zero
    · rcases quiescent.waits base.coherent u .recv with free | ⟨_,here,_⟩
      · cases at_ : (c.locals u).waits .recv <;> rw [at_] at free clears <;> contradiction
      · rw [here] at clears
        contradiction
    · exact absurd (zero waiting) (Nat.ne_of_gt ready)

/-- The conditions of `Keeps` and `WakesCovered`, without the wake-ups of others. -/
def keeps (side : Side) (c : Config θ ω V) (label : θ × Label ω V) : Bool :=
  claimsInTime c label &&
    (match label.2, (c.locals label.1).main with
    | .next, .wait _ (some (_,stamp)) => decide (limit c.shared side < stamp + 2 ^ 64)
    | .interrupted true, _ => false
    | _, _ => true) &&
    match (c.locals label.1).waits side, (c.shared.waiters side).list with
    | .popFront _, w :: _ => decide (w.purpose = .retry)
    | _, _ => true

omit [DecidableEq θ] [DecidableEq ω] in
theorem keeps_sound (side : Side) (c : Config θ ω V) (label : θ × Label ω V)
    (checked : keeps side c label = true) : Keeps side c label ∧ WakesCovered side c label := by
  simp only [keeps,Bool.and_eq_true] at checked
  obtain ⟨⟨claims,blocks⟩,wakes⟩ := checked
  refine ⟨⟨claimsInTime_sound c label claims,fun ⟨is,_⟩ op pos stamp main => ?_,fun ⟨is,_⟩ => ?_⟩,
    fun value w rest pops list other => ?_⟩
  · simpa [is,main] using blocks
  · simp [is] at blocks
  · simp only [pops,list,decide_eq_true_eq] at wakes
    exact absurd wakes other

/-- An attempt that fails, and the check of the closed flag. -/
def failAgain (t : Nat) : List (Nat × Label Nat Nat) := attempt t ++ [(t,.next)]

/-- The wait of a task that blocks. -/
def park (t id : Nat) : List (Nat × Label Nat Nat) :=
  [(t,.interrupted false),(t,.wait id),(t,.list (.interrupted false)),(t,.list .next),(t,.list .next),
    (t,.list .next),(t,.list .next),(t,.next),(t,.next),(t,.list .next),(t,.list .next)]

def claimSlot (t : Nat) : List (Nat × Label Nat Nat) :=
  attempt t ++ [(t,.queue (.exchange false)),(t,.next)]

/-- Steps in a list: a `wake_one` takes four if nobody waits and five otherwise, the return of a
completed wait two. -/
def listSteps (t n : Nat) : List (Nat × Label Nat Nat) := List.replicate n (t,.list .next)

def finish (t : Nat) : List (Nat × Label Nat Nat) := [(t,.queue .next),(t,.queue .next)]

theorem quiescent_of_run {labels : List (Nat × Label Nat Nat)} {c : Config Nat Nat Nat} (n : Nat)
    (executed : Transition.run step labels twoSlots = some c) (few : ∀ label ∈ labels, label.1 < n)
    (tasks : ∀ t < n, (c.locals t).main.isFree = true ∨ ∃ side w,
      (c.locals t).waits side = .parked w ∧ (c.shared.waiters side).resolutions w = []) :
    Quiescent c := by
  intro t
  by_cases lt : t < n
  · exact tasks t lt
  · left
    have other : ∀ label ∈ labels, label.1 ≠ t := by
      rintro label mem rfl
      exact lt (few label mem)
    rw [Threads.run_other executed other]
    rfl

/-- A receiver waits for a value, gets it, and a second value is sent. -/
def recvTrace : List (Nat × Label Nat Nat) :=
  (1,.call (.op .tryRecv true)) :: failAgain 1 ++ park 1 1 ++ (0,.call (.op (.trySend 7) false)) ::
    claimSlot 0 ++ listSteps 0 5 ++ finish 0 ++ listSteps 1 2 ++ claimSlot 1 ++ listSteps 1 4 ++
    finish 1 ++ trySend 0 8

theorem receivers_wake_value : ∃ c, Transition.run step recvTrace twoSlots = some c ∧
    c.shared.queue.claims .recv < c.shared.queue.claims .send ∧
    ∀ t w, (c.locals t).waits .recv ≠ .parked w := by
  obtain ⟨c,checked,executed,zero,one,send,recv⟩ : ∃ c, Transition.run
      (fun c l => if keeps .recv c l then step c l else none) recvTrace twoSlots = some c ∧
      Transition.run step recvTrace twoSlots = some c ∧ (c.locals 0).main.isFree = true ∧
      (c.locals 1).main.isFree = true ∧ c.shared.queue.claims .send = 2 ∧
      c.shared.queue.claims .recv = 1 := ⟨_,rfl,rfl,rfl,rfl,rfl,rfl⟩
  have quiescent : Quiescent c := quiescent_of_run 2 executed (by decide) fun t lt => by
    interval_cases t
    · exact .inl zero
    · exact .inl one
  have path := Transition.run_path_checked (keeps .recv)
    (fun c l ok => (keeps_sound .recv c l ok).1) checked
  exact ⟨c,executed,by omega,receivers_wake Queue.createSlots_two (Nat.le_refl 2) path quiescent
    (by omega)⟩

/-- A receiver is woken before the value is there, finds nothing and leaves on an interrupt. -/
def leaveTrace : List (Nat × Label Nat Nat) :=
  (1,.call (.op .tryRecv true)) :: failAgain 1 ++ park 1 1 ++ (2,.call (.op .tryRecv true)) ::
    failAgain 2 ++ park 2 2 ++ (0,.call (.op (.trySend 7) false)) :: claimSlot 0 ++ listSteps 0 5 ++
    listSteps 1 2 ++ failAgain 1 ++ (1,.interrupted true) :: finish 0

/-- The other receiver stays parked although the value is there. -/
theorem receivers_not_always_wake :
    ¬ ∀ (labels : List (Nat × Label Nat Nat)) (c : Config Nat Nat Nat),
      Transition.Path step Transition.anyStep twoSlots labels c → Quiescent c →
      c.shared.queue.claims .recv < c.shared.queue.claims .send →
      ∀ t w, (c.locals t).waits .recv ≠ .parked w := by
  intro always
  obtain ⟨c,executed,zero,one,parked,unresolved,send,recv⟩ : ∃ c,
      Transition.run step leaveTrace twoSlots = some c ∧ (c.locals 0).main.isFree = true ∧
      (c.locals 1).main.isFree = true ∧ (c.locals 2).waits .recv = .parked ⟨2,.retry⟩ ∧
      (c.shared.waiters .recv).resolutions ⟨2,.retry⟩ = [] ∧ c.shared.queue.claims .send = 1 ∧
      c.shared.queue.claims .recv = 0 := ⟨_,rfl,rfl,rfl,rfl,rfl,rfl,rfl⟩
  have quiescent : Quiescent c := quiescent_of_run 3 executed (by decide) fun t lt => by
    interval_cases t
    · exact .inl zero
    · exact .inl one
    · exact .inr ⟨.recv,_,parked,unresolved⟩
  exact always _ c (Transition.run_path (fun _ _ _ => trivial) executed) quiescent (by omega) 2 _ parked

/-- A sender waits for a slot, gets it, and a second slot becomes free. -/
def sendTrace : List (Nat × Label Nat Nat) :=
  trySend 0 7 ++ trySend 0 8 ++ (2,.call (.op (.trySend 9) true)) :: failAgain 2 ++ park 2 2 ++
    (1,.call (.op .tryRecv false)) :: claimSlot 1 ++ listSteps 1 5 ++ finish 1 ++ listSteps 2 2 ++
    claimSlot 2 ++ listSteps 2 4 ++ finish 2 ++ tryRecv 1

theorem senders_wake_slot : ∃ c, Transition.run step sendTrace twoSlots = some c ∧
    (c.shared.waiters .send).closed = false ∧
    c.shared.queue.claims .send < c.shared.queue.claims .recv + c.shared.queue.capacity ∧
    ∀ t, ¬ ParkedInSend (c.locals t) := by
  obtain ⟨c,checked,executed,zero,one,two,opened,send,recv,capacity⟩ : ∃ c, Transition.run
      (fun c l => if keeps .send c l then step c l else none) sendTrace twoSlots = some c ∧
      Transition.run step sendTrace twoSlots = some c ∧ (c.locals 0).main.isFree = true ∧
      (c.locals 1).main.isFree = true ∧ (c.locals 2).main.isFree = true ∧
      (c.shared.waiters .send).closed = false ∧ c.shared.queue.claims .send = 3 ∧
      c.shared.queue.claims .recv = 2 ∧ c.shared.queue.capacity = 2 :=
    ⟨_,rfl,rfl,rfl,rfl,rfl,rfl,rfl,rfl,rfl⟩
  have quiescent : Quiescent c := quiescent_of_run 3 executed (by decide) fun t lt => by
    interval_cases t
    · exact .inl zero
    · exact .inl one
    · exact .inl two
  have path := Transition.run_path_checked (keeps .send) (keeps_sound .send) checked
  exact ⟨c,executed,opened,by omega,senders_wake Queue.createSlots_two (Nat.le_refl 2) path quiescent
    opened (by omega)⟩

/-- `Sender::closed` waits in the list of the senders, before a `send`. Its wake-up is the only
one that the receive gives. -/
def consumeTrace : List (Nat × Label Nat Nat) :=
  (0,.call (.clone .send)) :: trySend 0 7 ++ trySend 0 8 ++ (1,.call .closed) :: (1,.wait 1) ::
    (1,.list (.interrupted false)) :: listSteps 1 7 ++ (2,.call (.op (.trySend 9) true)) ::
    failAgain 2 ++ park 2 2 ++ (3,.call (.op .tryRecv false)) :: claimSlot 3 ++ listSteps 3 5 ++
    finish 3 ++ listSteps 1 2 ++ (1,.wait 3) :: (1,.list (.interrupted false)) :: listSteps 1 7

/-- The sender stays parked although a slot is free. -/
theorem senders_not_always_wake :
    ¬ ∀ (labels : List (Nat × Label Nat Nat)) (c : Config Nat Nat Nat),
      Transition.Path step Transition.anyStep twoSlots labels c → Quiescent c →
      (c.shared.waiters .send).closed = false →
      c.shared.queue.claims .send < c.shared.queue.claims .recv + c.shared.queue.capacity →
      ∀ t, ¬ ParkedInSend (c.locals t) := by
  intro always
  obtain ⟨c,executed,zero,closed,unresolved',main,parked,unresolved,three,opened,send,recv,capacity⟩ :
      ∃ c, Transition.run step consumeTrace twoSlots = some c ∧ (c.locals 0).main.isFree = true ∧
      (c.locals 1).waits .send = .parked ⟨3,.closed⟩ ∧
      (c.shared.waiters .send).resolutions ⟨3,.closed⟩ = [] ∧
      (c.locals 2).main = .wait (.trySend 9) none ∧ (c.locals 2).waits .send = .parked ⟨2,.retry⟩ ∧
      (c.shared.waiters .send).resolutions ⟨2,.retry⟩ = [] ∧ (c.locals 3).main.isFree = true ∧
      (c.shared.waiters .send).closed = false ∧ c.shared.queue.claims .send = 2 ∧
      c.shared.queue.claims .recv = 1 ∧ c.shared.queue.capacity = 2 :=
    ⟨_,rfl,rfl,rfl,rfl,rfl,rfl,rfl,rfl,rfl,rfl,rfl,rfl⟩
  have quiescent : Quiescent c := quiescent_of_run 4 executed (by decide) fun t lt => by
    interval_cases t
    · exact .inl zero
    · exact .inr ⟨.send,_,closed,unresolved'⟩
    · exact .inr ⟨.send,_,parked,unresolved⟩
    · exact .inl three
  exact always _ c (Transition.run_path (fun _ _ _ => trivial) executed) quiescent opened (by omega) 2
    ⟨_,_,_,main,parked⟩

end XxCore.Sync.MCChannel
