import XxCore.Sync.Channel.ChannelHandles

/-! Wake-ups of senders and receivers. On each side the tasks that wait for a slot are matched
with the tasks that owe a wake-up: as long as one waits, as many are owed as slots are ready. -/
namespace XxCore.Sync.MCChannel

variable {θ ω V : Type}

/-- What the tasks of a side wait for: values for a receiver, free slots for a sender. -/
def resource (s : MCChannel θ ω V) : Side → Nat
  | .recv => s.queue.claims .send - s.queue.claims .recv
  | .send => s.queue.claims .recv + s.queue.capacity - s.queue.claims .send

/-- A waiter of `send_wait` or `recv_wait`. -/
def Counts (w : Waiter ω) : Prop := w.purpose = .retry

/-- The task has claimed a slot and is to call `wake_one`, or it was woken and tries again. -/
def Bound (side : Side) (l : Local ω V) : Prop :=
  (∃ op again, l.main = .startWake op again ∧ op.side.other = side) ∨
    (l.woken = true ∧ l.main.retries = some side)

/-- The task owes a wake-up to the side: one that it is to give, or one that it was given. -/
def Owes (side : Side) (s : MCChannel θ ω V) (l : Local ω V) : Prop :=
  Bound side l ∨ (l.waits side).delivers Counts ∨
    WaitList.Woken Counts (s.waiters side) (l.waits side)

/-- The side to which a task at this point may owe a wake-up. -/
def Main.owing : Main V → Option Side
  | .startWake op _ | .wake op _ => some op.side.other
  | main => main.retries

/-- `should_block` is about to return `true`. -/
def Blocks (side : Side) (s : MCChannel θ ω V) (l : Local ω V) (label : Label ω V) : Prop :=
  label = .next ∧ ∃ op pos stamp, l.main = .wait op (some (pos,stamp)) ∧ op.side = side ∧
    s.remaining side pos = 0

/-- A task that was woken is about to leave on an interrupt. -/
def Leaves (side : Side) (l : Local ω V) (label : Label ω V) : Prop :=
  label = .interrupted true ∧ ∃ op, l.main = .isInterrupted op ∧ op.side = side ∧ l.woken = true

/-- The steps at which a task may stop to owe a wake-up to an open side. -/
inductive Spends (side : Side) (s : MCChannel θ ω V) (l : Local ω V) (label : Label ω V) : Prop where
  | wake (op : Op V) (again : Bool) (main : l.main = .wake op again) (at_ : op.side.other = side)
  | blocks (blocks : Blocks side s l label)
  | leaves (leaves : Leaves side l label)
  | closed (closed : (s.waiters side).closed = true)

theorem Main.of_wakeOne {main : Main V} {side : Side} (list : main.list side = some .wakeOne) :
    ∃ op again, main = .wake op again ∧ op.side.other = side := by
  cases main with
  | wake op again =>
    simp only [Main.list,Option.ite_none_right_eq_some] at list
    exact ⟨op,again,rfl,list.1.symm⟩
  | _ => simp [Main.list] at list

theorem Main.of_wait {main : Main V} {side : Side} (list : main.list side = some .wait) :
    (∃ op first, main = .wait op first ∧ op.side = side) ∨ (main = .sendClosed ∧ side = .send) := by
  cases main with
  | wait op first =>
    simp only [Main.list,Option.ite_none_right_eq_some] at list
    exact .inl ⟨op,first,rfl,list.1.symm⟩
  | sendClosed =>
    simp only [Main.list,Option.ite_none_right_eq_some] at list
    exact .inr ⟨rfl,list.1⟩
  | _ => simp [Main.list] at list

/-- A task in a call of a list owes nothing that it is to give. -/
theorem not_bound_of_pends {l : Local ω V} (coherent : Coherent l) {side at_ : Side} {w : Waiter ω}
    (pends : (l.waits at_).pends = some w) : ¬ Bound side l := by
  rintro (⟨op,again,main,_⟩ | ⟨woken,_⟩)
  · have free : l.main.list at_ = none := by rw [main]; rfl
    have waiter := (coherent.idle free).1
    rw [WaitList.waiter_of_pends pends] at waiter
    contradiction
  · have running := (coherent.woken woken).2 at_
    rw [WaitList.blocks_of_pends pends] at running
    contradiction

theorem Owes.bound {l : Local ω V} {s : MCChannel θ ω V} (coherent : Coherent l) {side : Side}
    (owes : Owes side s l) (free : l.main.list side = none) : Bound side l := by
  have lists := (coherent.lists side).trans free
  rcases owes with bound | delivers | ⟨w,_,pends,_⟩
  · exact bound
  · rw [WaitList.family_of_delivers delivers] at lists
    contradiction
  · have waiter := WaitList.waiter_of_family lists
    rw [WaitList.waiter_of_pends pends] at waiter
    contradiction

theorem Bound.keeps {l l' : Local ω V} {side : Side} (bound : Bound side l)
    (running : ∀ op again, l.main ≠ .startWake op again) (woken : l'.woken = l.woken)
    (retries : l'.main.retries = l.main.retries) : Bound side l' := by
  rcases bound with ⟨op,again,main,_⟩ | ⟨was,tries⟩
  · exact absurd main (running op again)
  · exact .inr ⟨woken.trans was,retries.trans tries⟩

theorem owes_main {l : Local ω V} {s : MCChannel θ ω V} {side : Side} (coherent : Coherent l)
    (owes : Owes side s l) : l.main.owing = some side := by
  have lists := coherent.lists side
  rcases owes with (⟨op,again,main,at_⟩ | ⟨_,retries⟩) | delivers | ⟨w,_,pends,count,_⟩
  · rw [main]
    exact congrArg some at_
  · cases main : l.main <;> rw [main] at retries <;> first | exact retries | contradiction
  · rw [WaitList.family_of_delivers delivers] at lists
    obtain ⟨op,again,main,at_⟩ := Main.of_wakeOne lists.symm
    rw [main]
    exact congrArg some at_
  · have purpose := coherent.purpose side w (WaitList.waiter_of_pends pends)
    rw [WaitList.family_of_pends pends] at lists
    rcases Main.of_wait lists.symm with ⟨op,first,main,at_⟩ | ⟨main,_⟩
    · rw [main]
      exact congrArg some at_
    · rw [main] at purpose
      exact absurd (purpose.symm.trans count) nofun

def Waiting (side : Side) (c : Config θ ω V) : Prop := WaitList.Waiting Counts (listOf side c)

/-- The tasks other than those in `without` owe a wake-up for everything there is to wait for. -/
def Covered (side : Side) (c : Config θ ω V) (without : θ → Prop) : Prop :=
  ∃ S : Finset θ, (∀ u ∈ S, Owes side c.shared (c.locals u) ∧ ¬ without u) ∧
    resource c.shared side ≤ S.card

/-- No task that was woken leaves on an interrupt without a slot, while another one waits, unless
the wake-ups that others owe are enough. -/
def LeavesCovered (side : Side) (c : Config θ ω V) (label : θ × Label ω V) : Prop :=
  Leaves side (c.locals label.1) label.2 → (c.shared.waiters side).closed = false →
    Waiting side c → Covered side c (· = label.1)

/-- No `wake_one` takes a waiter of `send_closed` off the list, while a task waits that can use
the wake-up, unless the wake-ups that others owe are enough. -/
def WakesCovered (side : Side) (c : Config θ ω V) (label : θ × Label ω V) : Prop :=
  ∀ value w rest, (c.locals label.1).waits side = .popFront value →
    (c.shared.waiters side).list = w :: rest → ¬ Counts w →
    (c.shared.waiters side).closed = false → Waiting side c → Covered side c (· = label.1)

/-- The number of claims that the counter of a side cannot pass. -/
def limit (s : MCChannel θ ω V) : Side → Nat
  | .recv => s.queue.claims .send
  | .send => s.queue.claims .recv + s.queue.capacity

/-- No task takes the channel for empty or full because `2 ^ 64` claims lie between the two loads
of `len` or `spare_capacity`. -/
def BlocksInTime (side : Side) (c : Config θ ω V) (label : θ × Label ω V) : Prop :=
  Blocks side c.shared (c.locals label.1) label.2 → ∀ op pos stamp,
    (c.locals label.1).main = .wait op (some (pos,stamp)) → limit c.shared side < stamp + 2 ^ 64

/-- The counter that `should_block` has loaded was that of the queue. -/
def Loaded (c : Config θ ω V) : Prop :=
  ∀ t op pos stamp, (c.locals t).main = .wait op (some (pos,stamp)) →
    pos = BitVec.ofNat 64 stamp ∧ stamp ≤ c.shared.queue.claims op.side

/-- `should_block` returns `true` in time only if there is nothing to wait for. -/
theorem resource_of_blocks {c : Config θ ω V} {t : θ} {label : Label ω V} {side : Side}
    (base : Base c) (loaded : Loaded c) (inTime : BlocksInTime side c (t,label))
    (blocks : Blocks side c.shared (c.locals t) label) : resource c.shared side = 0 := by
  obtain ⟨r,holds⟩ := base.queue
  have shared : Queue.SharedInv r c.shared.queue := holds.1
  have le := shared.valid.le
  have bound := shared.valid.bound
  have send : r.tail = c.shared.queue.claims .send := shared.next .send
  have recv : r.head = c.shared.queue.claims .recv := shared.next .recv
  have size := shared.size
  have inTime := inTime blocks
  obtain ⟨_,op,pos,stamp,main,rfl,zero⟩ := blocks
  have inTime := inTime op pos stamp main
  obtain ⟨rfl,stamped⟩ := loaded t op pos stamp main
  cases op with
  | tryRecv =>
    simp only [remaining,resource,limit,Queue.Op.side,shared.counter] at zero inTime stamped ⊢
    have same := (Word.sub_eq_zero (by omega) (by omega)).mp zero
    omega
  | trySend value =>
    simp only [remaining,resource,limit,Queue.Op.side,shared.counter,← BitVec.ofNat_add] at zero inTime stamped ⊢
    have same := (Word.sub_eq_zero (by omega) (by omega)).mp zero
    omega

variable [DecidableEq θ] [DecidableEq ω]

/-- A step of another task takes nothing from what a task owes. -/
theorem Step.owes_other {t : θ} {label : Label ω V} {l l' k : Local ω V} {s s' : MCChannel θ ω V}
    (step : Step t l s label l' s') {side : Side} (owes : Owes side s k) : Owes side s' k := by
  refine owes.imp_right fun owes => owes.imp_right fun woken => ?_
  rcases step.listStep side with ⟨_,same⟩ | ⟨choice,ran⟩
  · rw [same]; exact woken
  · exact woken.mono (WaitList.prog_step ran).resolutions

/-- A task owes what it owed, unless the step is one that spends a wake-up. -/
theorem Step.owes {t : θ} {label : Label ω V} {l l' : Local ω V} {s s' : MCChannel θ ω V}
    (step : Step t l s label l' s') (coherent : Coherent l) {side : Side}
    (once : ∀ w, ((s.waiters side).resolutions w).length ≤ 1) (owes : Owes side s l)
    (same : s'.queue.claims = s.queue.claims) : Owes side s' l' ∨ Spends side s l label := by
  have at_ := owes_main coherent owes
  have bound := owes.bound coherent
  cases step with
  | op free | callClosed free | callClose free | clone free | drop free | callCancel free =>
    cases main : l.main <;> rw [main] at at_ free <;> contradiction
  | beginClosed main send closed | failClosed main closed =>
    rw [main] at at_
    simp only [Main.owing,Main.retries,Option.ite_none_right_eq_some,Option.some.injEq] at at_
    obtain ⟨_,rfl⟩ := at_
    exact .inr (.closed closed)
  | begin main | reject main | failAgain main | uninterrupted main | snooze main =>
    refine .inl (.inl ((bound (by rw [main]; rfl)).keeps (by simp [main]) rfl ?_))
    rw [main]
    rfl
  | search => exact .inl owes
  | claim main ran claimed =>
    have queue := coherent.queue
    rw [main] at queue
    exact absurd same ((Queue.prog_step ran).claimed queue claimed)
  | @startWake op _ pc _ main ran =>
    rw [main] at at_
    obtain rfl := Option.some.inj at_
    generalize l.waits op.side.other = before at ran
    obtain rfl : pc = .loadEmpty () := by cases WaitList.prog_step ran; rfl
    exact .inl (.inr (.inl (by simp [Local.goto,WaitList.Pc.delivers])))
  | wake main =>
    rw [main] at at_
    exact .inr (.wake _ _ main (Option.some.inj at_))
  | fail main =>
    rw [main] at at_
    contradiction
  | interrupted main =>
    rw [main] at at_
    rcases bound (by rw [main]; rfl) with ⟨_,_,main',_⟩ | ⟨woken,_⟩
    · cases main.symm.trans main'
    · exact .inr (.leaves ⟨rfl,_,main,Option.some.inj at_,woken⟩)
  | startWait main =>
    refine .inl (.inl ((bound (by rw [main]; rfl)).keeps (by simp [main]) rfl ?_))
    rw [main]
    rfl
  | @wait op first _ pc _ main ran quiet blocked =>
    have lists := coherent.lists side
    rw [main] at at_ lists
    obtain rfl := Option.some.inj at_
    rcases owes with bound | delivers | woken
    · refine .inl (.inl (bound.keeps (by simp [main]) rfl ?_))
      rw [main]
      cases done : isReturned pc <;> simp [Local.goto,Main.retries]
    · rw [WaitList.family_of_delivers delivers] at lists
      simp [Main.list] at lists
    · rcases (WaitList.prog_step ran).woken once woken with woken | ⟨w,value,parked,rfl⟩
      · exact .inl (.inr (.inr (by simpa [Local.goto,setList] using woken)))
      · exact absurd rfl (blocked w parked value)
  | resume main =>
    rw [main] at at_
    exact .inl (.inl (.inr ⟨rfl,(congrArg Main.retries main).trans at_⟩))
  | loadFirst main =>
    refine .inl (owes.imp_left fun bound => bound.keeps (by simp [main]) rfl ?_)
    rw [main]
    rfl
  | block main here zero =>
    rw [main] at at_
    exact .inr (.blocks ⟨rfl,_,_,_,main,Option.some.inj at_,Option.some.inj at_ ▸ zero⟩)
  | noBlock main here =>
    rw [main] at at_
    obtain rfl := Option.some.inj at_
    rcases owes with bound | delivers | ⟨w,_,pends,_⟩
    · refine .inl (.inl (bound.keeps (by simp [main]) rfl ?_))
      rw [main]
      rfl
    · rw [here] at delivers
      contradiction
    · rw [here] at pends
      contradiction
  | access main | finish main | isClosed main | sendClosed main | sendClosedBlock main
  | sendClosedWait main | sendClosedCancelled main | startClose main =>
    rw [main] at at_
    contradiction
  | close main | closed main =>
    rcases main with main | main
    all_goals
      rw [main] at at_
      contradiction

theorem Step.capacity {t : θ} {label : Label ω V} {l l' : Local ω V} {s s' : MCChannel θ ω V}
    (step : Step t l s label l' s') : s'.queue.capacity = s.queue.capacity := by
  rcases step.queueStep with ⟨_,same⟩ | ⟨choice,_,ran⟩
  · rw [same]
  · exact (Queue.prog_step ran).capacity

theorem Step.resource {t : θ} {label : Label ω V} {l l' : Local ω V} {s s' : MCChannel θ ω V}
    (step : Step t l s label l' s') (same : s'.queue.claims = s.queue.claims) (side : Side) :
    resource s' side = resource s side := by
  cases side <;> simp only [MCChannel.resource,same,step.capacity]

/-- A claim takes one of what its own side waits for, and gives the other side one. -/
theorem Step.resource_claim {t : θ} {label : Label ω V} {l l' : Local ω V} {s s' : MCChannel θ ω V}
    (step : Step t l s label l' s') {side : Side} (new : s'.queue.claims =
      Function.update s.queue.claims side (s.queue.claims side + 1)) :
    MCChannel.resource s' side = MCChannel.resource s side - 1 ∧
      MCChannel.resource s' side.other ≤ MCChannel.resource s side.other + 1 := by
  cases side
  all_goals
    simp only [MCChannel.resource,Side.other,new,step.capacity,Function.update_self,ne_eq,
      reduceCtorEq,not_false_eq_true,Function.update_of_ne]
    omega

/-- A step takes no claim back. -/
theorem Step.claims_le {t : θ} {label : Label ω V} {l l' : Local ω V} {s s' : MCChannel θ ω V}
    (step : Step t l s label l' s') (coherent : Coherent l) (side : Side) :
    s.queue.claims side ≤ s'.queue.claims side := by
  rcases step.claims coherent with same | ⟨op,_,_,_,new⟩
  · rw [same]
  · rw [new]
    by_cases at_ : side = op.side
    · subst at_; simp
    · simp [at_]

theorem Loaded.step {c next : Config θ ω V} {label : θ × Label ω V} (base : Base c)
    (loaded : Loaded c) (stepped : step c label = some next) : Loaded next := by
  rcases label with ⟨t,label⟩
  obtain ⟨l',s',ran,rfl⟩ := Threads.step_eq_some.mp stepped
  have step := prog_step ran
  have old {u op pos stamp} (main : (c.locals u).main = .wait op (some (pos,stamp))) :
      pos = BitVec.ofNat 64 stamp ∧ stamp ≤ s'.queue.claims op.side :=
    (loaded u op pos stamp main).imp_right fun le =>
      Nat.le_trans le (step.claims_le (base.coherent t) op.side)
  intro u op pos stamp main
  by_cases same : u = t
  · subst same
    simp only [Function.update_self] at main
    cases step with
    | search | access | resume | sendClosedBlock | close => exact old main
    | loadFirst =>
      obtain ⟨rfl,eq⟩ := Main.wait.inj main
      obtain ⟨rfl,rfl⟩ := Prod.mk.inj (Option.some.inj eq)
      obtain ⟨r,holds⟩ := base.queue
      have shared : Queue.SharedInv r c.shared.queue := holds.1
      exact ⟨shared.counter _,Nat.le_refl _⟩
    | wait before =>
      simp only [Local.goto] at main
      split at main
      · contradiction
      · exact old (before.trans main)
    | drop | wake | sendClosedWait =>
      simp only [Local.goto] at main
      split at main <;> contradiction
    | startWait | block | noBlock => cases (Main.wait.inj main).2
    | _ => contradiction
  · exact old (by simpa [same] using main)

/-- What is known of the waiting tasks of a side in every state. -/
structure Awake (side : Side) (c : Config θ ω V) : Prop where
  base : Base c
  loaded : Loaded c
  covered : (c.shared.waiters side).closed = false → Waiting side c → Covered side c fun _ => False

/-- The steps that lose no wake-up of the side, as long as each finds a waiter that can use it. -/
structure Keeps (side : Side) (c : Config θ ω V) (label : θ × Label ω V) : Prop where
  claims : ClaimsInTime c label
  blocks : BlocksInTime side c label
  leaves : LeavesCovered side c label

theorem Step.appends {t : θ} {label : Label ω V} {l l' : Local ω V} {s s' : MCChannel θ ω V}
    (step : Step t l s label l' s') (coherent : Coherent l) {side : Side} {w : Waiter ω}
    (at_ : l.waits side = .shouldBlock w) (appends : l'.waits side = .append w) (counts : Counts w) :
    Blocks side s l label := by
  have lists := coherent.lists side
  have purpose := coherent.purpose side w (by rw [at_]; rfl)
  rw [at_] at lists
  rcases Main.of_wait lists.symm with ⟨op,first,here,rfl⟩ | ⟨here,_⟩
  · cases step with
    | block main _ zero =>
      obtain ⟨rfl,rfl⟩ := Main.wait.inj (here.symm.trans main)
      exact ⟨rfl,_,_,_,main,rfl,zero⟩
    | wait main _ quiet =>
      obtain ⟨rfl,_⟩ := Main.wait.inj (here.symm.trans main)
      exact absurd at_ (quiet w)
    | resume main parked =>
      obtain ⟨rfl,_⟩ := Main.wait.inj (here.symm.trans main)
      cases parked.symm.trans at_
    | loadFirst => cases at_.symm.trans appends
    | noBlock main =>
      obtain ⟨rfl,_⟩ := Main.wait.inj (here.symm.trans main)
      simp [Local.goto] at appends
    | op free | callClosed free | callClose free | clone free | drop free | callCancel free =>
      rw [here] at free
      contradiction
    | close main | closed main =>
      rcases main with main | main <;> cases here.symm.trans main
    | beginClosed main | begin main | search main | claim main | reject main | startWake main
    | wake main | access main | finish main | failClosed main | fail main | failAgain main
    | interrupted main | uninterrupted main | snooze main | startWait main | isClosed main
    | sendClosed main | sendClosedBlock main | sendClosedWait main | sendClosedCancelled main
    | startClose main => cases here.symm.trans main
  · rw [here] at purpose
    cases purpose.symm.trans counts

/-- Nobody starts to wait but through `should_block`. -/
theorem Waiting.before {side : Side} {c next : Config θ ω V} {t : θ} {label : Label ω V}
    (waiting : Waiting side next) (coherent : Coherent (c.locals t))
    (stepped : step c (t,label) = some next) :
    Waiting side c ∨ Blocks side c.shared (c.locals t) label := by
  rcases list_simulates side stepped with same | ⟨choice,list⟩
  · rw [Waiting,same] at waiting
    exact .inl waiting
  · by_cases blocks : Blocks side c.shared (c.locals t) label
    · exact .inr blocks
    · refine .inl (WaitList.Waiting.before waiting list fun w at_ counts => blocks ?_)
      obtain ⟨pc,list',ran,eq⟩ := Threads.step_eq_some.mp list
      obtain ⟨l',s',ran',rfl⟩ := Threads.step_eq_some.mp stepped
      obtain rfl : l'.waits side = pc := by simpa [listOf] using congrArg (·.locals t) eq
      have appends : l'.waits side = .append w := by simpa [listOf] using at_
      rw [appends] at ran
      exact (prog_step ran').appends coherent (WaitList.prog_step ran).appends appends counts

/-- A step at which its task goes on owing what it owed. -/
theorem Covered.keep {side : Side} {c : Config θ ω V} {t : θ} {label : Label ω V} {l' : Local ω V}
    {s' : MCChannel θ ω V} (step : Step t (c.locals t) c.shared label l' s') {S : Finset θ}
    (owing : ∀ u ∈ S, u ≠ t → Owes side c.shared (c.locals u))
    (own : t ∈ S → Owes side s' l') (le : resource s' side ≤ S.card) :
    Covered side ⟨s',Function.update c.locals t l'⟩ fun _ => False := by
  refine ⟨S,fun u mem => ⟨?_,id⟩,le⟩
  by_cases same : u = t
  · subst same
    simpa using own mem
  · simpa [same] using step.owes_other (owing u mem same)

/-- A `wake_one` keeps the account: it finds a waiter for the wake-up that it is to give, or
nobody waits. -/
theorem Covered.wake {side : Side} {c next : Config θ ω V} {t : θ} {label : Label ω V} {op : Op V}
    {again : Bool} (base : Base c) (main : (c.locals t).main = .wake op again)
    (at_ : op.side.other = side) (wakes : WakesCovered side c (t,label))
    (covered : Covered side c fun _ => False) (opened : (c.shared.waiters side).closed = false)
    (waiting : Waiting side c) (waiting' : Waiting side next)
    (stepped : step c (t,label) = some next)
    (le : resource next.shared side ≤ resource c.shared side) :
    Covered side next fun _ => False := by
  have unbound : ¬ Bound side (c.locals t) := by
    rintro (⟨_,_,main',_⟩ | ⟨_,retries⟩)
    · exact absurd (main.symm.trans main') nofun
    · rw [main] at retries
      contradiction
  have family : ((c.locals t).waits side).family = some .wakeOne := by
    rw [(base.coherent t).lists,main,Main.list,if_pos at_.symm]
  obtain ⟨S,owing,enough,pops⟩ : ∃ S : Finset θ, (∀ u ∈ S, Owes side c.shared (c.locals u)) ∧
      resource c.shared side ≤ S.card ∧ ∀ value w rest, (c.locals t).waits side = .popFront value →
        (c.shared.waiters side).list = w :: rest → ¬ Counts w → t ∉ S := by
    by_cases wasted : ∃ value w rest, (c.locals t).waits side = .popFront value ∧
        (c.shared.waiters side).list = w :: rest ∧ ¬ Counts w
    · obtain ⟨value,w,rest,pops,list,other⟩ := wasted
      obtain ⟨S,owing,enough⟩ := wakes value w rest pops list other opened waiting
      exact ⟨S,fun u mem => (owing u mem).1,enough,fun _ _ _ _ _ _ mem => (owing t mem).2 rfl⟩
    · obtain ⟨S,owing,enough⟩ := covered
      exact ⟨S,fun u mem => (owing u mem).1,enough,fun value w rest pops list other =>
        absurd ⟨value,w,rest,pops,list,other⟩ wasted⟩
  have le := Nat.le_trans le enough
  rcases list_simulates side stepped with same | ⟨choice,list⟩
  · obtain ⟨l',s',ran,rfl⟩ := Threads.step_eq_some.mp stepped
    refine .keep (prog_step ran) (fun u mem _ => owing u mem) (fun mem => ?_) le
    have waits : l'.waits side = (c.locals t).waits side := by
      simpa [listOf] using congrArg (·.locals t) same
    have waiters : s'.waiters side = c.shared.waiters side := congrArg (·.shared) same
    refine .inr ?_
    rw [waits,waiters]
    exact (owing t mem).resolve_left unbound
  · obtain ⟨a,lists⟩ := base.lists side
    obtain ⟨S',owing',more⟩ := WaitList.owed_step (fun u => Bound side (c.locals u)) lists
      (base.pended side) (by simp [listOf,family])
      (fun w parked => by simp [show (c.locals t).waits side = _ from parked,WaitList.Pc.family] at family)
      pops (fun u w => not_bound_of_pends (base.coherent u)) owing list waiting'
    refine ⟨S',fun u mem => ⟨?_,id⟩,Nat.le_trans le more⟩
    rcases owing' u mem with bound | owes
    · have ne : u ≠ t := by
        rintro rfl
        exact unbound bound
      obtain ⟨l',s',_,rfl⟩ := Threads.step_eq_some.mp stepped
      exact .inl (by simpa [ne] using bound)
    · exact .inr owes

theorem Awake.step {side : Side} {c next : Config θ ω V} {label : θ × Label ω V}
    (awake : Awake side c) (keeps : Keeps side c label) (wakes : WakesCovered side c label)
    (stepped : step c label = some next) : Awake side next := by
  rcases label with ⟨t,label⟩
  refine ⟨awake.base.step keeps.claims stepped,awake.loaded.step awake.base stepped,
    fun opened waiting => ?_⟩
  have coherent := awake.base.coherent t
  have before := waiting.before coherent stepped
  obtain ⟨l',s',ran,rfl⟩ := Threads.step_eq_some.mp stepped
  have step := prog_step ran
  have open_ : (c.shared.waiters side).closed = false := by
    by_contra closed
    simp [step.stays_closed side (by simpa using closed)] at opened
  have once (w : Waiter ω) : ((c.shared.waiters side).resolutions w).length ≤ 1 := by
    obtain ⟨a,lists⟩ := awake.base.lists side
    exact lists.1.resolved_once w
  have nothing (blocks : Blocks side c.shared (c.locals t) label) :
      Covered side ⟨s',Function.update c.locals t l'⟩ fun _ => False := by
    refine .keep step (S := ∅) (by simp) (by simp) ?_
    rcases step.claims coherent with same | ⟨_,_,main,_⟩
    · rw [step.resource same,resource_of_blocks awake.base awake.loaded keeps.blocks blocks]
      exact Nat.zero_le _
    · obtain ⟨_,_,_,_,main',_⟩ := blocks
      exact absurd (main.symm.trans main') nofun
  rcases before with waited | blocks
  · have covered := awake.covered open_ waited
    have ⟨S,owing,le⟩ := covered
    rcases step.claims coherent with same | ⟨op,again,main,main',new⟩
    · have le' : resource s' side ≤ S.card := by rw [step.resource same]; exact le
      by_cases owes : Owes side c.shared (c.locals t)
      · rcases step.owes coherent once owes same with owes' | spends
        · exact .keep step (fun u mem _ => (owing u mem).1) (fun _ => owes') le'
        · cases spends with
          | wake op again main at_ =>
            exact .wake awake.base main at_ wakes covered open_ waited waiting stepped
              (Nat.le_of_eq (step.resource same side))
          | blocks blocks => exact nothing blocks
          | leaves leaves =>
            obtain ⟨S,owing,le⟩ := keeps.leaves leaves open_ waited
            refine .keep step (fun u mem _ => (owing u mem).1) (fun mem => ?_) ?_
            · exact absurd rfl (owing t mem).2
            · rw [step.resource same]
              exact le
          | closed closed => exact absurd closed (by simp [open_])
      · exact .keep step (fun u mem _ => (owing u mem).1) (fun mem => absurd (owing t mem).1 owes) le'
    · have ⟨own,other⟩ := step.resource_claim new
      by_cases at_ : op.side = side
      · -- the slot was one of those that were waited for
        subst at_
        refine .keep step (S := S.erase t) (fun u mem _ => (owing u (Finset.mem_of_mem_erase mem)).1)
          (fun mem => absurd rfl (Finset.ne_of_mem_erase mem)) ?_
        have := Finset.pred_card_le_card_erase (s := S) (a := t)
        omega
      · -- the task is to give a wake-up for what it has made ready
        obtain rfl : op.side.other = side := by
          cases here : op.side <;> cases side <;> simp_all [Side.other]
        have fresh : t ∉ S := fun mem => by
          have owing := owes_main coherent (owing t mem).1
          rw [main] at owing
          simp only [Main.owing,Main.retries,Option.ite_none_right_eq_some,Option.some.injEq] at owing
          exact at_ owing.2
        refine .keep step (S := insert t S)
          (fun u mem ne => (owing u (Finset.mem_of_mem_insert_of_ne mem ne)).1)
          (fun _ => .inl (.inl ⟨op,again,main',rfl⟩)) ?_
        rw [Finset.card_insert_of_notMem fresh]
        omega
  · exact nothing blocks

end XxCore.Sync.MCChannel
