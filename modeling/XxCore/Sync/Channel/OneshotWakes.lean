import XxCore.Sync.Channel.OneshotInvariant

/-! The waits of the oneshot channel. Every run of the channel is one of each of its two waiters,
and an end that is still parked when nothing moves any more has nothing to wake up for. -/
namespace XxCore.Sync

theorem AtomicWaiter.Step.suspended [DecidableEq ρ] {s s' : AtomicWaiter ρ α} {pc pc' : Pc ρ α}
    {label : Label ρ α} (step : Step s pc label pc' s') (r : ρ) (mem : r ∈ s.suspended) :
    r ∈ s'.suspended := by
  have finish (s : AtomicWaiter ρ α) (x : ρ) (error : Option WaitError) :
      (finish s x error).2.suspended = s.suspended := by
    cases error <;> rfl
  have afterCheck (s : AtomicWaiter ρ α) (x : ρ) (prev : ReqPtr ρ) (error : Option WaitError) :
      (afterCheck s x prev error).2.suspended = s.suspended := by
    cases prev <;> simp [AtomicWaiter.afterCheck,finish]
  cases step with
  | suspend => exact List.mem_cons_of_mem _ mem
  | block | missed => rw [afterCheck]; exact mem
  | takeBack => rw [afterCheck]; exact mem
  | replace => rw [finish]; exact mem
  | _ => exact mem

namespace Oneshot

variable {θ ρ V : Type}

/-- The waiter that an agent is in a call of. -/
def Main.side : Main ρ V → Option Side
  | .suspend side _ | .cancel side => some side
  | .close closing => some closing.side
  | _ => none

/-- The agent as a thread of the waiter of a side. -/
def Local.view (side : Side) (l : Local ρ V) : AtomicWaiter.Pc ρ Unit :=
  if l.main.side = some side then l.waiter else .idle

/-- The request that an end has passed to `suspend` and waits for. -/
def Main.awaits (side : Side) (request : ρ) (main : Main ρ V) : Prop :=
  main = .suspend side request ∨ main = .parked side request

theorem view_none {side : Side} {l : Local ρ V} (none : l.main.side = none) : l.view side = .idle := by
  simp [Local.view,none]

@[simp] theorem view_goto {side : Side} {main : Main ρ V} : (goto main).view side = .idle := by
  unfold goto Local.view
  split <;> rfl

/-- What a step of an agent does to the waiter of a side. -/
structure WaiterStep [DecidableEq ρ] (side : Side) (l l' : Local ρ V) (s s' : Oneshot ρ V) : Prop where
  steps : (∃ cancellable, s'.waiters side = { s.waiters side with cancellable }) ∧
      (l'.view side = l.view side ∨ (l.view side).isFree = true ∧ (l'.view side).isFree = true) ∨
    ∃ label pc, AtomicWaiter.Step (s.waiters side) (l.view side) label pc (s'.waiters side) ∧
      (l'.view side = pc ∨ pc.isFree = true ∧ (l'.view side).isFree = true)
  suspended : ∀ r ∈ (s.waiters side).suspended, r ∈ (s'.waiters side).suspended
  awaits : ∀ r, l'.main.awaits side r → l.main.awaits side r ∨ r ∈ (s'.waiters side).suspended

variable [DecidableEq ρ] {side : Side} {l l' : Local ρ V} {s s' : Oneshot ρ V}

/-- A step outside of the waiters. -/
theorem WaiterStep.still (waiters : s'.waiters = s.waiters) (before : l.main.side = none)
    (after : l'.main.side = none) (awaits : ∀ r, l'.main.awaits side r → l.main.awaits side r) :
    WaiterStep side l l' s s' where
  steps := .inl ⟨⟨(s.waiters side).cancellable,by rw [waiters]⟩,
    .inl (by rw [view_none before,view_none after])⟩
  suspended := fun r mem => by rw [waiters]; exact mem
  awaits := fun r now => .inl (awaits r now)

/-- A call of a waiter. -/
theorem WaiterStep.calls {at_ : Side} {call : AtomicWaiter.Call ρ Unit} {waiter : AtomicWaiter ρ Unit}
    (step : AtomicWaiter.Step (s.waiters at_) (l.view at_) (.call call) l'.waiter waiter)
    (free : ∀ side, (l.view side).isFree = true) (busy : l'.main.side = some at_)
    (waiters : s'.waiters = Function.update s.waiters at_ waiter)
    (awaits : ∀ r, l'.main.awaits side r → r ∈ (s'.waiters side).suspended) :
    WaiterStep side l l' s s' := by
  by_cases same : side = at_
  · subst same
    refine ⟨.inr ⟨.call call,l'.waiter,?_,.inl (by simp [Local.view,busy])⟩,fun r mem => ?_,
      fun r now => .inr (awaits r now)⟩
    · rw [waiters,Function.update_self]
      exact step
    · rw [waiters,Function.update_self]
      exact step.suspended r mem
  · have untouched : s'.waiters side = s.waiters side := by simp [waiters,same]
    refine ⟨.inl ⟨⟨(s.waiters side).cancellable,by rw [untouched]⟩,.inr ⟨free side,?_⟩⟩,fun r mem => ?_,
      fun r now => .inr (awaits r now)⟩
    · simp [Local.view,busy,Ne.symm same,AtomicWaiter.Pc.isFree]
    · rw [untouched]
      exact mem

/-- The start of a close. -/
theorem WaiterStep.begins (closing : Closing V) (waiters : s'.waiters = s.waiters)
    (free : ∀ side, (l.view side).isFree = true) : WaiterStep side l (startClose closing) s s' := by
  have step : AtomicWaiter.Step (s.waiters closing.side) (l.view closing.side) (.call (.close ()))
      (.load (.wake () true)) (s.waiters closing.side) := .callClose (free closing.side)
  refine .calls step free rfl ?_ ?_
  · rw [waiters,Function.update_eq_self]
  · rintro r (now | now) <;> contradiction

theorem free_of_none (none : l.main.side = none) (side : Side) : (l.view side).isFree = true := by
  rw [view_none none]
  rfl

theorem startSuspend_waiters {at_ : Side} {request : ρ} (before : l.main.side = none)
    (started : startSuspend s at_ request = some (l',s')) : WaiterStep side l l' s s' := by
  obtain ⟨p,begun,eq⟩ := Option.map_eq_some_iff.mp started
  obtain ⟨rfl,rfl⟩ := Prod.mk.inj eq
  rw [AtomicWaiter.start,Option.ite_none_left_eq_some] at begun
  obtain ⟨new,eq⟩ := begun
  obtain rfl := Option.some.inj eq
  refine .calls (.suspend (free_of_none before at_) new) (free_of_none before) rfl rfl ?_
  rintro r (now | now)
  · obtain ⟨rfl,rfl⟩ := Main.suspend.inj now
    simp [setWaiter]
  · contradiction

theorem startCancel_waiters {at_ : Side} {request : ρ} {p : AtomicWaiter.Pc ρ Unit × AtomicWaiter ρ Unit}
    (before : l.main.side = none)
    (begun : AtomicWaiter.start (s.waiters at_) (.cancel request) = some p) :
    WaiterStep side l ⟨.cancel at_,p.1⟩ s (s.setWaiter at_ p.2) := by
  rw [AtomicWaiter.start,Option.ite_none_right_eq_some] at begun
  obtain rfl := Option.some.inj begun.2
  refine .calls (.callCancel (free_of_none before at_)) (free_of_none before) rfl rfl ?_
  rintro r (now | now) <;> contradiction

/-- A step of a waiter, after which its call may be over and a close of the other begin. -/
theorem WaiterStep.runs {agent : Agent θ} {at_ : Side} {label : AtomicWaiter.Label ρ Unit}
    {middle : Local ρ V × Oneshot ρ V} (ran : runWaiter agent at_ label l s = some middle)
    (busy : l.main.side = some at_) (waiters : s'.waiters = middle.2.waiters)
    (own : l'.view at_ = middle.1.waiter ∨ middle.1.waiter.isFree = true ∧ (l'.view at_).isFree = true)
    (other : ∀ side, side ≠ at_ → (l'.view side).isFree = true ∨ l'.view side = .load (.wake () true))
    (awaits : ∀ r, l'.main.awaits side r → l.main.awaits side r) : WaiterStep side l l' s s' := by
  obtain ⟨main,changed,step⟩ : middle.1.main = l.main ∧ _ := runWaiter_step ran
  have view : l.view at_ = l.waiter := by simp [Local.view,busy]
  by_cases same : side = at_
  · subst same
    refine ⟨.inr ⟨label,middle.1.waiter,?_,own⟩,fun r mem => ?_,fun r now => .inl (awaits r now)⟩
    · rw [view,waiters]
      exact step
    · rw [waiters]
      exact step.suspended r mem
  · have untouched : s'.waiters side = s.waiters side := by
      rw [waiters,changed]
      simp [setWaiter,same]
    have free : (l.view side).isFree = true := by
      simp [Local.view,busy,Ne.symm same,AtomicWaiter.Pc.isFree]
    have kept : ∀ r ∈ (s.waiters side).suspended, r ∈ (s'.waiters side).suspended := by
      rw [untouched]
      exact fun _ => id
    rcases other side same with idle | starts
    · exact ⟨.inl ⟨⟨(s.waiters side).cancellable,by rw [untouched]⟩,.inr ⟨free,idle⟩⟩,kept,
        fun r now => .inl (awaits r now)⟩
    · refine ⟨.inr ⟨.call (.close ()),_,?_,.inl starts⟩,kept,fun r now => .inl (awaits r now)⟩
      rw [untouched]
      exact .callClose free

/-- A step inside of a call of a waiter. -/
theorem WaiterStep.continues {agent : Agent θ} {at_ : Side} {label : AtomicWaiter.Label ρ Unit}
    (ran : runWaiter agent at_ label l s = some (l',s')) (busy : l.main.side = some at_) :
    WaiterStep side l l' s s' := by
  have same := (runWaiter_step ran).1
  refine .runs ran busy rfl (.inl ?_) (fun side ne => .inl ?_) fun r now => ?_
  · simp [Local.view,same,busy]
  · simp [Local.view,same,busy,Ne.symm ne,AtomicWaiter.Pc.isFree]
  · rwa [same] at now

/-- The end of a call of a waiter. -/
theorem WaiterStep.returns {agent : Agent θ} {at_ : Side} {label : AtomicWaiter.Label ρ Unit}
    {middle : Local ρ V × Oneshot ρ V} {value : AtomicWaiter.Returned} {main : Main ρ V}
    (ran : runWaiter agent at_ label l s = some middle) (busy : l.main.side = some at_)
    (returned : middle.1.waiter = .returned value) (goes : l' = goto main) (after : s' = middle.2)
    (awaits : ∀ r, main.awaits side r → l.main.awaits side r) : WaiterStep side l l' s s' := by
  subst goes after
  refine .runs ran busy rfl (.inr ⟨by rw [returned]; rfl,by rw [view_goto]; rfl⟩) (fun side _ => .inl ?_)
    awaits
  rw [view_goto]
  rfl

theorem view_startClose (closing : Closing V) (side : Side) :
    ((startClose closing : Local ρ V).view side).isFree = true ∨
      (startClose closing : Local ρ V).view side = .load (.wake () true) := by
  by_cases same : closing.side = side
  · exact .inr (by simp [Local.view,startClose,Main.side,same])
  · exact .inl (by simp [Local.view,startClose,Main.side,same,AtomicWaiter.Pc.isFree])

/-- The end of a close, which may begin the close of the other waiter. -/
theorem WaiterStep.closed {agent : Agent θ} {closing : Closing V} {label : AtomicWaiter.Label ρ Unit}
    {middle : Local ρ V × Oneshot ρ V} (ran : runWaiter agent closing.side label l s = some middle)
    (main : l.main = .close closing) (free : middle.1.waiter.isFree = true) :
    WaiterStep side l (afterClose middle.2 closing).1 s (afterClose middle.2 closing).2 := by
  have busy : l.main.side = some closing.side := by rw [main]; rfl
  refine .runs ran busy ?_ (.inr ⟨free,?_⟩) ?_ ?_
  · cases closing <;> rfl
  · cases closing <;> first | (rw [afterClose,view_goto]; rfl) | rfl
  · intro side _
    cases closing with
    | closeTx | dropTx => exact view_startClose ..
    | _ => exact .inl (by rw [afterClose,view_goto]; rfl)
  · cases closing <;> rintro r (now | now) <;> contradiction

theorem afterSome_waiters {consumer : Consumer} {value : V} (waiters : s'.waiters = s.waiters)
    (before : l.main.side = none) :
    WaiterStep side l (afterSome s' value consumer).1 s (afterSome s' value consumer).2 := by
  cases consumer with
  | drop => exact .still waiters before rfl (by rintro r (now | now) <;> contradiction)
  | tryRecv | send => exact .begins _ waiters (free_of_none before)

theorem afterLoad_waiters {check : Check} {closed : Bool} (before : l.main.side = none) :
    WaiterStep side l (afterLoad s closed check).1 s (afterLoad s closed check).2 := by
  cases check with
  | send =>
    cases closed with
    | false => exact .begins _ rfl (free_of_none before)
    | true => exact .still rfl before rfl (by rintro r (now | now) <;> contradiction)
  | tryRecv | isClosed => exact .still rfl before rfl (by rintro r (now | now) <;> contradiction)

theorem start_waiters {agent : Agent θ} {call : Call ρ V} (before : l.main.side = none)
    (started : start s agent call = some (l',s')) : WaiterStep side l l' s s' := by
  unfold start at started
  split at started
  case h_3 request => exact startSuspend_waiters before started
  case h_10 at_ request =>
    obtain ⟨p,begun,eq⟩ := Option.map_eq_some_iff.mp started
    obtain ⟨rfl,rfl⟩ := Prod.mk.inj eq
    exact startCancel_waiters before begun
  case h_11 => contradiction
  all_goals obtain ⟨rfl,rfl⟩ := Prod.mk.inj (Option.some.inj started)
  all_goals first
    | exact .begins _ rfl (free_of_none before)
    | exact .still rfl before rfl (by rintro r (now | now) <;> contradiction)

theorem prog_waiters {agent : Agent θ} {label : Label ρ V}
    (ran : prog agent label l s = some (l',s')) (side : Side) : WaiterStep side l l' s s' := by
  unfold prog at ran
  split at ran
  case h_1 call main => exact start_waiters (by rw [main]; rfl) ran
  case h_2 at_ main =>
    obtain ⟨rfl,rfl⟩ := Prod.mk.inj (Option.some.inj ran)
    refine .still rfl (by rw [main]; rfl) (by cases at_ <;> rfl) ?_
    cases at_ <;> rintro r (now | now) <;> contradiction
  case h_3 at_ request main => exact startSuspend_waiters (by rw [main]; rfl) ran
  case h_5 at_ request label _ main =>
    obtain ⟨p,moved,eq⟩ := Option.map_eq_some_iff.mp ran
    have busy : l.main.side = some at_ := by rw [main]; rfl
    split at eq
    · rename_i returned
      obtain ⟨rfl,rfl⟩ := Prod.mk.inj eq
      refine .returns moved busy returned rfl rfl fun r now => ?_
      rcases now with now | now
      · contradiction
      · obtain ⟨rfl,rfl⟩ := Main.parked.inj now
        exact .inl main
    · rename_i returned
      obtain ⟨rfl,rfl⟩ := Prod.mk.inj eq
      refine .returns moved busy returned rfl rfl ?_
      cases at_ <;> rintro r (now | now) <;> contradiction
    · obtain rfl : p = (l',s') := eq
      exact .continues moved busy
  case h_6 at_ request main =>
    rw [Option.ite_none_left_eq_some] at ran
    obtain ⟨rfl,rfl⟩ := Prod.mk.inj (Option.some.inj ran.2)
    have before : l.main.side = none := by rw [main]; rfl
    refine ⟨.inl ⟨?_,.inl (by rw [view_none before,view_goto])⟩,fun r mem => ?_,?_⟩
    · by_cases same : side = at_
      · subst same
        exact ⟨(s.waiters side).cancellable.erase request,by simp [setWaiter]⟩
      · exact ⟨(s.waiters side).cancellable,by simp [setWaiter,same]⟩
    · by_cases same : side = at_
      · subst same
        simpa [setWaiter] using mem
      · simpa [setWaiter,same] using mem
    · cases at_ <;> rintro r (now | now) <;> contradiction
  case h_7 at_ label main =>
    obtain ⟨p,moved,eq⟩ := Option.map_eq_some_iff.mp ran
    have busy : l.main.side = some at_ := by rw [main]; rfl
    split at eq
    · rename_i returned
      obtain ⟨rfl,rfl⟩ := Prod.mk.inj eq
      exact .returns moved busy returned rfl rfl (by rintro r (now | now) <;> contradiction)
    · obtain rfl : p = (l',s') := eq
      exact .continues moved busy
  case h_8 value main =>
    obtain ⟨rfl,rfl⟩ := Prod.mk.inj (Option.some.inj ran)
    exact .still rfl (by rw [main]; rfl) rfl (by rintro r (now | now) <;> contradiction)
  case h_9 main =>
    obtain ⟨rfl,rfl⟩ := Prod.mk.inj (Option.some.inj ran)
    exact .begins _ rfl (free_of_none (by rw [main]; rfl))
  case h_10 consumer main =>
    obtain ⟨rfl,rfl⟩ := Prod.mk.inj (Option.some.inj ran)
    have before : l.main.side = none := by rw [main]; rfl
    cases s.sent with
    | true => exact .still rfl before rfl (by rintro r (now | now) <;> contradiction)
    | false =>
      cases consumer with
      | send => exact .begins _ rfl (free_of_none before)
      | tryRecv | drop => exact .still rfl before rfl (by rintro r (now | now) <;> contradiction)
  case h_11 consumer main =>
    have before : l.main.side = none := by rw [main]; rfl
    split at ran
    · obtain ⟨rfl,rfl⟩ := Prod.mk.inj (Option.some.inj ran)
      exact .still rfl before before fun _ => id
    · rename_i value _
      have eq := Option.some.inj ran
      obtain rfl : l' = _ := (congrArg Prod.fst eq).symm
      obtain rfl : s' = _ := (congrArg Prod.snd eq).symm
      exact afterSome_waiters rfl before
  case h_12 check main =>
    have eq := Option.some.inj ran
    obtain rfl : l' = _ := (congrArg Prod.fst eq).symm
    obtain rfl : s' = _ := (congrArg Prod.snd eq).symm
    exact afterLoad_waiters (by rw [main]; rfl)
  case h_13 closing label main =>
    obtain ⟨p,moved,eq⟩ := Option.map_eq_some_iff.mp ran
    split at eq
    · rename_i returned
      obtain rfl : l' = _ := (congrArg Prod.fst eq).symm
      obtain rfl : s' = _ := (congrArg Prod.snd eq).symm
      exact .closed moved main (by rw [returned]; rfl)
    · obtain rfl : p = (l',s') := eq
      exact .continues moved (by rw [main]; rfl)
  case h_4 | h_14 => contradiction

/-- The waiter of a side as a configuration of its own. -/
def waiterOf (side : Side) (c : Config θ ρ V) : AtomicWaiter.Config (Agent θ) ρ Unit :=
  c.map (·.waiters side) (·.view side)

/-- What is known of the waits of a side, and of the closes that ended. -/
structure Waited (side : Side) (c : Config θ ρ V) : Prop where
  phases : ∃ a, AtomicWaiter.outline.Holds a (waiterOf side c)
  suspended : ∀ agent r, (c.locals agent).main.awaits side r → r ∈ (c.shared.waiters side).suspended

/-- The closes that have ended: the sender is gone after it has closed both waiters, and a value
was received after `tx_waiter` was closed. -/
structure Closed (c : Config θ ρ V) : Prop where
  gone : (c.locals (.user .send)).main = .gone → (c.shared.waiters .recv).waiter = .closed
  received : ∀ v, .ok v ∈ c.shared.results → TxClosed c.shared

/-- The channel when nothing moves any more: every agent is between two calls, or gone, or parked
with a request that has no result. -/
def Quiescent (c : Config θ ρ V) : Prop :=
  ∀ agent, (c.locals agent).main = .idle ∨ (c.locals agent).main = .gone ∨
    ∃ side r, (c.locals agent).main = .parked side r ∧ (c.shared.waiters side).resolutions r = []

theorem holds_free [DecidableEq θ] {a : AtomicWaiter.Phases θ ρ Unit} {w : AtomicWaiter ρ Unit}
    {locals : θ → AtomicWaiter.Pc ρ Unit} {t : θ} {pc pc' : AtomicWaiter.Pc ρ Unit}
    (holds : AtomicWaiter.outline.Holds a ⟨w,Function.update locals t pc⟩) (free : pc.isFree = true)
    (free' : pc'.isFree = true) : AtomicWaiter.outline.Holds a ⟨w,Function.update locals t pc'⟩ := by
  refine ⟨holds.1,fun u => ?_⟩
  have before := holds.2 u
  by_cases same : u = t
  · subst same
    simp only [Function.update_self] at before ⊢
    have none (pc : AtomicWaiter.Pc ρ Unit) (free : pc.isFree = true) :
        pc.holds = [] ∧ ∀ update, pc ≠ .exchange update .closed := by
      cases pc <;> simp_all [AtomicWaiter.Pc.isFree,AtomicWaiter.Pc.holds]
    refine ⟨fun r => ?_,?_,(none _ free').2⟩
    · rw [← before.holds,(none _ free).1,(none _ free').1]
    · rw [(none _ free').1]
      exact List.nodup_nil
  · simpa only [Function.update_of_ne same] using before

theorem init_waited (side : Side) : Waited side (init : Config θ ρ V) := by
  have same : waiterOf side (init : Config θ ρ V) = AtomicWaiter.init := by
    simp only [waiterOf,Threads.Config.map,init,view_goto]
    rfl
  refine ⟨⟨fun _ => .fresh,by rw [same]; exact AtomicWaiter.init_holds⟩,fun agent r now => ?_⟩
  rcases now with now | now <;> contradiction

variable [DecidableEq θ]

theorem Waited.step {c next : Config θ ρ V} {label : Agent θ × Label ρ V} {side : Side}
    (waited : Waited side c) (stepped : step c label = some next) : Waited side next := by
  rcases label with ⟨agent,label⟩
  obtain ⟨l',s',ran,rfl⟩ := Threads.step_eq_some.mp stepped
  have step := prog_waiters ran side
  refine ⟨?_,fun u r now => ?_⟩
  · obtain ⟨a,holds⟩ := waited.phases
    rw [waiterOf,Threads.Config.map_update]
    rcases step.steps with ⟨⟨cancellable,same⟩,view⟩ | ⟨choice,pc,moved,view⟩
    · have kept : AtomicWaiter.outline.Holds a ⟨s'.waiters side,(waiterOf side c).locals⟩ := by
        rw [same]
        exact ⟨⟨holds.1.fresh,holds.1.stored,holds.1.resolutions⟩,holds.2⟩
      refine ⟨a,?_⟩
      have here : (waiterOf side c).locals =
          Function.update (waiterOf side c).locals agent ((c.locals agent).view side) :=
        (Function.update_eq_self agent _).symm
      rcases view with same | ⟨free,free'⟩
      · rw [same,← waiterOf,← here]
        exact kept
      · rw [here] at kept
        exact holds_free kept free free'
    · obtain ⟨a',moves,shared,own⟩ := AtomicWaiter.step_moves holds.1 (holds.2 agent) moved
      have kept := (AtomicWaiter.keeps_of_moves holds moves shared own).holds
      refine ⟨a',?_⟩
      rcases view with same | ⟨free,free'⟩
      · rw [same]
        exact kept
      · exact holds_free kept free free'
  · by_cases same : u = agent
    · subst same
      simp only [Function.update_self] at now
      exact (step.awaits r now).elim (fun before => step.suspended r (waited.suspended u r before)) id
    · simp only [Function.update_of_ne same] at now
      exact step.suspended r (waited.suspended u r now)

/-- The sender is gone when it has closed its own waiter and then that of the receiver. -/
theorem Step.gone {a : Location} {l l' : Local ρ V} {s s' : Oneshot ρ V} {label : Label ρ V}
    (step : Step s (.user .send : Agent θ) l label l' s') (ok : l.main.Ok a s .send) (closes : l.Closes s)
    (gone : l'.main = .gone) : (s'.waiters .recv).waiter = .closed := by
  cases step with
  | waits calm still =>
    rw [gone] at still
    contradiction
  | closed waits closed =>
    rename_i closing _
    cases closing with
    | dropRx result => exact closed (closes _ rfl)
    | closeRx => exact ok.elim
    | _ => contradiction
  | swapNone sent =>
    rename_i consumer _
    cases consumer with
    | drop => exact ok.elim
    | _ => contradiction
  | read value =>
    rename_i consumer _
    cases consumer with
    | drop => exact ok.elim
    | _ => contradiction
  | _ => contradiction

/-- A value is received when the receiver has closed the waiter of the sender. -/
theorem Step.received {agent : Agent θ} {l l' : Local ρ V} {s s' : Oneshot ρ V} {label : Label ρ V}
    (step : Step s agent l label l' s') (closes : l.Closes s) {v : V} (mem : .ok v ∈ s'.results) :
    .ok v ∈ s.results ∨ TxClosed s' := by
  cases step with
  | waits _ _ waits | other waits | closing waits =>
    obtain ⟨_,rfl,_⟩ := waits
    exact .inl mem
  | closed waits closed =>
    rename_i closing _
    have closed := closed (closes _ rfl)
    obtain ⟨_,rfl,_⟩ := waits
    cases closing with
    | received call value => exact .inr closed
    | _ => exact .inl mem
  | read value =>
    rename_i consumer _
    cases consumer <;> exact .inl mem
  | loadTryRecv load =>
    rcases List.mem_append.mp mem with old | new
    · exact .inl old
    · simp at new
  | _ => exact .inl mem

theorem Closed.step {a : Location} {c next : Config θ ρ V} {label : Agent θ × Label ρ V}
    (closed : Closed c) (holds : outline.Holds a c) (stepped : step c label = some next) :
    Closed next := by
  rcases label with ⟨agent,label⟩
  obtain ⟨l',s',ran,rfl⟩ := Threads.step_eq_some.mp stepped
  obtain ⟨step,-⟩ := step_moves holds ran
  have own := holds.2 agent
  refine ⟨fun gone => ?_,fun v mem => ?_⟩
  · by_cases same : agent = .user .send
    · subst same
      exact step.gone (own.ok .send rfl) own.closes (by simpa using gone)
    · simp only [Function.update_of_ne (Ne.symm same)] at gone
      exact step.marks .recv (closed.gone gone)
  · rcases step.received own.closes mem with before | now
    · exact step.marks .send (closed.received v before)
    · exact now

/-- The request of an end that is parked in a quiescent state is in the word of its waiter. -/
theorem Quiescent.stored {c : Config θ ρ V} {side : Side} (quiescent : Quiescent c)
    (waited : Waited side c) {agent : Agent θ} {r : ρ} (parked : (c.locals agent).main = .parked side r) :
    (c.shared.waiters side).waiter = .request r := by
  obtain ⟨a,shared,threads⟩ := waited.phases
  have known := waited.suspended agent r (.inr parked)
  have unresolved : (c.shared.waiters side).resolutions r = [] := by
    rcases quiescent agent with idle | gone | ⟨side',r',at_,none⟩
    · simp [parked] at idle
    · simp [parked] at gone
    · obtain ⟨rfl,rfl⟩ := Main.parked.inj (parked.symm.trans at_)
      exact none
  have reported := shared.resolutions r
  cases phase : a r with
  | fresh => exact absurd known ((shared.fresh r).mp phase)
  | held u =>
    have held := ((threads u).holds r).mpr phase
    have idle : (c.locals u).view side = .idle := by
      apply view_none
      rcases quiescent u with main | main | ⟨_,_,main,_⟩ <;> rw [main] <;> rfl
    simp [waiterOf,Threads.Config.map,idle,AtomicWaiter.Pc.holds] at held
  | stored => exact (shared.stored r).mp phase
  | resolved resolution =>
    rw [phase] at reported
    simp [waiterOf,Threads.Config.map,unresolved,AtomicWaiter.Phase.reported] at reported

/-- An end that is parked in a quiescent state has nothing to wake up for. No value was sent to a
parked receiver, and its sender is there; the receiver of a parked sender is there, and has neither
closed the channel nor received the value. -/
theorem parked_pending {labels : List (Agent θ × Label ρ V)} {c : Config θ ρ V}
    (path : Transition.Path step Transition.anyStep init labels c) (quiescent : Quiescent c) :
    (∀ r, (c.locals (.user .recv)).main = .parked .recv r →
      c.shared.passed = none ∧ (c.locals (.user .send)).main ≠ .gone) ∧
    ∀ r, (c.locals (.user .send)).main = .parked .send r →
      c.shared.closed = false ∧ (∀ v, .ok v ∉ c.shared.results) ∧
        (c.locals (.user .recv)).main ≠ .gone := by
  obtain ⟨⟨a,holds⟩,closed,waited⟩ := path.invariant
    (fun c => (∃ a, outline.Holds a c) ∧ Closed c ∧ ∀ side, Waited side c) (by
      rintro c label next ⟨⟨a,holds⟩,closed,waited⟩ - stepped
      have stays := closed.step holds stepped
      have waits := fun side => (waited side).step stepped
      obtain ⟨l',s',ran,rfl⟩ := Threads.step_eq_some.mp stepped
      obtain ⟨-,a',holds',-⟩ := step_moves holds ran
      exact ⟨⟨a',holds'⟩,stays,waits⟩)
    ⟨⟨_,init_holds⟩,⟨by simp [init,goto],by simp [init,new]⟩,init_waited⟩
  have send := (holds.2 (.user .send)).ok .send rfl
  have recv := (holds.2 (.user .recv)).ok .recv rfl
  have opened {side : Side} {r : ρ} (parked : (c.locals (.user side)).main = .parked side r) :
      (c.shared.waiters side).waiter ≠ .closed := by
    rw [quiescent.stored (waited side) parked]
    simp
  refine ⟨fun r parked => ?_,fun r parked => ⟨?_,fun v mem => ?_,fun gone => ?_⟩⟩
  · have here : (c.locals (.user .send)).main ≠ .gone := fun gone => opened parked (closed.gone gone)
    refine ⟨holds.1.passed.mpr ?_,here⟩
    rcases quiescent (.user .send) with idle | gone | ⟨_,_,waits,_⟩
    · rw [idle] at send
      exact send.1
    · exact absurd gone here
    · rw [waits] at send
      exact send.1
  · exact Bool.eq_false_iff.mpr fun called => opened parked (holds.1.closed called)
  · exact opened parked (closed.received v mem)
  · rw [gone] at recv
    exact opened parked recv.1

/-- An end that waits and parks. -/
def park (side : Side) (call : Call Nat Nat) (request : Nat) : List (Agent Unit × Label Nat Nat) :=
  [(.user side,.call call),(.user side,.suspend request),(.user side,.waiter .next),
    (.user side,.waiter (.exchange false)),(.user side,.waiter (.block true))]

/-- Both ends wait for each other. -/
theorem parked_pending_both : ∃ c : Config Unit Nat Nat,
    Transition.run step (park .recv .recv 0 ++ park .send .closed 1) init = some c ∧
      (c.locals (.user .recv)).main = .parked .recv 0 ∧
      (c.locals (.user .send)).main = .parked .send 1 ∧
      (c.shared.passed = none ∧ (c.locals (.user .send)).main ≠ .gone) ∧
      c.shared.closed = false ∧ (∀ v, .ok v ∉ c.shared.results) ∧
        (c.locals (.user .recv)).main ≠ .gone := by
  obtain ⟨c,executed,recv,send,other,unresolved⟩ : ∃ c : Config Unit Nat Nat,
      Transition.run step (park .recv .recv 0 ++ park .send .closed 1) init = some c ∧
      (c.locals (.user .recv)).main = .parked .recv 0 ∧
      (c.locals (.user .send)).main = .parked .send 1 ∧ (c.locals (.other ())).main = .idle ∧
      ((c.shared.waiters .recv).resolutions 0 = [] ∧ (c.shared.waiters .send).resolutions 1 = []) :=
    ⟨_,rfl,rfl,rfl,rfl,rfl,rfl⟩
  have quiescent : Quiescent c := by
    rintro ((_ | _) | _)
    · exact .inr (.inr ⟨_,_,send,unresolved.2⟩)
    · exact .inr (.inr ⟨_,_,recv,unresolved.1⟩)
    · exact .inl other
  have path := Transition.run_path (fun _ _ _ => trivial) executed
  obtain ⟨receiver,sender⟩ := parked_pending path quiescent
  exact ⟨c,executed,recv,send,receiver 0 recv,sender 1 send⟩

end Oneshot
end XxCore.Sync
