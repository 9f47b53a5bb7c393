import XxCore.Sync.Channel.ChannelSteps
import XxCore.Sync.Channel.QueueInvariant
import XxCore.Sync.WaitListOwed

/-! The parts of the channel. What a task does in the queue and in the lists fits where it is in
its own code, and every run of the channel is a run of the queue and of each list. -/
namespace XxCore.Sync

namespace Queue

variable {θ V : Type}

/-- The operation of the call, and whether it has claimed its slot. -/
def Pc.phase : Pc V → Option (Op V × Bool)
  | .idle | .returned _ => none
  | .loadCounter op | .loadSequence op _ _ | .exchange op _ _ => some (op,false)
  | .success op _ _ | .storeSequence op _ _ _ => some (op,true)

theorem Step.phase {t : θ} {s s' : Queue θ V} {l l' : Local V} {label : Label V} {op : Op V}
    {claimed : Bool} (stepped : Step t s l label l' s') (phase : l.pc.phase = some (op,claimed)) :
    (∃ outcome, l'.pc = .returned outcome) ∨ l'.pc.phase = some (op,claimed) ∨
      (claimed = false ∧ ∃ pos k, l'.pc = .success op pos k) := by
  cases stepped with
  | call free => rcases free with rfl | ⟨_,rfl⟩ <;> simp [Pc.phase] at phase
  | rejectSend | rejectRecv | storeSequence => exact .inl ⟨_,rfl⟩
  | claim =>
    obtain ⟨rfl,rfl⟩ := Prod.mk.inj (Option.some.inj phase)
    exact .inr (.inr ⟨rfl,_,_,rfl⟩)
  | _ => exact .inr (.inl phase)

theorem Step.phase_call {t : θ} {s s' : Queue θ V} {l l' : Local V} {op : Op V}
    (stepped : Step t s l (.call op) l' s') : l'.pc.phase = some (op,false) := by
  cases stepped
  rfl

theorem Step.claims {t : θ} {s s' : Queue θ V} {l l' : Local V} {label : Label V}
    (stepped : Step t s l label l' s') : s'.claims = s.claims ∨
      ∃ op pos stamp, l.pc = .exchange op pos stamp ∧
        l'.pc = .success op pos (s.claims op.side) ∧
        s'.claims = Function.update s.claims op.side (s.claims op.side + 1) := by
  cases stepped with
  | claim => exact .inr ⟨_,_,_,rfl,rfl,rfl⟩
  | _ => exact .inl rfl

/-- A claim is counted. -/
theorem Step.claimed {t : θ} {s s' : Queue θ V} {l l' : Local V} {label : Label V} {op op' : Op V}
    {pos : Word} {k : Nat} (stepped : Step t s l label l' s') (phase : l.pc.phase = some (op,false))
    (claimed : l'.pc = .success op' pos k) : s'.claims ≠ s.claims := by
  cases stepped with
  | @claim _ op =>
    intro same
    have := congrFun same op.side
    simp [Queue.claim] at this
  | readNone => simp [Pc.phase] at phase
  | _ => contradiction

theorem Step.capacity {t : θ} {s s' : Queue θ V} {l l' : Local V} {label : Label V}
    (stepped : Step t s l label l' s') : s'.capacity = s.capacity := by
  cases stepped <;> rfl

end Queue

namespace MCChannel

variable {θ ω V : Type}

open WaitList (Family)

/-- The call that a task makes on the list of the side. -/
def Main.list : Main V → Side → Option Family
  | .wake op _, side => if side = op.side.other then some .wakeOne else none
  | .wait op _, side => if side = op.side then some .wait else none
  | .sendClosed, side => if side = .send then some .wait else none
  | .close side', side => if side = side' then some (.wakeAll true) else none
  | .cancel side', side => if side = side' then some .cancel else none
  | _, _ => none

def Main.purpose : Main V → Purpose
  | .sendClosed => .closed
  | _ => .retry

/-- The call that a task makes on the queue, and whether it has claimed its slot. -/
def Main.phase : Main V → Option (Op V × Bool)
  | .nextSlot op _ => some (op,false)
  | .startWake op _ | .wake op _ | .access op _ => some (op,true)
  | _ => none

/-- The side of a `send` or `recv` that has no slot yet. -/
def Main.retries : Main V → Option Side
  | .begin op again | .nextSlot op again | .loadClosed op again _ =>
    if again then some op.side else none
  | .isInterrupted op | .backoff op | .wait op _ => some op.side
  | _ => none

structure Coherent (l : Local ω V) : Prop where
  lists : ∀ side, (l.waits side).family = l.main.list side
  purpose : ∀ side w, (l.waits side).waiter = some w → w.purpose = l.main.purpose
  queue : l.queue.pc.phase = l.main.phase
  woken : l.woken = true → l.main.retries ≠ none ∧ ∀ side, (l.waits side).blocks = false

theorem Main.of_isFree {main : Main V} (free : main.isFree = true) :
    (∀ side, main.list side = none) ∧ main.phase = none ∧ main.retries = none := by
  cases main <;> simp [Main.isFree] at free <;> exact ⟨fun _ => rfl,rfl,rfl⟩

theorem Coherent.idle {l : Local ω V} (coherent : Coherent l) {side : Side}
    (free : l.main.list side = none) : (l.waits side).waiter = none ∧ (l.waits side).blocks = false := by
  have waiter := WaitList.waiter_of_family ((coherent.lists side).trans free)
  exact ⟨waiter,WaitList.blocks_of_waiter waiter⟩

/-- A task that has not been told to try again was not woken. -/
theorem Coherent.quiet {l : Local ω V} (coherent : Coherent l) (none : l.main.retries = none) :
    ¬ l.woken = true := fun woken => (coherent.woken woken).1 none

/-- A call of a list that `close` or `cancel` makes. -/
theorem lists_of_closing {main : Main V} {side : Side}
    (closing : main = .close side ∨ main = .cancel side) :
    (∃ f, ∀ other, main.list other = if other = side then some f else none) ∧
      main.retries = none := by
  rcases closing with rfl | rfl
  · exact ⟨⟨_,fun _ => rfl⟩,rfl⟩
  · exact ⟨⟨_,fun _ => rfl⟩,rfl⟩

/-- A step of the task's own code. -/
theorem Coherent.main {l l' : Local ω V} (coherent : Coherent l) (waits : l'.waits = l.waits)
    (lists : ∀ side, l'.main.list side = l.main.list side)
    (purpose : l'.main.purpose = l.main.purpose ∨ ∀ side, l.main.list side = none)
    (queue : l'.queue.pc.phase = l'.main.phase)
    (woken : l'.woken = true → l'.main.retries ≠ none ∧ l.woken = true) : Coherent l' := by
  refine ⟨fun side => ?_,fun side w waiter => ?_,queue,fun h => ⟨(woken h).1,fun side => ?_⟩⟩
  · rw [waits,lists,coherent.lists]
  · rw [waits] at waiter
    rcases purpose with same | none
    · rw [same]; exact coherent.purpose side w waiter
    · rw [(coherent.idle (none side)).1] at waiter
      contradiction
  · rw [waits]; exact (coherent.woken (woken h).2).2 side

/-- What a step of the task does to the queue. -/
def QueueStep (t : θ) (label : Label ω V) (l l' : Local ω V) (s s' : MCChannel θ ω V) : Prop :=
  (l'.queue = l.queue ∧ s'.queue = s.queue) ∨
    ∃ choice, (label = .queue choice ∨ ∃ op, choice = .call op) ∧
      Queue.prog t choice l.queue s.queue = some (l'.queue,s'.queue)

variable [DecidableEq θ] [DecidableEq ω]

/-- What a step of the task does to a list. -/
def ListStep (t : θ) (side : Side) (l l' : Local ω V) (s s' : MCChannel θ ω V) : Prop :=
  (l'.waits side = l.waits side ∧ s'.waiters side = s.waiters side) ∨
    ∃ choice, WaitList.prog t choice (l.waits side) (s.waiters side) =
      some (l'.waits side,s'.waiters side)

theorem Step.queueStep {t : θ} {label : Label ω V} {l l' : Local ω V} {s s' : MCChannel θ ω V}
    (step : Step t l s label l' s') : QueueStep t label l l' s s' := by
  cases step with
  | begin _ ran => exact .inr ⟨_,.inr ⟨_,rfl⟩,ran⟩
  | search _ ran | claim _ ran | reject _ ran | access _ ran | finish _ ran =>
    exact .inr ⟨_,.inl rfl,ran⟩
  | _ => exact .inl ⟨rfl,rfl⟩

theorem listStep_of_prog {t : θ} {side at_ : Side} (choice : WaitList.Label (Waiter ω) Unit)
    {l l' : Local ω V} {s s' : MCChannel θ ω V} {pc : WaitList.Pc (Waiter ω) Unit}
    {list : WaitList θ (Waiter ω) Unit}
    (ran : WaitList.prog t choice (l.waits at_) (s.waiters at_) = some (pc,list))
    (waits : l'.waits = Function.update l.waits at_ pc)
    (waiters : s'.waiters = Function.update s.waiters at_ list) : ListStep t side l l' s s' := by
  by_cases same : side = at_
  · subst same
    exact .inr ⟨choice,by simpa [waits,waiters] using ran⟩
  · exact .inl ⟨by simp [waits,same],by simp [waiters,same]⟩

theorem Step.listStep {t : θ} {label : Label ω V} {l l' : Local ω V} {s s' : MCChannel θ ω V}
    (step : Step t l s label l' s') (side : Side) : ListStep t side l l' s s' := by
  cases step with
  | callCancel _ ran | startWake _ ran | wake _ ran | startWait _ ran | wait _ ran | sendClosed _ ran
  | sendClosedWait _ ran | sendClosedCancelled _ ran | startClose _ ran | close _ ran
  | closed _ ran => exact listStep_of_prog _ ran rfl rfl
  | resume _ parked ran => exact listStep_of_prog _ (parked ▸ ran) rfl rfl
  | block _ at_ => exact listStep_of_prog (.block true) (by rw [at_]; rfl) rfl rfl
  | noBlock _ at_ => exact listStep_of_prog (.block false) (by rw [at_]; rfl) rfl rfl
  | sendClosedBlock _ at_ => exact listStep_of_prog (.block true) (by rw [at_]; rfl) rfl rfl
  | _ => exact .inl ⟨rfl,rfl⟩

/-- A call of a list stays what it is until it returns. -/
theorem family_of_prog {t : θ} {choice : WaitList.Label (Waiter ω) Unit}
    {pc pc' : WaitList.Pc (Waiter ω) Unit} {list list' : WaitList θ (Waiter ω) Unit} {f : Family}
    (ran : WaitList.prog t choice pc list = some (pc',list')) (family : pc.family = some f) :
    pc'.family = if isReturned pc' then none else some f := by
  rcases (WaitList.prog_step ran).family (by simp [family]) with same | ⟨value,rfl⟩
  · have running : isReturned pc' = false := by
      rw [family] at same
      cases pc' <;> first | rfl | simp [WaitList.Pc.family] at same
    simp [running,same,family]
  · rfl

/-- A step of the list that the task is in, or that it calls. -/
theorem Coherent.list {l l' : Local ω V} (coherent : Coherent l) (at_ : Side)
    {pc : WaitList.Pc (Waiter ω) Unit} (waits : l'.waits = Function.update l.waits at_ pc)
    (family : pc.family = l'.main.list at_)
    (others : ∀ side, side ≠ at_ → l.main.list side = none ∧ l'.main.list side = none)
    (purpose : ∀ w, pc.waiter = some w → w.purpose = l'.main.purpose)
    (queue : l'.queue.pc.phase = l'.main.phase)
    (woken : l'.woken = true → l'.main.retries ≠ none ∧ pc.blocks = false) : Coherent l' := by
  refine ⟨fun side => ?_,fun side w waiter => ?_,queue,fun h => ⟨(woken h).1,fun side => ?_⟩⟩
  all_goals by_cases same : side = at_
  · subst same; simpa [waits] using family
  · simp [waits,same,coherent.lists,others side same]
  · subst same
    exact purpose w (by simpa [waits] using waiter)
  · simp [waits,same,(coherent.idle (others side same).1).1] at waiter
  · subst same; simpa [waits] using (woken h).2
  · simpa [waits,same] using (coherent.idle (others side same).1).2

/-- A call of a list. -/
theorem Coherent.call {t : θ} {l l' : Local ω V} {side : Side}
    {call : WaitList.Call (Waiter ω) Unit} {pc : WaitList.Pc (Waiter ω) Unit}
    {list list' : WaitList θ (Waiter ω) Unit} (coherent : Coherent l)
    (ran : WaitList.prog t (.call call) (l.waits side) list = some (pc,list'))
    (waits : l'.waits = Function.update l.waits side pc)
    (before : ∀ side, l.main.list side = none)
    (lists : ∀ other, l'.main.list other = if other = side then some call.family else none)
    (purpose : ∀ w, call = .wait w → w.purpose = l'.main.purpose)
    (queue : l'.queue.pc.phase = l'.main.phase) (woken : l'.woken = true → l'.main.retries ≠ none) :
    Coherent l' := by
  have step := WaitList.prog_step ran
  refine coherent.list side waits ?_ (fun other ne => ⟨before other,?_⟩)
    (fun w waiter => purpose w (step.waiter_call waiter)) queue fun h => ⟨woken h,?_⟩
  · rw [lists,if_pos rfl]; exact step.family_call
  · rw [lists,if_neg ne]
  · exact step.blocks_call

/-- A step of the call of a list that the task is in. -/
theorem Coherent.busy {t : θ} {l l' : Local ω V} {side : Side} (f : Family)
    (choice : WaitList.Label (Waiter ω) Unit) {pc : WaitList.Pc (Waiter ω) Unit}
    {list' : WaitList θ (Waiter ω) Unit} (coherent : Coherent l) (list : WaitList θ (Waiter ω) Unit)
    (ran : WaitList.prog t choice (l.waits side) list = some (pc,list'))
    (waits : l'.waits = Function.update l.waits side pc)
    (before : ∀ other, l.main.list other = if other = side then some f else none)
    (lists : ∀ other, l'.main.list other =
      if other = side ∧ isReturned pc = false then some f else none)
    (purpose : pc.waiter ≠ none → l'.main.purpose = l.main.purpose)
    (queue : l'.queue.pc.phase = l'.main.phase)
    (woken : l'.woken = true → l'.main.retries ≠ none ∧ pc.blocks = false) : Coherent l' := by
  have step := WaitList.prog_step ran
  have family : (l.waits side).family = some f := by rw [coherent.lists,before,if_pos rfl]
  refine coherent.list side waits ?_ (fun other ne => ⟨?_,?_⟩) (fun w waiter => ?_) queue woken
  · rw [family_of_prog ran family,lists]
    cases isReturned pc <;> simp
  · rw [before,if_neg ne]
  · rw [lists,if_neg fun h => ne h.1]
  · rcases step.waiter (by simp [family]) with gone | same
    · rw [gone] at waiter
      contradiction
    · rw [purpose (by simp [waiter])]
      exact coherent.purpose side w (same.symm.trans waiter)

theorem Step.coherent {t : θ} {label : Label ω V} {l l' : Local ω V} {s s' : MCChannel θ ω V}
    (step : Step t l s label l' s') (coherent : Coherent l) : Coherent l' := by
  have queue := coherent.queue
  have woken := coherent.woken
  cases step with
  | op free | callClosed free | callClose free | clone free =>
    obtain ⟨lists,phase,retries⟩ := Main.of_isFree free
    exact coherent.main rfl (fun side => by rw [lists]; rfl) (.inr lists) (queue.trans phase)
      fun h => absurd h (coherent.quiet retries)
  | @drop side free =>
    obtain ⟨lists,phase,retries⟩ := Main.of_isFree free
    refine coherent.main rfl ?_ (.inr lists) ?_ fun h => absurd h (coherent.quiet retries)
    · intro side
      simp only [Local.goto,lists]
      split <;> rfl
    · refine (queue.trans phase).trans ?_
      simp only [Local.goto]
      split <;> rfl
  | callCancel free ran =>
    obtain ⟨lists,phase,retries⟩ := Main.of_isFree free
    exact coherent.call ran rfl lists (fun _ => rfl) (by rintro _ ⟨⟩) (queue.trans phase)
      fun h => absurd h (coherent.quiet retries)
  | beginClosed main | failClosed main | fail main | interrupted main | isClosed main =>
    refine coherent.main rfl (fun side => ?_) (.inr fun side => ?_) ?_ (by intros; contradiction)
    · simp [leave,main,Main.list]
    · simp [main,Main.list]
    · exact queue.trans (by rw [main]; rfl)
  | failAgain main | uninterrupted main | snooze main =>
    refine coherent.main rfl (fun side => ?_) (.inr fun side => ?_) ?_ fun h =>
      ⟨by intro again; contradiction,h⟩
    · simp [Local.goto,main,Main.list]
    · simp [main,Main.list]
    · exact queue.trans (by rw [main]; rfl)
  | loadFirst main =>
    refine coherent.main rfl (fun side => ?_) (.inl ?_) ?_ fun h =>
      ⟨by intro again; contradiction,h⟩
    · simp [Local.goto,main,Main.list]
    · rw [main]; rfl
    · exact queue.trans (by rw [main]; rfl)
  | begin main ran =>
    refine coherent.main rfl (fun side => ?_) (.inr fun side => ?_)
      (Queue.prog_step ran).phase_call fun h => ⟨?_,h⟩
    · simp [main,Main.list]
    · simp [main,Main.list]
    · have retries := (woken h).1
      rw [main] at retries
      exact retries
  | search main ran undecided =>
    refine coherent.main rfl (fun _ => rfl) (.inl rfl) ?_ fun h => ⟨(woken h).1,h⟩
    rw [main] at queue ⊢
    rcases (Queue.prog_step ran).phase queue with ⟨_,eq⟩ | same | ⟨_,_,_,eq⟩
    · exact absurd eq (undecided.2 _)
    · exact same
    · exact absurd eq (undecided.1 _ _ _)
  | claim main ran claimed =>
    refine coherent.main rfl (fun _ => ?_) (.inl ?_) ?_ (by simp)
    · simp [main,Main.list]
    · rw [main]; rfl
    rw [main] at queue
    rcases (Queue.prog_step ran).phase queue with ⟨_,eq⟩ | same | ⟨_,_,_,eq⟩
    · simp [claimed] at eq
    · simp [claimed,Queue.Pc.phase] at same
    · simp only [eq]; rfl
  | reject main ran failed =>
    refine coherent.main rfl (fun _ => ?_) (.inl ?_) ?_ fun h => ⟨?_,h⟩
    · simp [main,Main.list]
    · rw [main]; rfl
    · simp only [failed]; rfl
    · have retries := (woken h).1
      rw [main] at retries
      exact retries
  | startWake main ran =>
    refine coherent.call ran rfl (fun _ => by simp [main,Main.list])
      (fun _ => by simp [Local.goto,Main.list,WaitList.Call.family]) (by rintro _ ⟨⟩)
      (queue.trans (by rw [main]; rfl)) fun h => ?_
    exact absurd h (coherent.quiet (by rw [main]; rfl))
  | @wake op again _ pc _ main ran =>
    refine coherent.busy .wakeOne _ _ ran rfl (fun _ => by simp [main,Main.list]) (fun _ => ?_)
      (fun _ => ?_) ?_ fun h => ?_
    · cases done : isReturned pc <;> simp [Local.goto,Main.list]
    · cases done : isReturned pc <;> simp [Local.goto,main,Main.purpose]
    · refine queue.trans ?_
      cases done : isReturned pc <;> simp [Local.goto,main,Main.phase]
    · exact absurd h (coherent.quiet (by rw [main]; rfl))
  | access main ran busy =>
    refine coherent.main rfl (fun _ => rfl) (.inl rfl) ?_ fun h => ⟨(woken h).1,h⟩
    rw [main] at queue ⊢
    rcases (Queue.prog_step ran).phase queue with ⟨_,eq⟩ | same | ⟨new,_⟩
    · exact absurd eq (busy _)
    · exact same
    · contradiction
  | finish main ran done =>
    refine coherent.main rfl (fun _ => ?_) (.inl ?_) ?_ (by intros; contradiction)
    · simp [leave,main,Main.list]
    · rw [main]; rfl
    · simp only [leave,done]; rfl
  | startWait main ran =>
    exact coherent.call ran rfl (fun _ => by simp [main,Main.list])
      (fun _ => by simp [Local.goto,Main.list,WaitList.Call.family]) (by rintro _ ⟨⟩; rfl)
      (queue.trans (by rw [main]; rfl)) (by intro _ same; cases same)
  | @wait op _ _ pc _ main ran quiet =>
    refine coherent.busy .wait _ _ ran rfl (fun _ => by simp [main,Main.list]) (fun _ => ?_)
      (fun _ => ?_) ?_ fun h => ⟨?_,(WaitList.prog_step ran).blocks ((woken h).2 _) quiet⟩
    · cases done : isReturned pc <;> simp [Local.goto,Main.list]
    · cases done : isReturned pc <;> simp [Local.goto,main,Main.purpose]
    · refine queue.trans ?_
      cases done : isReturned pc <;> simp [Local.goto,main,Main.phase]
    · cases done : isReturned pc <;> simp [Local.goto,Main.retries]
  | resume main parked ran =>
    refine coherent.busy .wait _ _ (parked ▸ ran) rfl (fun _ => by simp [main,Main.list])
      (fun _ => ?_) (fun _ => rfl) queue fun _ => ⟨by simp [Local.setWait,main,Main.retries],rfl⟩
    simp [Local.setWait,main,Main.list,isReturned]
  | @block op _ _ w main at_ =>
    refine coherent.busy (t := t) .wait (.block true) (s.waiters op.side)
      (by rw [at_]; rfl) rfl (fun _ => by simp [main,Main.list]) (fun _ => ?_) (fun _ => ?_)
      (queue.trans (by rw [main]; rfl)) (by simp)
    · simp [Local.goto,Main.list,isReturned]
    · rw [main]; rfl
  | @noBlock op _ _ w main at_ =>
    refine coherent.busy (t := t) .wait (.block false) (s.waiters op.side)
      (by rw [at_]; rfl) rfl (fun _ => by simp [main,Main.list]) (fun _ => ?_) (fun _ => ?_)
      (queue.trans (by rw [main]; rfl)) fun _ =>
        ⟨by intro again; contradiction,rfl⟩
    · simp [Local.goto,Main.list,isReturned]
    · rw [main]; rfl
  | sendClosed main ran =>
    refine coherent.call ran rfl (fun _ => by simp [main,Main.list])
      (fun _ => by simp [Local.goto,Main.list,WaitList.Call.family]) (by rintro _ ⟨⟩; rfl)
      (queue.trans (by rw [main]; rfl)) fun h => ?_
    exact absurd h (coherent.quiet (by rw [main]; rfl))
  | sendClosedBlock main at_ =>
    refine coherent.busy (t := t) .wait (.block true) (s.waiters .send)
      (by rw [at_]; rfl) rfl (fun _ => by simp [main,Main.list]) (fun _ => ?_) (fun _ => rfl) queue
      fun h => ?_
    · simp [Local.setWait,main,Main.list,isReturned]
    · exact absurd h (coherent.quiet (by rw [main]; rfl))
  | @sendClosedWait _ pc _ main ran =>
    refine coherent.busy .wait _ _ ran rfl (fun _ => by simp [main,Main.list]) (fun _ => ?_)
      (fun waits => ?_) ?_ fun h => ?_
    · cases done : isReturned pc <;> simp [Local.goto,Main.list]
    · have running : isReturned pc = false := by
        cases pc <;> first | rfl | exact absurd rfl waits
      simp [Local.goto,main,running]
    · refine queue.trans ?_
      cases done : isReturned pc <;> simp [Local.goto,main,Main.phase]
    · exact absurd h (coherent.quiet (by rw [main]; rfl))
  | sendClosedCancelled main ran =>
    refine coherent.busy .wait _ _ ran rfl (fun _ => by simp [main,Main.list]) (fun _ => ?_)
      (fun waits => absurd rfl waits) (queue.trans (by rw [main]; rfl)) (by intros; contradiction)
    simp [leave,Main.list,isReturned]
  | startClose main ran =>
    refine coherent.call ran rfl (fun _ => by simp [main,Main.list])
      (fun _ => by simp [Local.goto,Main.list,WaitList.Call.family]) (by rintro _ ⟨⟩)
      (queue.trans (by rw [main]; rfl)) fun h => ?_
    exact absurd h (coherent.quiet (by rw [main]; rfl))
  | @close side _ pc _ main ran busy =>
    obtain ⟨⟨f,lists⟩,retries⟩ := lists_of_closing main
    refine coherent.busy _ _ _ ran rfl lists (fun _ => ?_) (fun _ => rfl) queue fun h => ?_
    · simp [Local.setWait,lists,busy]
    · exact absurd h (coherent.quiet retries)
  | @closed side _ pc _ main ran done =>
    obtain ⟨⟨f,lists⟩,retries⟩ := lists_of_closing main
    refine coherent.busy _ _ _ ran rfl lists (fun _ => ?_) (fun waits => ?_) (queue.trans ?_)
      (by intros; contradiction)
    · simp [leave,Main.list,done]
    · cases pc <;> first | exact absurd rfl waits | simp [isReturned] at done
    · rcases main with main | main <;> rw [main] <;> rfl

theorem Step.stays_closed {t : θ} {label : Label ω V} {l l' : Local ω V} {s s' : MCChannel θ ω V}
    (step : Step t l s label l' s') (side : Side) (closed : (s.waiters side).closed = true) :
    (s'.waiters side).closed = true := by
  rcases step.listStep side with ⟨_,same⟩ | ⟨choice,ran⟩
  · rw [same]; exact closed
  · exact (WaitList.prog_step ran).closed closed

/-- A step claims a slot only where `next_slot` succeeds. -/
theorem Step.claims {t : θ} {label : Label ω V} {l l' : Local ω V} {s s' : MCChannel θ ω V}
    (step : Step t l s label l' s') (coherent : Coherent l) :
    s'.queue.claims = s.queue.claims ∨ ∃ op again, l.main = .nextSlot op again ∧
      l'.main = .startWake op again ∧ s'.queue.claims =
        Function.update s.queue.claims op.side (s.queue.claims op.side + 1) := by
  have queue := coherent.queue
  cases step with
  | begin main ran =>
    rcases (Queue.prog_step ran).claims with same | ⟨_,_,_,at_,_⟩
    · exact .inl same
    · rw [main,at_] at queue
      contradiction
  | access main ran | finish main ran =>
    rcases (Queue.prog_step ran).claims with same | ⟨_,_,_,at_,_⟩
    · exact .inl same
    · rw [main,at_] at queue
      exact absurd (Prod.mk.inj (Option.some.inj queue)).2 nofun
  | search main ran undecided =>
    rcases (Queue.prog_step ran).claims with same | ⟨_,_,_,_,claimed,_⟩
    · exact .inl same
    · exact absurd claimed (undecided.1 _ _ _)
  | reject main ran failed =>
    rcases (Queue.prog_step ran).claims with same | ⟨_,_,_,_,claimed,_⟩
    · exact .inl same
    · exact absurd (failed.symm.trans claimed) nofun
  | claim main ran =>
    rcases (Queue.prog_step ran).claims with same | ⟨_,_,_,at_,_,new⟩
    · exact .inl same
    · rw [main,at_] at queue
      obtain ⟨rfl,_⟩ := Prod.mk.inj (Option.some.inj queue)
      exact .inr ⟨_,_,main,rfl,new⟩
  | _ => exact .inl rfl

def queueOf (c : Config θ ω V) : Queue.Config θ V :=
  ⟨c.shared.queue,fun t => (c.locals t).queue⟩

def listOf (side : Side) (c : Config θ ω V) : WaitList.Config θ (Waiter ω) Unit :=
  ⟨c.shared.waiters side,fun t => (c.locals t).waits side⟩

theorem queueOf_next (c : Config θ ω V) (t : θ) (l' : Local ω V) (s' : MCChannel θ ω V) :
    queueOf ⟨s',Function.update c.locals t l'⟩ =
      ⟨s'.queue,Function.update (queueOf c).locals t l'.queue⟩ := by
  simp only [queueOf,Threads.Config.mk.injEq,true_and]
  funext u
  by_cases same : u = t
  · subst same; simp
  · simp [same]

theorem listOf_next (side : Side) (c : Config θ ω V) (t : θ) (l' : Local ω V)
    (s' : MCChannel θ ω V) : listOf side ⟨s',Function.update c.locals t l'⟩ =
      ⟨s'.waiters side,Function.update (listOf side c).locals t (l'.waits side)⟩ := by
  simp only [listOf,Threads.Config.mk.injEq,true_and]
  funext u
  by_cases same : u = t
  · subst same; simp
  · simp [same]

/-- A step of the channel is one of the queue, or the queue does not notice it. -/
theorem queue_simulates {c next : Config θ ω V} {t : θ} {label : Label ω V}
    (stepped : step c (t,label) = some next) : queueOf next = queueOf c ∨
      ∃ choice, (label = .queue choice ∨ ∃ op, choice = .call op) ∧
        Queue.step (queueOf c) (t,choice) = some (queueOf next) := by
  obtain ⟨l',s',ran,rfl⟩ := Threads.step_eq_some.mp stepped
  rw [queueOf_next]
  rcases (prog_step ran).queueStep with ⟨same,same'⟩ | ⟨choice,is,ran⟩
  · left
    rw [same,same']
    exact congrArg _ (Function.update_eq_self t _)
  · exact .inr ⟨choice,is,Threads.step_eq_some.mpr ⟨_,_,ran,rfl⟩⟩

theorem list_simulates (side : Side) {c next : Config θ ω V} {t : θ} {label : Label ω V}
    (stepped : step c (t,label) = some next) : listOf side next = listOf side c ∨
      ∃ choice, WaitList.step (listOf side c) (t,choice) = some (listOf side next) := by
  obtain ⟨l',s',ran,rfl⟩ := Threads.step_eq_some.mp stepped
  rw [listOf_next]
  rcases (prog_step ran).listStep side with ⟨same,same'⟩ | ⟨choice,ran⟩
  · left
    rw [same,same']
    exact congrArg _ (Function.update_eq_self t _)
  · exact .inr ⟨choice,Threads.step_eq_some.mpr ⟨_,_,ran,rfl⟩⟩

/-- No `compare_exchange_weak` succeeds for a call that was overtaken by `2 ^ 64` or more claims
of its counter since it loaded the position. -/
def ClaimsInTime (c : Config θ ω V) (label : θ × Label ω V) : Prop :=
  ∀ choice, label.2 = .queue choice → Queue.InTime (queueOf c) (label.1,choice)

/-- What is known of the parts of the channel in every state. -/
structure Base (c : Config θ ω V) : Prop where
  queue : ∃ r, Queue.outline.Holds r (queueOf c)
  lists : ∀ side, ∃ a, WaitList.outline.Holds a (listOf side c)
  pended : ∀ side, WaitList.Pended (listOf side c)
  coherent : ∀ t, Coherent (c.locals t)

theorem Base.step {c next : Config θ ω V} {label : θ × Label ω V} (base : Base c)
    (inTime : ClaimsInTime c label) (stepped : step c label = some next) : Base next := by
  rcases label with ⟨t,label⟩
  refine ⟨?_,fun side => ?_,fun side => ?_,fun u => ?_⟩
  · rcases queue_simulates stepped with same | ⟨choice,is,stepped⟩
    · rw [same]; exact base.queue
    · refine Queue.step_holds base.queue ?_ stepped
      rcases is with is | ⟨op,rfl⟩
      · exact inTime choice is
      · nofun
  · rcases list_simulates side stepped with same | ⟨choice,stepped⟩
    · rw [same]; exact base.lists side
    · exact WaitList.step_holds (base.lists side) stepped
  · rcases list_simulates side stepped with same | ⟨choice,stepped⟩
    · rw [same]; exact base.pended side
    · exact (base.pended side).step stepped
  · obtain ⟨l',s',ran,rfl⟩ := Threads.step_eq_some.mp stepped
    by_cases same : u = t
    · subst same
      simpa using (prog_step ran).coherent (base.coherent u)
    · simpa [same] using base.coherent u

theorem init_base {padding size : Nat} {slots : Nat × (Nat → Slot V)}
    (created : createSlots V padding size = some slots) (two : 2 ≤ size) :
    Base (init slots : Config θ ω V) := by
  refine ⟨⟨_,Queue.init_holds (Queue.createSlots_capacity created two) ?_⟩,
    fun _ => ⟨_,WaitList.init_holds⟩,fun _ => nofun,fun _ => ⟨?_,nofun,rfl,nofun⟩⟩
  · obtain ⟨_,rfl,_⟩ := Queue.createSlots_eq_some created
    rfl
  · exact fun _ => rfl

end MCChannel
end XxCore.Sync
