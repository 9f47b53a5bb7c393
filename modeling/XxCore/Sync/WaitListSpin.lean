import XxCore.Sync.SpinLock
import XxCore.Sync.WaitListInvariant

/-! The wait list on its spin lock. The threads that wait for the lock load the flag, exchange it and
yield; the list does what it does on a lock that is taken in one step. -/
namespace XxCore.Sync.WaitList

variable {θ ω α : Type}

/-- The thread is in `SpinMutex::lock`. -/
def Pc.locking : Pc ω α → Bool
  | .suspendLock _ | .cancelLock _ | .wakeLock _ | .wakeAllLock _ _ => true
  | _ => false

/-- The thread drops its guard next. -/
def Pc.unlocks : Pc ω α → Bool
  | .unlockDone _ _ | .unlockPending _ | .unlockUnlinked | .unlockTaken _ _ _ | .unlockNone
  | .unlockAll _ _ => true
  | _ => false

def Label.isNext : Label ω α → Bool
  | .next => true
  | _ => false

def wantsLock (pc : Pc ω α) (label : Label ω α) : Bool := pc.locking && label.isNext

abbrev SpinConfig (θ ω α : Type) := Threads.Config θ (WaitList θ ω α × Bool) (Pc ω α × SpinLock.Pc)

variable [DecidableEq θ] [DecidableEq ω]

def spinProg : Threads.Program θ (Label ω α) (Pc ω α × SpinLock.Pc) (WaitList θ ω α × Bool) :=
  SpinLock.lock.carry prog wantsLock Pc.unlocks

def spinStep : SpinConfig θ ω α → θ × Label ω α → Option (SpinConfig θ ω α) := Threads.step spinProg

def spinInit : SpinConfig θ ω α := ⟨(new,false),fun _ => (.idle,.tryLock)⟩

/-- How the list uses its lock. -/
theorem usesLock : Threads.UsesLock (prog (θ := θ) (ω := ω) (α := α)) (·.lock) wantsLock Pc.unlocks where
  enabled := by
    intro t label pc s waiting free
    cases label <;> simp [wantsLock,Label.isNext] at waiting
    cases pc <;> simp [Pc.locking] at waiting
    all_goals simp [prog,waitStep,cancelStep,wakeOneStep,wakeAllStep,acquire,free]
  takes := by
    intro t label pc s pc' s' waiting ran
    cases prog_step ran with
    | suspendLock free | cancelLock free | wakeLock free | wakeAllLock free => exact ⟨free,rfl⟩
    | wait free | cancel free | wakeOne free | wakeAll free | close free =>
      simp [wantsLock,Label.isNext] at waiting
    | _ => simp [wantsLock,Pc.locking] at waiting
  gives := by
    intro t label pc s pc' s' _ unlocking ran
    cases prog_step ran with
    | unlockDone | unlockPending | unlockUnlinked | unlockTaken | unlockNone | unlockAll => rfl
    | wait free | cancel free | wakeOne free | wakeAll free | close free =>
      cases pc <;> simp [Pc.isFree,Pc.unlocks] at free unlocking
    | _ => simp [Pc.unlocks] at unlocking
  keeps := by
    intro t label pc s pc' s' busy unlocking ran
    cases prog_step ran with
    | suspendLock | cancelLock | wakeLock | wakeAllLock => simp [wantsLock,Pc.locking,Label.isNext] at busy
    | unlockDone | unlockPending | unlockUnlinked | unlockTaken | unlockNone | unlockAll =>
      simp [Pc.unlocks] at unlocking
    | _ => rfl

/-- What a run on the spin lock comes to: the list has taken the steps of the run without some of the
attempts to get the lock; one thread at a time is inside the lock, and the flag says whether one is; a
thread that wants the lock can go on, and alone it has a free one after three steps at most. -/
structure OnSpinLock (labels : List (θ × Label ω α)) (low : SpinConfig θ ω α) : Prop where
  run : ∃ labels', labels'.Sublist labels ∧
    labels'.filter (!·.2.isNext) = labels.filter (!·.2.isNext) ∧
    Transition.Path step Transition.anyStep init labels' low.client
  flag : low.shared.2 = true ↔ ∃ t, (low.locals t).1.critical = true
  alone : ∀ t u, (low.locals t).1.critical = true → (low.locals u).1.critical = true → t = u
  enabled : ∀ t, (low.locals t).1.locking = true → ∃ next, spinStep low (t,.next) = some next
  gets : low.shared.2 = false → ∀ t, (low.locals t).1.locking = true →
    ∃ k ≤ 3, ∃ next, Transition.run spinStep (List.replicate k (t,.next)) low = some next ∧
      step low.client (t,.next) = some next.client

/-- On its spin lock the list does what it does on a lock that is taken in one step, and nothing else. -/
theorem spin_refines :
    (∀ labels (low : SpinConfig θ ω α),
      Transition.Path spinStep Transition.anyStep spinInit labels low → OnSpinLock labels low) ∧
    ∀ labels (c : Config θ ω α), Transition.Path step Transition.anyStep init labels c →
      ∃ low, Transition.Path spinStep Transition.anyStep spinInit labels low ∧ low.client = c := by
  have start : Threads.Agrees (·.lock) id (spinInit : SpinConfig θ ω α) := rfl
  constructor
  · intro labels low path
    obtain ⟨agrees,labels',part,same,above⟩ := path.stutters (Threads.Agrees (·.lock) id)
      Threads.Config.client (!·.2.isNext)
      (fun c label next agrees _ stepped => by
        obtain ⟨kept,went | ⟨waiting,still⟩⟩ :=
          Threads.carry_step SpinLock.lawful usesLock agrees stepped
        · exact ⟨kept,.inl went⟩
        · exact ⟨kept,.inr ⟨by simpa using (Bool.and_eq_true_iff.mp waiting).2,still⟩⟩)
      start
    obtain ⟨a,_,threads⟩ := reachable_holds above
    have held (t : θ) : low.shared.1.lock = some t ↔ (low.locals t).1.critical = true := (threads t).lock
    have waiting {t : θ} (locking : (low.locals t).1.locking = true) :
        wantsLock (low.locals t).1 (Label.next : Label ω α) = true := by simp [wantsLock,locking,Label.isNext]
    refine ⟨⟨labels',part,same,above⟩,?_,fun t u mine other => ?_,fun t locking => ?_,
      fun free t locking => ?_⟩
    · rw [show low.shared.2 = low.shared.1.lock.isSome from agrees,Option.isSome_iff_exists]
      exact exists_congr held
    · have holder := (held t).mpr mine
      rw [(held u).mpr other] at holder
      exact (Option.some.inj holder).symm
    · exact Threads.carry_enabled SpinLock.lawful usesLock agrees (waiting locking)
    · exact Threads.carry_gets SpinLock.lawful usesLock agrees (waiting locking)
        (SpinLock.lawful.gets free _)
  · intro labels c path
    exact Threads.carry_matches_run SpinLock.lawful usesLock path start (fun _ => rfl) rfl

/-- A thread that suspends holds the lock, another one calls `wake_one` and loads the flag twice. -/
def spinTrace : List (Bool × Label Nat Unit) :=
  [(true,.call (.wait 0)),(true,.interrupted false),(true,.next),(true,.next),(false,.call (.wakeOne ())),
    (false,.next),(false,.next),(false,.next),(false,.next)]

theorem spin_refines_waiting : ∃ low, Transition.run spinStep spinTrace spinInit = some low ∧
    (low.locals false).2 = .load 94 ∧ OnSpinLock spinTrace low ∧
    ∃ c, Transition.run step (spinTrace.take 6) init = some c ∧
      ∃ low, Transition.Path spinStep Transition.anyStep spinInit (spinTrace.take 6) low ∧
        low.client = c := by
  refine ⟨_,rfl,rfl,spin_refines.1 _ _ (Transition.run_path (fun _ _ _ => trivial) rfl),_,rfl,?_⟩
  exact spin_refines.2 _ _ (Transition.run_path (fun _ _ _ => trivial) rfl)

end XxCore.Sync.WaitList
