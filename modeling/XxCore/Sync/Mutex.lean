import XxCore.Sync.WaitListSteps

/-! The async mutex (`async_std/sync/mutex.rs`): its state word, its wait list and its poison flag.
A step of a task is a step of the list or one access of its own; the guard is created in the step
that acquires the lock, because nothing shared is accessed in between. -/
namespace XxCore.Sync

namespace Mutex

inductive State where
  | unlocked
  | locked
  | contended
  deriving DecidableEq, Repr

end Mutex

/-- `guards` and `given` are history: the number of guards that exist, and of those that a caller
has and may drop. -/
structure Mutex (θ ω : Type) where
  state : Mutex.State
  waitList : WaitList θ ω Unit
  poisoned : Bool
  guards : Nat
  given : Nat

namespace Mutex

variable {θ ω : Type}

def new : Mutex θ ω := ⟨.unlocked,.new,false,0,0⟩

/-- `try_lock`, `lock` and `blocking_lock_cancellable`. -/
inductive LockCall where
  | tryLock
  | lock
  | blockingLock
  deriving DecidableEq

inductive Call (ω : Type) where
  | lock (call : LockCall)
  /-- the drop of a guard, by whoever has it -/
  | drop
  | clearPoison
  /-- the interrupt of a task that waits -/
  | cancel (waiter : ω)

inductive Returned where
  | guard (poisoned : Bool)
  | wouldBlock
  | unit

/-- The next step of a task. -/
inductive Main where
  | idle
  | returned (result : Returned)
  | tryLockInternal (call : LockCall)
  -- `try_spin_lock`, with the loads that are left after the next one
  | spin (call : LockCall) (left : Nat)
  | swap (call : LockCall)
  | isInterrupted (call : LockCall)
  | wait (call : LockCall)
  -- `poison.map` of the new guard
  | mapGuard
  -- the drop of a guard
  | finish
  | unlock
  | wakeOne
  | cancel

/-- `woken` is history: a `wake_one` has completed the task's wait, and the task has not run
`try_spin_lock` since. -/
structure Local (ω : Type) where
  main : Main
  list : WaitList.Pc ω Unit
  woken : Bool

inductive Label (ω : Type) where
  | call (call : Call ω)
  | list (label : WaitList.Label ω Unit)
  | interrupted
  /-- the task is not interrupted and waits with a new waiter -/
  | wait (waiter : ω)
  /-- whether the task panicked while it had the guard -/
  | panicking (panicking : Bool)
  | next

def Local.goto (l : Local ω) (main : Main) : Local ω := { l with main }

/-- The exchange or swap of `state` that acquires the lock. -/
def acquire (l : Local ω) (s : Mutex θ ω) (state : State) : Local ω × Mutex θ ω :=
  ({ l with main := .mapGuard, woken := false },{ s with state, guards := s.guards + 1 })

/-- What `try_spin_lock` does after a load. -/
def afterLoad (call : LockCall) (left : Nat) (l : Local ω) : State → Local ω
  | .unlocked => l.goto (.swap call)
  | .locked =>
    match left with
    | 0 => l.goto (.swap call)
    | left + 1 => l.goto (.spin call left)
  | .contended => { l with main := .isInterrupted call, woken := false }

/-- A call of the list has returned. -/
def isReturned : WaitList.Pc ω Unit → Bool
  | .returned _ => true
  | _ => false

/-- A task whose wait was completed by `wake_one` takes note of it. -/
def noteWoken (before after : WaitList.Pc ω Unit) (woken : Bool) : Bool :=
  match before, after with
  | .parked _, .subCount (.ok _) => true
  | _, _ => woken

variable [DecidableEq θ] [DecidableEq ω]

/-- A step of the call of the list that the task is in; after it the task goes on to `main`. -/
def runList (t : θ) (label : WaitList.Label ω Unit) (main : Main) (l : Local ω) (s : Mutex θ ω) :
    Option (Local ω × Mutex θ ω) :=
  (WaitList.prog t label l.list s.waitList).map fun p =>
    (⟨if isReturned p.1 then main else l.main,p.1,noteWoken l.list p.1 l.woken⟩,
      { s with waitList := p.2 })

/-- A call of the list. -/
def callList (t : θ) (call : WaitList.Call ω Unit) (main : Main) (l : Local ω) (s : Mutex θ ω) :
    Option (Local ω × Mutex θ ω) :=
  (WaitList.prog t (.call call) l.list s.waitList).map fun p =>
    (⟨main,p.1,l.woken⟩,{ s with waitList := p.2 })

def start (t : θ) (l : Local ω) (s : Mutex θ ω) : Call ω → Option (Local ω × Mutex θ ω)
  | .lock call => some (l.goto (.tryLockInternal call),s)
  | .drop => if s.given = 0 then none else some (l.goto .finish,{ s with given := s.given - 1 })
  | .clearPoison => some (l.goto (.returned .unit),{ s with poisoned := false })
  | .cancel w => callList t (.cancel w) .cancel l s

def lockStep (t : θ) (l : Local ω) (s : Mutex θ ω) :
    Main → Label ω → Option (Local ω × Mutex θ ω)
  | .tryLockInternal call, .next =>
    if s.state = .unlocked then some (acquire l s .locked)
    else if call = .tryLock then some (l.goto (.returned .wouldBlock),s)
    else some (l.goto (.spin call 96),s)
  | .spin call left, .next => some (afterLoad call left l s.state,s)
  | .swap call, .next =>
    if s.state = .unlocked then some (acquire l s .contended)
    else some ({ l with main := .isInterrupted call, woken := false },{ s with state := .contended })
  | .isInterrupted _, .interrupted => some (l.goto (.returned .wouldBlock),s)
  | .isInterrupted call, .wait w => callList t (.wait w) (.wait call) l s
  | .wait call, .list label =>
    match l.list, call, label with
    | .shouldBlock _, _, _ => none
    -- `blocking_wait` does not call `check_interrupt`
    | .checkInterrupt _, .blockingLock, .interrupted true => none
    | _, _, _ => runList t label (.spin call 96) l s
  | .wait call, .next =>
    match l.list with
    | .shouldBlock _ => runList t (.block (decide (s.state = .contended))) (.spin call 96) l s
    | _ => none
  | .mapGuard, .next =>
    some (l.goto (.returned (.guard s.poisoned)),{ s with given := s.given + 1 })
  | _, _ => none

def unlockStep (t : θ) (l : Local ω) (s : Mutex θ ω) :
    Main → Label ω → Option (Local ω × Mutex θ ω)
  | .finish, .panicking panicking =>
    some (l.goto .unlock,{ s with poisoned := s.poisoned || panicking })
  | .unlock, .next =>
    let s' := { s with state := .unlocked, guards := s.guards - 1 }
    if s.state = .contended then callList t (.wakeOne ()) .wakeOne l s'
    else some (l.goto (.returned .unit),s')
  | .wakeOne, .list label => runList t label (.returned .unit) l s
  | .cancel, .list label => runList t label (.returned .unit) l s
  | _, _ => none

/-- One atomic step of a task. -/
def prog : Threads.Program θ (Label ω) (Local ω) (Mutex θ ω) := fun t label l s =>
  match l.main with
  | .idle | .returned _ =>
    match label with
    | .call call => start t l s call
    | _ => none
  | .finish | .unlock | .wakeOne | .cancel => unlockStep t l s l.main label
  | _ => lockStep t l s l.main label

abbrev Config (θ ω : Type) := Threads.Config θ (Mutex θ ω) (Local ω)

def step : Config θ ω → θ × Label ω → Option (Config θ ω) := Threads.step prog

def init : Config θ ω := ⟨new,fun _ => ⟨.idle,.idle,false⟩⟩

def Main.isFree : Main → Bool
  | .idle | .returned _ => true
  | _ => false

/-- Everything a task can do in one step. -/
inductive Step (t : θ) (l : Local ω) (s : Mutex θ ω) :
    Label ω → Local ω → Mutex θ ω → Prop where
  | lock (free : l.main.isFree = true) :
    Step t l s (.call (.lock call)) (l.goto (.tryLockInternal call)) s
  | drop (free : l.main.isFree = true) (given : 0 < s.given) :
    Step t l s (.call .drop) (l.goto .finish) { s with given := s.given - 1 }
  | clearPoison (free : l.main.isFree = true) :
    Step t l s (.call .clearPoison) (l.goto (.returned .unit)) { s with poisoned := false }
  | callCancel (free : l.main.isFree = true)
    (ran : WaitList.prog t (.call (.cancel w)) l.list s.waitList = some (pc,list)) :
    Step t l s (.call (.cancel w)) ⟨.cancel,pc,l.woken⟩ { s with waitList := list }
  | acquire (main : l.main = .tryLockInternal call) (unlocked : s.state = .unlocked) :
    Step t l s .next (Mutex.acquire l s .locked).1 (Mutex.acquire l s .locked).2
  | fail (main : l.main = .tryLockInternal call) :
    Step t l s .next (l.goto (.returned .wouldBlock)) s
  | contend (main : l.main = .tryLockInternal call) : Step t l s .next (l.goto (.spin call 96)) s
  | loadUnlocked (main : l.main = .spin call left) : Step t l s .next (l.goto (.swap call)) s
  | loadLocked (main : l.main = .spin call (left + 1)) :
    Step t l s .next (l.goto (.spin call left)) s
  | loadContended (main : l.main = .spin call left) (contended : s.state = .contended) :
    Step t l s .next { l with main := .isInterrupted call, woken := false } s
  | swap (main : l.main = .swap call) (unlocked : s.state = .unlocked) :
    Step t l s .next (Mutex.acquire l s .contended).1 (Mutex.acquire l s .contended).2
  | swapLocked (main : l.main = .swap call) (locked : s.state ≠ .unlocked) :
    Step t l s .next { l with main := .isInterrupted call, woken := false }
      { s with state := .contended }
  | interrupted (main : l.main = .isInterrupted call) :
    Step t l s .interrupted (l.goto (.returned .wouldBlock)) s
  | startWait (main : l.main = .isInterrupted call)
    (ran : WaitList.prog t (.call (.wait w)) l.list s.waitList = some (pc,list)) :
    Step t l s (.wait w) ⟨.wait call,pc,l.woken⟩ { s with waitList := list }
  | block (main : l.main = .wait call) (at_ : l.list = .shouldBlock w)
    (contended : s.state = .contended) : Step t l s .next ⟨.wait call,.append w,l.woken⟩ s
  | noBlock (main : l.main = .wait call) (at_ : l.list = .shouldBlock w) :
    Step t l s .next ⟨.wait call,.dropEmpty w,l.woken⟩ s
  | resume (main : l.main = .wait call) (at_ : l.list = .parked w)
    (ran : WaitList.prog t choice (.parked w) s.waitList = some (.subCount (.ok value),list)) :
    Step t l s (.list choice) ⟨.wait call,.subCount (.ok value),true⟩ { s with waitList := list }
  | wait (main : l.main = .wait call)
    (ran : WaitList.prog t choice l.list s.waitList = some (pc,list))
    (quiet : ∀ w, l.list ≠ .shouldBlock w)
    (blocked : ∀ w, l.list = .parked w → ∀ value, pc ≠ .subCount (.ok value)) :
    Step t l s (.list choice) ⟨if isReturned pc then .spin call 96 else .wait call,pc,l.woken⟩
      { s with waitList := list }
  | mapGuard (main : l.main = .mapGuard) :
    Step t l s .next (l.goto (.returned (.guard s.poisoned))) { s with given := s.given + 1 }
  | finish (main : l.main = .finish) : Step t l s (.panicking panicking) (l.goto .unlock)
      { s with poisoned := s.poisoned || panicking }
  | unlock (main : l.main = .unlock) (quiet : s.state ≠ .contended) :
    Step t l s .next (l.goto (.returned .unit))
      { s with state := .unlocked, guards := s.guards - 1 }
  | startWake (main : l.main = .unlock) (contended : s.state = .contended)
    (ran : WaitList.prog t (.call (.wakeOne ())) l.list s.waitList = some (pc,list)) :
    Step t l s .next ⟨.wakeOne,pc,l.woken⟩
      { s with state := .unlocked, guards := s.guards - 1, waitList := list }
  | wakeOne (main : l.main = .wakeOne)
    (ran : WaitList.prog t choice l.list s.waitList = some (pc,list)) :
    Step t l s (.list choice)
      ⟨if isReturned pc then .returned .unit else .wakeOne,pc,noteWoken l.list pc l.woken⟩
      { s with waitList := list }
  | cancel (main : l.main = .cancel)
    (ran : WaitList.prog t choice l.list s.waitList = some (pc,list)) :
    Step t l s (.list choice)
      ⟨if isReturned pc then .returned .unit else .cancel,pc,noteWoken l.list pc l.woken⟩
      { s with waitList := list }

theorem callList_eq_some {t : θ} {call : WaitList.Call ω Unit} {main : Main} {l l' : Local ω}
    {s s' : Mutex θ ω} (ran : callList t call main l s = some (l',s')) :
    ∃ pc list, WaitList.prog t (.call call) l.list s.waitList = some (pc,list) ∧
      l' = ⟨main,pc,l.woken⟩ ∧ s' = { s with waitList := list } := by
  obtain ⟨⟨pc,list⟩,exec,eq⟩ := Option.map_eq_some_iff.mp ran
  obtain ⟨rfl,rfl⟩ := Prod.mk.inj eq
  exact ⟨pc,list,exec,rfl,rfl⟩

theorem runList_eq_some {t : θ} {label : WaitList.Label ω Unit} {main : Main} {l l' : Local ω}
    {s s' : Mutex θ ω} (ran : runList t label main l s = some (l',s')) :
    ∃ pc list, WaitList.prog t label l.list s.waitList = some (pc,list) ∧
      l' = ⟨if isReturned pc then main else l.main,pc,noteWoken l.list pc l.woken⟩ ∧
      s' = { s with waitList := list } := by
  obtain ⟨⟨pc,list⟩,exec,eq⟩ := Option.map_eq_some_iff.mp ran
  obtain ⟨rfl,rfl⟩ := Prod.mk.inj eq
  exact ⟨pc,list,exec,rfl,rfl⟩

theorem noteWoken_eq {before after : WaitList.Pc ω Unit} {woken : Bool}
    (other : ∀ w, before = .parked w → ∀ value, after ≠ .subCount (.ok value)) :
    noteWoken before after woken = woken := by
  unfold noteWoken
  split
  · exact absurd rfl (other _ rfl _)
  · rfl

theorem start_step {t : θ} {l l' : Local ω} {s s' : Mutex θ ω} {call : Call ω}
    (free : l.main.isFree = true) (started : start t l s call = some (l',s')) :
    Step t l s (.call call) l' s' := by
  cases call with
  | lock call =>
    obtain ⟨rfl,rfl⟩ := Prod.mk.inj (Option.some.inj started)
    exact .lock free
  | drop =>
    rw [start,Option.ite_none_left_eq_some] at started
    obtain ⟨rfl,rfl⟩ := Prod.mk.inj (Option.some.inj started.2)
    exact .drop free (Nat.pos_of_ne_zero started.1)
  | clearPoison =>
    obtain ⟨rfl,rfl⟩ := Prod.mk.inj (Option.some.inj started)
    exact .clearPoison free
  | cancel w =>
    obtain ⟨pc,list,ran,rfl,rfl⟩ := callList_eq_some started
    exact .callCancel free ran

/-- A step of `wait` that is not the one of `should_block`. -/
theorem wait_step {t : θ} {l l' : Local ω} {s s' : Mutex θ ω} {call : LockCall}
    {choice : WaitList.Label ω Unit} (main : l.main = .wait call)
    (quiet : ∀ w, l.list ≠ .shouldBlock w)
    (ran : runList t choice (.spin call 96) l s = some (l',s')) :
    Step t l s (.list choice) l' s' := by
  obtain ⟨pc,list,exec,rfl,rfl⟩ := runList_eq_some ran
  by_cases resumes : ∃ w value, l.list = .parked w ∧ pc = .subCount (.ok value)
  · obtain ⟨w,value,at_,rfl⟩ := resumes
    rw [main]
    simp only [at_,noteWoken]
    exact .resume main at_ (at_ ▸ exec)
  · have other (w : ω) (at_ : l.list = .parked w) (value : MaybePanic Unit) :
        pc ≠ .subCount (.ok value) := fun eq => resumes ⟨w,value,at_,eq⟩
    rw [noteWoken_eq other,main]
    exact .wait main exec quiet other

theorem lock_step {t : θ} {label : Label ω} {l l' : Local ω} {s s' : Mutex θ ω} {main : Main}
    (at_ : l.main = main) (stepped : lockStep t l s main label = some (l',s')) :
    Step t l s label l' s' := by
  unfold lockStep at stepped
  split at stepped
  · split at stepped
    · rename_i unlocked
      obtain ⟨rfl,rfl⟩ := Prod.mk.inj (Option.some.inj stepped)
      exact .acquire at_ unlocked
    · split at stepped
      all_goals obtain ⟨rfl,rfl⟩ := Prod.mk.inj (Option.some.inj stepped)
      · exact .fail at_
      · exact .contend at_
  · rename_i call left
    obtain ⟨rfl,rfl⟩ := Prod.mk.inj (Option.some.inj stepped)
    cases state : s.state with
    | unlocked => exact .loadUnlocked at_
    | locked =>
      cases left with
      | zero => exact .loadUnlocked at_
      | succ left => exact .loadLocked at_
    | contended => exact .loadContended at_ state
  · split at stepped
    all_goals
      rename_i state
      obtain ⟨rfl,rfl⟩ := Prod.mk.inj (Option.some.inj stepped)
    · exact .swap at_ state
    · exact .swapLocked at_ state
  · obtain ⟨rfl,rfl⟩ := Prod.mk.inj (Option.some.inj stepped)
    exact .interrupted at_
  · obtain ⟨pc,list,ran,rfl,rfl⟩ := callList_eq_some stepped
    exact .startWait at_ ran
  · split at stepped
    · contradiction
    · contradiction
    · rename_i quiet _
      exact wait_step at_ (fun w eq => quiet w eq) stepped
  · split at stepped
    · rename_i w here
      obtain ⟨pc,list,ran,rfl,rfl⟩ := runList_eq_some stepped
      rw [here] at ran
      cases contended : decide (s.state = .contended) with
      | true =>
        rw [contended] at ran
        obtain ⟨rfl,rfl⟩ := Prod.mk.inj (Option.some.inj ran)
        rw [at_,noteWoken_eq (by simp [here])]
        exact .block at_ here (of_decide_eq_true contended)
      | false =>
        rw [contended] at ran
        obtain ⟨rfl,rfl⟩ := Prod.mk.inj (Option.some.inj ran)
        rw [at_,noteWoken_eq (by simp [here])]
        exact .noBlock at_ here
    · contradiction
  · obtain ⟨rfl,rfl⟩ := Prod.mk.inj (Option.some.inj stepped)
    exact .mapGuard at_
  · contradiction

theorem unlock_step {t : θ} {label : Label ω} {l l' : Local ω} {s s' : Mutex θ ω} {main : Main}
    (at_ : l.main = main) (stepped : unlockStep t l s main label = some (l',s')) :
    Step t l s label l' s' := by
  unfold unlockStep at stepped
  split at stepped
  · obtain ⟨rfl,rfl⟩ := Prod.mk.inj (Option.some.inj stepped)
    exact .finish at_
  · simp only at stepped
    split at stepped
    · rename_i contended
      obtain ⟨pc,list,ran,rfl,rfl⟩ := callList_eq_some stepped
      exact .startWake at_ contended ran
    · rename_i quiet
      obtain ⟨rfl,rfl⟩ := Prod.mk.inj (Option.some.inj stepped)
      exact .unlock at_ quiet
  · obtain ⟨pc,list,ran,rfl,rfl⟩ := runList_eq_some stepped
    rw [at_]
    exact .wakeOne at_ ran
  · obtain ⟨pc,list,ran,rfl,rfl⟩ := runList_eq_some stepped
    rw [at_]
    exact .cancel at_ ran
  · contradiction

theorem prog_step {t : θ} {label : Label ω} {l l' : Local ω} {s s' : Mutex θ ω}
    (stepped : prog t label l s = some (l',s')) : Step t l s label l' s' := by
  unfold prog at stepped
  split at stepped
  · rename_i main
    split at stepped
    · exact start_step (by rw [main]; rfl) stepped
    · contradiction
  · rename_i main
    split at stepped
    · exact start_step (by rw [main]; rfl) stepped
    · contradiction
  all_goals first | exact unlock_step rfl stepped | exact lock_step rfl stepped

end Mutex
end XxCore.Sync
