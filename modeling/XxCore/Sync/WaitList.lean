import Mathlib.Data.List.Nodup
import XxCore.Lib.Threads
import XxCore.Runtime

/-! `ThreadSafeWaitList` of `async_std/sync/wait_list.rs`: each atomic access, each evaluation of
`should_block` and each list update under the lock is one step of one thread. -/
namespace XxCore.Sync

inductive WaitError where
  | cancelled
  | closed
  deriving DecidableEq, Repr

abbrev WaitResult (α : Type) := Except WaitError (MaybePanic α)

/-- The two ways a waiter gets its result: `Progress::Done` of `suspend`, or the completion of
its request. -/
inductive Resolution (α : Type) where
  | done (result : WaitResult α)
  | complete (result : WaitResult α)

/-- The list with its history. The fields after `empty` are read by no code of the list:
`entered` and `cancellable` serve the contracts of `suspend` and of its cancel. -/
structure WaitList (θ ω α : Type) where
  lock : Option θ
  list : List ω
  count : Nat
  closed : Bool
  empty : Bool
  entered : List ω
  cancellable : List ω
  appended : List ω
  resolutions : ω → List (Resolution α)
  /-- the holder of the lock at the moment a `close` took the list for empty without it -/
  overtaken : Option θ
  closeReturned : Bool

namespace WaitList

variable {θ ω α : Type}

def new : WaitList θ ω α := ⟨none,[],0,false,false,[],[],[],fun _ => [],none,false⟩

/-- What a call on the list returns. -/
inductive Returned (α : Type) where
  | waited (result : WaitResult α)
  | cancelled
  | wakeOne (woken : Bool)
  | wakeAll (count : Nat)

inductive Call (ω α : Type) where
  | wait (waiter : ω)
  | cancel (waiter : ω)
  | wakeOne (value : α)
  | wakeAll (value : α)
  | close (value : α)

/-- A call of `wake_all`, on its own or at the end of `close`. -/
structure WakeAll (α : Type) where
  value : α
  closing : Bool

/-- The next step of a thread. -/
inductive Pc (ω α : Type) where
  | idle
  | returned (value : Returned α)
  -- `wait`
  | checkInterrupt (waiter : ω)
  | addCount (waiter : ω)
  | suspendLock (waiter : ω)
  | loadClosed (waiter : ω)
  | storeEmpty (waiter : ω)
  | shouldBlock (waiter : ω)
  | dropEmpty (waiter : ω)
  | unlockDone (waiter : ω) (error : WaitError)
  | append (waiter : ω)
  | unlockPending (waiter : ω)
  | parked (waiter : ω)
  | subCount (result : WaitResult α)
  -- `cancel`
  | cancelLock (waiter : ω)
  | unlink (waiter : ω)
  | unlockUnlinked
  -- a node that this thread unlinked under the lock
  | unlockTaken (waiter : ω) (result : WaitResult α) (value : Returned α)
  | complete (waiter : ω) (result : WaitResult α) (value : Returned α)
  -- `wake_one`
  | loadEmpty (value : α)
  | wakeLock (value : α)
  | popFront (value : α)
  | unlockNone
  -- `wake_all` and `close`
  | storeClosed (value : α)
  | loadEmptyAll (all : WakeAll α)
  | loadCount (all : WakeAll α)
  | wakeAllLock (all : WakeAll α) (count : Nat)
  | popNext (all : WakeAll α) (count : Nat)
  | completeNext (all : WakeAll α) (count : Nat) (waiter : ω)
  | unlockAll (all : WakeAll α) (count : Nat)

/-- The label gives what the step takes from outside the list: the call, whether the task is
interrupted, what `should_block` returns, what cloning the value gives. -/
inductive Label (ω α : Type) where
  | call (call : Call ω α)
  | interrupted (interrupted : Bool)
  | block (block : Bool)
  | clone (value : MaybePanic α)
  | next

variable [DecidableEq θ] [DecidableEq ω]

/-- A waiter is new in `wait`; a cancel is run at most once, and not after its task resumed. -/
def start (s : WaitList θ ω α) : Call ω α → Option (Pc ω α × WaitList θ ω α)
  | .wait w => if w ∈ s.entered then none
    else some (.checkInterrupt w,{ s with entered := w :: s.entered })
  | .cancel w => if w ∈ s.cancellable then
      some (.cancelLock w,{ s with cancellable := s.cancellable.erase w })
    else none
  | .wakeOne value => some (.loadEmpty value,s)
  | .wakeAll value => some (.loadEmptyAll ⟨value,false⟩,s)
  | .close value => some (.storeClosed value,s)

/-- `SpinMutex::lock`, enabled when the lock is free. -/
def acquire (t : θ) (s : WaitList θ ω α) (pc : Pc ω α) : Option (Pc ω α × WaitList θ ω α) :=
  if s.lock = none then some (pc,{ s with lock := some t }) else none

def release (s : WaitList θ ω α) : WaitList θ ω α := { s with lock := none, overtaken := none }

def resolve (s : WaitList θ ω α) (w : ω) (resolution : Resolution α) : WaitList θ ω α :=
  { s with resolutions := Function.update s.resolutions w (s.resolutions w ++ [resolution]) }

def returnAll (s : WaitList θ ω α) (all : WakeAll α) : WaitList θ ω α :=
  { s with closeReturned := s.closeReturned || all.closing }

/-- `wait`, with `suspend` inside. -/
def waitStep (t : θ) (s : WaitList θ ω α) : Pc ω α → Label ω α → Option (Pc ω α × WaitList θ ω α)
  | .checkInterrupt w, .interrupted interrupted =>
    some (if interrupted then .returned (.waited (.error .cancelled)) else .addCount w,s)
  | .addCount w, .next => some (.suspendLock w,{ s with count := s.count + 1 })
  | .suspendLock w, .next => acquire t s (.loadClosed w)
  | .loadClosed w, .next => some (if s.closed then .unlockDone w .closed else .storeEmpty w,s)
  | .storeEmpty w, .next => some (.shouldBlock w,{ s with empty := false })
  | .shouldBlock w, .block block => some (if block then .append w else .dropEmpty w,s)
  | .dropEmpty w, .next => some (.unlockDone w .cancelled,{ s with empty := s.list.isEmpty })
  | .unlockDone w error, .next => some (.subCount (.error error),(release s).resolve w (.done (.error error)))
  | .append w, .next =>
    some (.unlockPending w,{ s with list := s.list ++ [w], appended := s.appended ++ [w] })
  | .unlockPending w, .next =>
    some (.parked w,{ release s with cancellable := w :: s.cancellable })
  | .parked w, .next =>
    match s.resolutions w with
    | .complete result :: _ =>
      some (.subCount result,{ s with cancellable := s.cancellable.erase w })
    | _ => none
  | .subCount result, .next => some (.returned (.waited result),{ s with count := s.count - 1 })
  | _, _ => none

def cancelStep (t : θ) (s : WaitList θ ω α) : Pc ω α → Label ω α → Option (Pc ω α × WaitList θ ω α)
  | .cancelLock w, .next => acquire t s (.unlink w)
  | .unlink w, .next =>
    if w ∈ s.list then
      some (.unlockTaken w (.error .cancelled) .cancelled,{ s with list := s.list.erase w })
    else some (.unlockUnlinked,s)
  | .unlockUnlinked, .next => some (.returned .cancelled,release s)
  | _, _ => none

/-- `Waiter::complete`, once the lock is released. -/
def completeStep (s : WaitList θ ω α) : Pc ω α → Label ω α → Option (Pc ω α × WaitList θ ω α)
  | .unlockTaken w result value, .next => some (.complete w result value,release s)
  | .complete w result value, .next => some (.returned value,s.resolve w (.complete result))
  | _, _ => none

def wakeOneStep (t : θ) (s : WaitList θ ω α) : Pc ω α → Label ω α → Option (Pc ω α × WaitList θ ω α)
  | .loadEmpty value, .next =>
    some (if s.empty then .returned (.wakeOne false) else .wakeLock value,s)
  | .wakeLock value, .next => acquire t s (.popFront value)
  | .popFront value, .next =>
    match s.list with
    | [] => some (.unlockNone,s)
    | w :: rest => some (.unlockTaken w (.ok (.ok value)) (.wakeOne true),{ s with list := rest })
  | .unlockNone, .next => some (.returned (.wakeOne false),release s)
  | _, _ => none

/-- `wake_all`; `close` stores the flag first. -/
def wakeAllStep (t : θ) (s : WaitList θ ω α) : Pc ω α → Label ω α → Option (Pc ω α × WaitList θ ω α)
  | .storeClosed value, .next => some (.loadEmptyAll ⟨value,true⟩,{ s with closed := true })
  | .loadEmptyAll all, .next =>
    if s.empty then
      some (.returned (.wakeAll 0),
        { s.returnAll all with overtaken := if all.closing then s.lock else s.overtaken })
    else some (.loadCount all,s)
  | .loadCount all, .next => some (.wakeAllLock all s.count,s)
  | .wakeAllLock all count, .next => acquire t s (.popNext all count)
  | .popNext all count, .next =>
    match s.list with
    | [] => some (.unlockAll all count,s)
    | w :: rest => some (.completeNext all count w,{ s with list := rest })
  | .completeNext all count w, .clone value =>
    -- the last waiter gets the value itself
    if s.list.isEmpty then some (.unlockAll all count,s.resolve w (.complete (.ok (.ok all.value))))
    else some (.popNext all count,s.resolve w (.complete (.ok value)))
  | .unlockAll all count, .next => some (.returned (.wakeAll count),(release s).returnAll all)
  | _, _ => none

/-- One atomic step of a thread. -/
def prog : Threads.Program θ (Label ω α) (Pc ω α) (WaitList θ ω α) := fun t label pc s =>
  match pc with
  | .idle | .returned _ =>
    match label with
    | .call call => start s call
    | _ => none
  | .cancelLock _ | .unlink _ | .unlockUnlinked => cancelStep t s pc label
  | .unlockTaken _ _ _ | .complete _ _ _ => completeStep s pc label
  | .loadEmpty _ | .wakeLock _ | .popFront _ | .unlockNone => wakeOneStep t s pc label
  | .storeClosed _ | .loadEmptyAll _ | .loadCount _ | .wakeAllLock _ _ | .popNext _ _
  | .completeNext _ _ _ | .unlockAll _ _ => wakeAllStep t s pc label
  | _ => waitStep t s pc label

abbrev Config (θ ω α : Type) := Threads.Config θ (WaitList θ ω α) (Pc ω α)

def step : Config θ ω α → θ × Label ω α → Option (Config θ ω α) := Threads.step prog

def init : Config θ ω α := ⟨new,fun _ => .idle⟩

end WaitList
end XxCore.Sync
