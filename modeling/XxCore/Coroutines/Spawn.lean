import XxCore.Lib.Transition
import XxCore.Runtime

/-! `coroutines/spawn.rs`: one spawned task with its spawner and its `JoinHandle`. Code that is not
of this file runs inside the task, inside its cancel and inside the completion of the joiner; the
steps that it may take are the labels. -/
namespace XxCore.Coroutines.Spawn

variable {ο : Type}

/-- `SpawnData`; `SpawnResult` is `MaybePanic`. -/
inductive SpawnData (ο : Type) where
  | uninit
  | start
  | pending
  | done (result : MaybePanic ο)

/-- Whether there is a cancel and whether the waiter is not null. -/
structure SpawnHandle (ο : Type) where
  cancel : Bool
  output : Option (MaybePanic ο)
  waiter : Bool

namespace SpawnHandle

def new : SpawnHandle ο := ⟨false,none,false⟩

/-- The cancel is taken before it is run. -/
def tryCancel (handle : SpawnHandle ο) : Bool × SpawnHandle ο :=
  (handle.cancel,{ handle with cancel := false })

def isDone (handle : SpawnHandle ο) : Bool := handle.output.isSome

def requestCancel (handle : SpawnHandle ο) : Bool × SpawnHandle ο :=
  if handle.isDone then (false,handle) else handle.tryCancel

/-- The stored output, or the start of `join`. -/
def tryJoin (handle : SpawnHandle ο) : Option (MaybePanic ο) × SpawnHandle ο :=
  match handle.output with
  | some output => (some output,{ handle with output := none })
  | none => (none,{ handle with waiter := true })

/-- The output for the joiner's request, if there is one. -/
def spawnComplete (handle : SpawnHandle ο) (output : MaybePanic ο) :
    Option (MaybePanic ο) × SpawnHandle ο :=
  if handle.waiter then (some output,handle) else (none,{ handle with output := some output })

end SpawnHandle

/-- The worker of the task. `completing` is in `spawn_complete`, with the `Rc` that it took over. -/
inductive Worker where
  | created
  | running
  | suspended
  | completing
  | exited
  deriving DecidableEq, Repr

/-- Where the spawner's `Rc` is: in `Spawn::run`, in a `JoinHandle`, in the cancel of its `join`
(while the joiner is blocked, after it was completed, or once the cancel is run), or dropped. -/
inductive Holder where
  | spawning
  | held
  | joining
  | joined
  | canceling
  | dropped
  deriving DecidableEq, Repr

inductive Event (ο : Type) where
  | suspended
  | produced (output : MaybePanic ο)
  | progressDone (output : MaybePanic ο)
  | progressPending
  | requestCompleted (output : MaybePanic ο)
  | taken (output : MaybePanic ο)
  | joinerCompleted (output : MaybePanic ο)
  | cancelRun
  | intoRaw
  | fromRaw
  | released

/-- `isAsync` is the flag on the stack of the worker, `strong` the count of the `Rc`; the log is
history, with the newest event first. -/
structure State (ο : Type) where
  data : SpawnData ο
  isAsync : Bool
  handle : SpawnHandle ο
  worker : Worker
  holder : Holder
  strong : Nat
  log : List (Event ο)

def init (ο : Type) : State ο := ⟨.uninit,false,.new,.created,.spawning,1,[]⟩

inductive Label (ο : Type) where
  | start
  | suspend
  | resume
  | finish (result : MaybePanic ο)
  | completeReturn
  | spawnReturn
  | requestCancel
  | tryJoin
  | joinCancel
  /-- the cancel of `join` is dropped: the joiner goes on, or the cancel returned -/
  | dropJoin
  | dropHandle

/-- `worker_start` takes the start, and `execute` leaves its context and its flag. -/
def workerStart : SpawnData ο → Option (SpawnData ο)
  | .start => some .pending
  -- `unreachable_unchecked`
  | _ => none

/-- The worker's way from `execute` to `exit`; `Request::complete` ends in `spawn_complete`. -/
def finish (s : State ο) (result : MaybePanic ο) : State ο :=
  if s.isAsync then
    let (joiner,handle) := s.handle.spawnComplete result
    let log := .fromRaw :: .requestCompleted result :: .produced result :: s.log
    match joiner with
    | some output =>
      -- the joiner is resumed, and a cancel of its `join` is not run any more
      let holder := if s.holder = .joining then .joined else s.holder
      { s with handle, worker := .completing, holder, log := .joinerCompleted output :: log }
    | none => { s with handle, worker := .completing, log }
  else
    { s with data := .done result, worker := .exited, log := .produced result :: s.log }

/-- The end of `SpawnWorker::spawn` and of `Spawn::run`, once `Executor::start` returns. -/
def spawnReturn (s : State ο) : Option (State ο) :=
  match s.data with
  | .done result =>
    some { s with
      data := .uninit
      handle := { s.handle with output := some result }
      holder := .held
      log := .progressDone result :: s.log }
  | .pending =>
    some { s with
      data := .uninit
      isAsync := true
      handle := { s.handle with cancel := true }
      holder := .held
      strong := s.strong + 1
      log := .intoRaw :: .progressPending :: s.log }
  -- `unreachable_unchecked`
  | _ => none

/-- A cancel that was taken is run. -/
def cancel (s : State ο) (taken : Bool × SpawnHandle ο) : State ο :=
  { s with handle := taken.2, log := if taken.1 then .cancelRun :: s.log else s.log }

/-- The spawner waits for its call of `start` until the worker suspends or exits. -/
def step (s : State ο) : Label ο → Option (State ο)
  | .start =>
    match s.worker with
    | .created => do
      let data ← workerStart (ο := ο) .start
      some { s with data, worker := .running }
    | _ => none
  | .suspend =>
    match s.worker with
    | .running => some { s with worker := .suspended, log := .suspended :: s.log }
    | _ => none
  | .resume =>
    match s.worker,s.holder with
    | .suspended,.spawning => none
    | .suspended,_ => some { s with worker := .running }
    | _,_ => none
  | .finish result =>
    match s.worker with
    | .running => some (finish s result)
    | _ => none
  | .completeReturn =>
    match s.worker with
    | .completing =>
      some { s with worker := .exited, strong := s.strong - 1, log := .released :: s.log }
    | _ => none
  | .spawnReturn =>
    match s.holder,s.worker with
    | .spawning,.suspended | .spawning,.exited => spawnReturn s
    | _,_ => none
  | .requestCancel =>
    match s.holder with
    | .held => some (cancel s s.handle.requestCancel)
    | _ => none
  | .tryJoin =>
    match s.holder with
    | .held =>
      match s.handle.tryJoin with
      | (some output,handle) =>
        some { s with
          handle
          holder := .dropped
          strong := s.strong - 1
          log := .taken output :: s.log }
      | (none,handle) => some { s with handle, holder := .joining }
    | _ => none
  | .joinCancel =>
    match s.holder with
    | .joining => some { cancel s s.handle.tryCancel with holder := .canceling }
    | _ => none
  | .dropJoin =>
    match s.holder with
    | .joined | .canceling => some { s with holder := .dropped, strong := s.strong - 1 }
    | _ => none
  | .dropHandle =>
    match s.holder with
    | .held => some { s with holder := .dropped, strong := s.strong - 1 }
    | _ => none

end XxCore.Coroutines.Spawn
