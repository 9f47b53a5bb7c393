import XxCore.Os.FutexNotify

/-! `block_on_sync` of `future/block_on.rs` in both configurations: the blocking thread, and the
callback that completes its request. The callback is run by any thread, also by the blocking one
inside `run` or the cancel, where that thread is at the same place until the callback returns. -/
namespace XxCore.Future

open Os Transition

/-- `Pending` holds the resume function. The union of the release build has the same two uses. -/
inductive BlockState (α : Type) where
  | pending
  | done (output : α)

inductive Party where
  | blocker
  | callback
  deriving DecidableEq

/-- Where `block_on_sync` is. The cancel handle is there in `shouldCancel`; `waiting` is in
`notify.wait` or `thread::park`, and knows whether the handle still is. -/
inductive Blocker (α : Type) where
  | running
  | shouldCancel
  | cancelling
  | waiting (cancel : Bool)
  | output
  | returned (value : α)
  /-- `output` read the state while it was `Pending` -/
  | undefined
  /-- the cancel unwound -/
  | unwound
  /-- `expect_nounwind` of an error of the futex -/
  | aborted

/-- Where `block_resume` is: after the state was completed it resumes. -/
inductive Callback where
  | idle
  | resuming
  | finished
  | aborted
  deriving DecidableEq

/-- `notify` is the `Notify` and the calls of both parties on it, `token` the park token of the
thread. `completed` is history: what the future was completed with. -/
structure State (α : Type) where
  block : BlockState α
  notify : Futex.Config Party
  token : Bool
  blocker : Blocker α
  callback : Callback
  completed : Option α

/-- A park token may be left over from before. -/
def init {α : Type} (token : Bool) : State α := ⟨.pending,Futex.init,token,.running,.idle,none⟩

inductive Label (α : Type) where
  /-- `future.run` returns -/
  | run (progress : Progress α)
  | shouldCancel (cancel : Bool)
  /-- the cancel returns, or it unwinds; its error is only logged -/
  | cancelled (unwinds : Bool)
  /-- a step of `notify.wait` -/
  | wait (label : Futex.Label)
  /-- `thread::park` returns -/
  | park (spurious : Bool)
  | output
  /-- the future runs the callback -/
  | complete (value : α)
  /-- a step of `notify.notify` -/
  | notify (label : Futex.Label)
  /-- the callback unparks the thread -/
  | unpark
  /-- any other unpark of the thread -/
  | foreign

variable {α : Type}

/-- The thread goes to wait. -/
def enter (os : Bool) (s : State α) (cancel : Bool) : Option (State α) :=
  if os then do
    let notify ← Futex.step .blocker s.notify (.blocker,.wait)
    some { s with notify, blocker := .waiting cancel }
  else some { s with blocker := .waiting cancel }

/-- The turn of the loop after `notify.wait` has returned, if it has. -/
def afterWait (s : State α) (cancel : Bool) : Option (State α) :=
  match s.notify.locals .blocker with
  | .returned (.waited (.ok true)) => some { s with blocker := .output }
  | .returned (.waited (.ok false)) =>
    if cancel then some { s with blocker := .shouldCancel } else enter true s false
  | .returned (.waited (.error _)) => some { s with blocker := .aborted }
  | _ => some s

/-- The end of `notify.notify`, if it has returned. -/
def afterNotify (s : State α) : State α :=
  match s.notify.locals .callback with
  | .returned (.notified (.ok _)) => { s with callback := .finished }
  | .returned (.notified (.error _)) => { s with callback := .aborted }
  | _ => s

/-- `BlockState::complete`, up to the call of the resume function. -/
def complete (os : Bool) (s : State α) (value : α) : Option (State α) :=
  let next := { s with block := .done value, completed := some value, callback := .resuming }
  if os then do
    let notify ← Futex.step .blocker s.notify (.callback,.notify)
    some { next with notify }
  else some next

/-- A future is completed at most once, by the callback or by what `run` returns. -/
def step (os : Bool) (s : State α) : Label α → Option (State α)
  | .run progress =>
    match s.blocker,progress with
    | .running,.pending => some { s with blocker := .shouldCancel }
    | .running,.done value =>
      if s.completed.isNone then
        some { s with blocker := .returned value, completed := some value }
      else none
    | _,_ => none
  | .shouldCancel cancel =>
    match s.blocker with
    | .shouldCancel => if cancel then some { s with blocker := .cancelling } else enter os s true
    | _ => none
  | .cancelled unwinds =>
    match s.blocker with
    | .cancelling => if unwinds then some { s with blocker := .unwound } else enter os s false
    | _ => none
  | .wait label =>
    match os,s.blocker with
    | true,.waiting cancel => do
      let notify ← Futex.step .blocker s.notify (.blocker,label)
      afterWait { s with notify } cancel
    | _,_ => none
  | .park spurious =>
    match os,s.blocker with
    | false,.waiting _ =>
      if spurious then some { s with blocker := .output }
      else if s.token then some { s with blocker := .output, token := false }
      else none
    | _,_ => none
  | .output =>
    match s.blocker,s.block with
    | .output,.done value => some { s with blocker := .returned value }
    | .output,.pending => some { s with blocker := .undefined }
    | _,_ => none
  | .complete value =>
    if s.callback = .idle ∧ s.completed.isNone then complete os s value else none
  | .notify label =>
    if os = true ∧ s.callback = .resuming then do
      let notify ← Futex.step .blocker s.notify (.callback,label)
      some (afterNotify { s with notify })
    else none
  | .unpark =>
    if os = false ∧ s.callback = .resuming then some { s with token := true, callback := .finished }
    else none
  | .foreign => if os then none else some { s with token := true }

end XxCore.Future
