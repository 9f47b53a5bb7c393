import Mathlib.Logic.Function.Basic
import XxCore.Lib.Transition
import XxCore.Runtime

/-! `coroutines/branch.rs` as a machine. Branch code runs atomically between two calls into
code of the children; what the children and the awaiting task do is chosen by the label, so
callbacks may arrive whenever child code is on the stack, or later. -/
namespace XxCore.Coroutines

inductive Child where
  | first
  | second
  deriving DecidableEq, Repr

/-- `State<F>` without the future and the cancel token, which the branch only hands on. -/
inductive State (α : Type) where
  | ready
  | pending
  | done (value : MaybePanic α)
  | empty

def State.isDone : State α → Bool
  | .done _ => true
  | _ => false

/-- `State::take_cancel`: the token is there only in `Pending`, which becomes `Empty`. -/
def State.takeCancel : State α → Bool × State α
  | .pending => (true, .empty)
  | state => (false, state)

/-- What `unreachable_unchecked!` and `assert_unsafe_precondition!` assume away. -/
inductive Fault where
  | runTwice
  | completeTwice
  | resultInProgress
  | cancelTwice
  deriving DecidableEq, Repr

structure BranchOutput (O : Child → Type) where
  isFirst : Bool
  first : Option (MaybePanic (O .first))
  second : Option (MaybePanic (O .second))

structure Branch (O : Child → Type) where
  handles : (i : Child) → State (O i)
  interruptCallback : Bool

variable {O : Child → Type} {E : Type}

def Branch.new : Branch O := ⟨fun _ => .ready, false⟩

def Branch.set (b : Branch O) (i : Child) (state : State (O i)) : Branch O :=
  { b with handles := Function.update b.handles i state }

def Branch.done (b : Branch O) (i : Child) : Bool := (b.handles i).isDone

/-- The part of `FutureHandle::run` before the call of the future. -/
def FutureHandle.take (b : Branch O) (i : Child) : Except Fault (Branch O) :=
  match b.handles i with
  | .ready => .ok (b.set i .empty)
  | _ => .error .runTwice

def FutureHandle.complete (b : Branch O) (i : Child) (value : MaybePanic (O i)) :
    Except Fault (Branch O) :=
  if b.done i then .error .completeTwice else .ok (b.set i (.done value))

/-- The part of `FutureHandle::run` after the call: a value if the future is finished. -/
def FutureHandle.progress (b : Branch O) (i : Child) :
    MaybePanic (Progress (O i)) → Except Fault (Branch O × Option (MaybePanic (O i)))
  | .ok .pending => .ok (b.set i .pending, none)
  | .ok (.done output) => do return (← complete b i (.ok output), some (.ok output))
  | .error panic => do return (← complete b i (.error panic), some (.error panic))

def FutureHandle.result (b : Branch O) (i : Child) :
    Except Fault (MaybePanic (O i) × Branch O) :=
  match b.handles i with
  | .done value => .ok (value, b.set i .empty)
  | _ => .error .resultInProgress

def FutureHandle.takeCancel (b : Branch O) (i : Child) : Bool × Branch O :=
  ((b.handles i).takeCancel.1, b.set i (b.handles i).takeCancel.2)

/-- `FutureHandle::cancel` up to the call of the token. -/
def FutureHandle.cancel (b : Branch O) (i : Child) : Except Fault (Branch O) :=
  if (takeCancel b i).1 then .ok (takeCancel b i).2 else .error .cancelTwice

/-- What a cancel token's `run` gives, an unwind included. -/
abbrev CancelResult (E : Type) := MaybePanic (Except E Unit)

/-- A call from branch code into child code, with what the branch does afterwards. -/
inductive Frame (E : Type) where
  | run (child : Child)
  /-- `Branch::run` cancels the first future because the second one is done -/
  | cancelFirst
  /-- `complete_single` cancels the other future -/
  | cancelOther
  /-- `cancel_all` runs the first token and still holds the second one, if it took it -/
  | cancelAllFirst (second : Bool)
  | cancelAllSecond (first : Option (CancelResult E))

/-- How a stretch of branch code ends. -/
inductive Next (O : Child → Type) (E : Type) where
  | callRun (child : Child)
  | callCancel (frame : Frame E) (child : Child)
  | done (output : BranchOutput O)
  | pending
  | complete (output : BranchOutput O)
  | leave
  | cancelled (result : CancelResult E)

/-- The two `result()` calls of a branch both of whose futures finished. -/
def results (b : Branch O) (isFirst : Bool) : Except Fault (Branch O × BranchOutput O) := do
  let (first, b) ← FutureHandle.result b .first
  let (second, b) ← FutureHandle.result b .second
  return (b, ⟨isFirst, some first, some second⟩)

def Child.other : Child → Child
  | .first => .second
  | .second => .first

def completeSingle (b : Branch O) (i : Child) (shouldCancel : Bool) :
    Except Fault (Branch O × Next O E) :=
  if b.interruptCallback then .ok ({ b with interruptCallback := false }, .leave)
  else if b.done .first && b.done .second then do
    -- reverse order, because this is the last future to complete
    let (b, output) ← results b (decide (i ≠ .first))
    return (b, .complete output)
  else if !shouldCancel then .ok (b, .leave)
  else do return (← FutureHandle.cancel b i.other, .callCancel .cancelOther i.other)

/-- The two predicates of the tuple `(C1, C2)`. -/
abbrev ShouldCancel (O : Child → Type) := (i : Child) → MaybePanic (O i) → Bool

/-- `complete_first` and `complete_second`, the callbacks of the two requests. -/
def completeChild (shouldCancel : ShouldCancel O) (b : Branch O) (i : Child) (value : O i) :
    Except Fault (Branch O × Next O E) := do
  completeSingle (← FutureHandle.complete b i (.ok value)) i (shouldCancel i (.ok value))

def completeFirst (shouldCancel : ShouldCancel O) (b : Branch O) (value : O .first) :
    Except Fault (Branch O × Next O E) := completeChild shouldCancel b .first value

def completeSecond (shouldCancel : ShouldCancel O) (b : Branch O) (value : O .second) :
    Except Fault (Branch O × Next O E) := completeChild shouldCancel b .second value

/-- The loop at the end of `cancel_all`: a panic is resumed, else the first error is kept. -/
def cancelAllLoop (result : Except E Unit) : List (Option (CancelResult E)) → CancelResult E
  | [] => .ok result
  | none :: rest => cancelAllLoop result rest
  | some cancel :: rest =>
    match join cancel with
    | .error panic => .error panic
    | .ok cancelResult => cancelAllLoop (if result.isOk then cancelResult else result) rest

def cancelAllResult (first second : Option (CancelResult E)) : CancelResult E :=
  cancelAllLoop (.ok ()) [first, second]

/-- Between the two tokens of `cancel_all`. -/
def cancelAllRest (second : Bool) (first : Option (CancelResult E)) : Next O E :=
  if second then .callCancel (.cancelAllSecond first) .second
  else .cancelled (cancelAllResult first none)

def cancelAll (b : Branch O) : Branch O × Next O E :=
  let (first, b) := FutureHandle.takeCancel b .first
  let (second, b) := FutureHandle.takeCancel b .second
  let b := if first && second then { b with interruptCallback := true } else b
  if first then (b, .callCancel (.cancelAllFirst second) .first)
  else (b, cancelAllRest second none)

/-- The start of `Branch::run`, up to the call of the first future. -/
def runFirst (b : Branch O) : Except Fault (Branch O × Next O E) := do
  return (← FutureHandle.take b .first, .callRun .first)

def runSecond (b : Branch O) : Except Fault (Branch O × Next O E) := do
  return (← FutureHandle.take b .second, .callRun .second)

/-- `Branch::run` once the first future's `run` returned. -/
def afterFirst (shouldCancel : ShouldCancel O) (b : Branch O)
    (progress : MaybePanic (Progress (O .first))) : Except Fault (Branch O × Next O E) := do
  match ← FutureHandle.progress b .first progress with
  | (b, some result) =>
    if shouldCancel .first result then
      let (result, b) ← FutureHandle.result b .first
      return (b, .done ⟨true, some result, none⟩)
    else runSecond b
  | (b, none) => runSecond b

/-- The `if done` at the end of `Branch::run`. -/
def finishRun (b : Branch O) (done : Bool) : Except Fault (Branch O × Next O E) :=
  if done then do
    let (b, output) ← results b done
    return (b, .done output)
  else .ok (b, .pending)

/-- `Branch::run` once the second future's `run` returned. -/
def afterSecond (shouldCancel : ShouldCancel O) (b : Branch O)
    (progress : MaybePanic (Progress (O .second))) : Except Fault (Branch O × Next O E) := do
  match ← FutureHandle.progress b .second progress with
  | (b, some result) =>
    let done := b.done .first
    if !done && shouldCancel .second result then
      let b := { b with interruptCallback := true }
      return (← FutureHandle.cancel b .first, .callCancel .cancelFirst .first)
    else finishRun b done
  | (b, none) => return (b, .pending)

/-- `Branch::run` after cancelling the first future: the flag tells whether it completed. -/
def afterCancelFirst (b : Branch O) : Except Fault (Branch O × Next O E) :=
  finishRun { b with interruptCallback := false } !b.interruptCallback

/-- Branch code after the cancel token of a frame returned. -/
def afterCancel (b : Branch O) (result : CancelResult E) :
    Frame E → Except Fault (Branch O × Next O E)
  | .cancelFirst => afterCancelFirst b
  | .cancelAllFirst second => .ok (b, cancelAllRest second (some result))
  | .cancelAllSecond first => .ok (b, .cancelled (cancelAllResult first (some result)))
  | _ => .ok (b, .leave)

/-- What the `Future` contract knows of a child. -/
inductive Life where
  | idle
  | running
  | inProgress
  | finished
  deriving DecidableEq, Repr

inductive Status where
  | fresh
  | running
  | pending
  | complete
  deriving DecidableEq, Repr

/-- The two ways a branch hands out its result. -/
inductive Yield (O : Child → Type) where
  | done (output : BranchOutput O)
  | complete (output : BranchOutput O)

def Yield.output : Yield O → BranchOutput O
  | .done output | .complete output => output

/-- One call of a cancel token, with the child's life at that moment. -/
structure CancelRun where
  child : Child
  life : Life
  deriving DecidableEq, Repr

structure World (O : Child → Type) (E : Type) where
  branch : Branch O
  stack : List (Frame E)
  life : Child → Life
  status : Status
  cancelled : Bool
  /-- what `Branch`'s own cancel returned -/
  cancelResult : Option (CancelResult E)
  yields : List (Yield O)
  /-- the children in the order in which they finished -/
  finished : List Child
  cancels : List CancelRun
  fault : Option Fault

def World.init : World O E :=
  ⟨.new, [], fun _ => .idle, .fresh, false, none, [], [], [], none⟩

inductive Label (O : Child → Type) (E : Type) where
  | start
  | runReturns (child : Child) (progress : MaybePanic (Progress (O child)))
  | callback (child : Child) (value : O child)
  | cancelReturns (result : CancelResult E)
  | cancelBranch

/-- Continue with the end of a stretch of branch code. -/
def World.resume (w : World O E) (b : Branch O) : Next O E → World O E
  | .callRun i =>
    { w with branch := b, stack := .run i :: w.stack, life := Function.update w.life i .running }
  | .callCancel frame i =>
    { w with branch := b, stack := frame :: w.stack, cancels := ⟨i,w.life i⟩ :: w.cancels }
  | .done output => { w with branch := b, status := .complete, yields := .done output :: w.yields }
  | .pending => { w with branch := b, status := .pending }
  | .complete output =>
    { w with branch := b, status := .complete, yields := .complete output :: w.yields }
  | .leave => { w with branch := b }
  | .cancelled result => { w with branch := b, cancelResult := some result }

def World.enter (w : World O E) : Except Fault (Branch O × Next O E) → World O E
  | .error fault => { w with fault := some fault }
  | .ok (b,next) => w.resume b next

/-- A child's life after its `run` returned. -/
def Life.after : MaybePanic (Progress α) → Life
  | .ok .pending => .inProgress
  | _ => .finished

def World.live (w : World O E) (i : Child) (life : Life) : World O E :=
  { w with
    life := Function.update w.life i life
    finished := if life = .finished then w.finished ++ [i] else w.finished }

/-- Branch code after the `run` of a child returned. -/
def afterRun (shouldCancel : ShouldCancel O) (b : Branch O) :
    (i : Child) → MaybePanic (Progress (O i)) → Except Fault (Branch O × Next O E)
  | .first, progress => afterFirst shouldCancel b progress
  | .second, progress => afterSecond shouldCancel b progress

/-- The guards are the `Future` contract: a callback only of a child whose `run` returned
`Pending`, and once; the branch's token only after `Pending`, before completion, and once. -/
def step (shouldCancel : ShouldCancel O) (w : World O E) (label : Label O E) :
    Option (World O E) :=
  if w.fault.isSome then none else
  match label with
  | .start =>
    if w.status = .fresh then some ({ w with status := .running }.enter (runFirst w.branch))
    else none
  | .runReturns i progress =>
    match w.stack with
    | .run j :: rest =>
      if j = i then
        some (({ w with stack := rest }.live i (.after progress)).enter
          (afterRun shouldCancel w.branch i progress))
      else none
    | _ => none
  | .callback i value =>
    if w.life i = .inProgress then
      some ((w.live i .finished).enter (completeChild shouldCancel w.branch i value))
    else none
  | .cancelReturns result =>
    match w.stack with
    | [] => none
    | .run _ :: _ => none
    | frame :: rest => some ({ w with stack := rest }.enter (afterCancel w.branch result frame))
  | .cancelBranch =>
    if w.status = .pending ∧ w.cancelled = false then
      some ({ w with cancelled := true }.enter (.ok (cancelAll w.branch)))
    else none

end XxCore.Coroutines
