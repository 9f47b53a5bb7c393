import Mathlib.Data.List.Chain
import XxCore.Lib.Transition

/-! `coroutines/executor.rs` and the workers of `coroutines/worker.rs`: one executor, its workers by
their address, and the fiber that the processor runs. -/
namespace XxCore.Coroutines.Executor

open Transition

inductive Build where
  | debug
  | release
  deriving DecidableEq, Repr

/-- The fiber of a worker moves with it; fibers are numbered, and that of the main worker is 0. -/
structure Worker (α : Type) where
  caller : Option α
  fiber : Nat

/-- `Fiber::switch(this, to)`, made while the fiber `running` ran. -/
structure Switch where
  this : Nat
  to_ : Nat
  running : Nat
  deriving DecidableEq, Repr

/-- `entering` is a worker that was started and did not move to its own stack yet. The fields after
it are history: the fibers that resumed each other and were not left, the innermost first, the
number of workers so far, the switches, and whether an assumption of a release build failed: from
then on the behaviour is undefined, and the model goes on as if nothing had been assumed. -/
structure State (α : Type) where
  build : Build
  main : α
  current : Option α
  mem : α → Option (Worker α)
  running : Nat
  entering : Option α
  stack : List Nat
  workers : Nat
  switches : List Switch
  undefined : Bool

variable {α : Type} [DecidableEq α]

/-- The executor once it is pinned. -/
def init (build : Build) (main : α) : State α :=
  ⟨build,main,some main,Function.update (fun _ => none) main (some ⟨none,0⟩),0,none,[0],1,[],false⟩

def set (s : State α) (a : α) (worker : Option (Worker α)) : State α :=
  { s with mem := Function.update s.mem a worker }

omit [DecidableEq α] in
/-- `assert_unsafe_precondition!`: a debug build aborts (`none`), a release build assumes. -/
def assertUnsafePrecondition (s : State α) (condition : Bool) : Option (State α) :=
  if condition then some s
  else match s.build with
    | .debug => none
    | .release => some { s with undefined := true }

omit [DecidableEq α] in
/-- `Fiber::switch`, and the switch of `Fiber::exit`. -/
def switch (s : State α) (this to_ : Nat) : State α :=
  { s with running := to_, switches := ⟨this,to_,s.running⟩ :: s.switches }

/-- `None` is a pointer that is null or leads nowhere. -/
def resume (s : State α) (worker : α) : Option (State α) := do
  let previous := s.current
  let s := { s with current := some worker }
  let target ← s.mem worker
  let s ← assertUnsafePrecondition s target.caller.isNone
  let s := set s worker (some { target with caller := previous })
  let from_ ← previous.bind s.mem
  some (switch s from_.fiber target.fiber)

/-- Only a debug build clears the caller. -/
def suspend (s : State α) (worker : α) : Option (State α) := do
  let this ← s.mem worker
  let from_ := this.caller
  let s ← assertUnsafePrecondition s from_.isSome
  let s := { s with current := from_ }
  let s := match s.build with
    | .debug => set s worker (some { this with caller := none })
    | .release => s
  let to_ ← from_.bind s.mem
  some (switch s this.fiber to_.fiber)

/-- The worker is moved out of its place and dropped. -/
def exit (s : State α) (worker : α) : Option (State α) := do
  let this ← s.mem worker
  let from_ := this.caller
  let s ← assertUnsafePrecondition s from_.isSome
  let s := set { s with current := from_ } worker none
  let to_ ← from_.bind s.mem
  some (switch s this.fiber to_.fiber)

/-- `new_worker` at `worker`, then `start`. -/
def start (s : State α) (worker : α) : Option (State α) :=
  resume { set s worker (some ⟨none,s.workers⟩) with workers := s.workers + 1 } worker

/-- `worker_start` moves the worker to its own stack, where it is pinned: `worker_pinned`. -/
def pinned (s : State α) (old worker : α) : Option (State α) := do
  let this ← s.mem old
  some { set (set s old none) worker (some this) with current := some worker, entering := none }

inductive Label (α : Type) where
  | start (worker : α)
  | pinned (worker : α)
  | resume (worker : α)
  | suspend (worker : α)
  | exit (worker : α)

def step (s : State α) : Label α → Option (State α)
  | .start worker => (start s worker).map fun next =>
      { next with entering := some worker, stack := s.workers :: s.stack }
  | .pinned worker => do
    let old ← s.entering
    pinned s old worker
  | .resume worker => do
    let target ← s.mem worker
    (resume s worker).map fun next => { next with stack := target.fiber :: s.stack }
  | .suspend worker => (suspend s worker).map fun next => { next with stack := s.stack.tail }
  | .exit worker => (exit s worker).map fun next => { next with stack := s.stack.tail }

/-- A worker of this executor that is the one that runs. -/
def Runs (s : State α) (worker : α) : Prop :=
  worker ≠ s.main ∧ (s.mem worker).map Worker.fiber = some s.running

/-- The contracts: places of new workers are unused, a worker that is started moves before it does
anything else, a resumed worker is not on the stack, and only the running worker suspends or exits. -/
def Allowed (s : State α) : Label α → Prop
  | .start worker => s.entering = none ∧ s.mem worker = none
  | .pinned worker => s.entering ≠ none ∧ s.mem worker = none
  | .resume worker => s.entering = none ∧
      ∃ target, s.mem worker = some target ∧ target.fiber ∉ s.stack
  | .suspend worker => s.entering = none ∧ Runs s worker
  | .exit worker => s.entering = none ∧ Runs s worker

/-- From one worker to its caller. -/
def Calls (s : State α) (a b : α) : Prop := ∃ worker, s.mem a = some worker ∧ worker.caller = some b

/-- Following the callers from `current` leads through different workers to the main worker, which
has no caller, and these are the workers whose fibers are on the stack; the innermost one runs. -/
def Disciplined (s : State α) : Prop :=
  ∃ calls : List α, calls.head? = s.current ∧ calls.getLast? = some s.main ∧ calls.Nodup ∧
    calls.IsChain (Calls s) ∧ (∃ main, s.mem s.main = some main ∧ main.caller = none) ∧
    calls.map (fun a => (s.mem a).map Worker.fiber) = s.stack.map some ∧
    s.stack.head? = some s.running

/-- The fiber that runs switches to the one that resumed it last. -/
def Leaves (s next : State α) : Prop :=
  ∃ under rest, s.stack = s.running :: under :: rest ∧ next.stack = under :: rest ∧
    next.switches = ⟨s.running,under,s.running⟩ :: s.switches ∧ next.running = under ∧
    next.undefined = s.undefined

def isResume : Label α → Bool
  | .resume _ => true
  | _ => false

end XxCore.Coroutines.Executor
