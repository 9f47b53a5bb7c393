import Mathlib.Data.Int.Basic
import XxCore.Lib.Transition

/-! `Context` of `coroutines/context.rs`: its cells, and the steps of a worker and of those who
interrupt it. The interrupt of a blocked worker runs the cancel of its future, and anything may
happen before that cancel returns. -/
namespace XxCore.Coroutines.Context

inductive InterruptError (ε : Type) where
  | alreadyInProgress
  | other (error : ε)
  deriving DecidableEq, Repr

/-- What `interrupt` and a cancel return. -/
abbrev InterruptResult (ε : Type) := Except (InterruptError ε) Unit

/-- The budget of a worker that starts to block. -/
def defaultBudget : Nat := 128

/-- `Data`, with cancels of type `κ`. -/
structure Data (κ : Type) where
  budget : Nat
  guards : Nat
  interrupted : Bool
  cancel : Option κ

variable {κ ε : Type}

namespace Data

def new : Data κ := ⟨defaultBudget,0,false,none⟩

/-- `interrupted`: this returns false while there are guards. -/
def isInterrupted (d : Data κ) : Bool := d.guards == 0 && d.interrupted

def clearInterrupt (d : Data κ) : Data κ := { d with interrupted := false }

def takeInterrupt (d : Data κ) : Bool × Data κ :=
  if d.isInterrupted then (true,d.clearInterrupt) else (false,d)

/-- `checked_add_signed` on a 32 bit counter; `none` is an abort. -/
def updateGuardCount (d : Data κ) (rel : Int) : Option (Data κ) :=
  let guards := (d.guards : Int) + rel
  if 0 ≤ guards ∧ guards.toNat < UInt32.size then some { d with guards := guards.toNat } else none

def decreaseBudget (d : Data κ) (amount : Nat) : Option Nat × Data κ :=
  let result := if amount ≤ d.budget then some (d.budget - amount) else none
  (result,{ d with budget := result.getD 0 })

/-- `block_on` of a pending future, up to `suspend`. -/
def block (d : Data κ) (cancel : κ) : Data κ :=
  { d with cancel := some cancel, budget := defaultBudget }

/-- `block_on` after `suspend`. -/
def unblock (d : Data κ) : Data κ := { d with cancel := none }

/-- `interrupt` up to its result, or up to the cancel that it runs. -/
def interrupt (d : Data κ) : (κ ⊕ InterruptResult ε) × Data κ :=
  let interrupted := d.interrupted
  let d := { d with interrupted := true }
  let result := if interrupted then .error .alreadyInProgress else .ok ()
  if 0 < d.guards then (.inr result,d)
  else match d.cancel with
    | some canceller => (.inl canceller,{ d with cancel := none })
    | none => (.inr result,d)

end Data

/-- `completed` matters for a future that another thread completes: the waker resumes later. -/
inductive Worker where
  | running
  | blocked (block : Nat) (threadSafe completed : Bool)
  deriving DecidableEq, Repr

/-- What happens, for the history; blocks and calls of `interrupt` are numbered. -/
inductive Event (ε : Type) where
  | entered (block : Nat)
  | completed (block : Nat)
  | resumed (block : Nat)
  | guarded
  | dropped
  | cleared
  | took (answer : Bool)
  | interrupted (call : Nat)
  | ran (call block : Nat)
  | cancelReturned (call : Nat) (result : InterruptResult ε)
  | returned (call : Nat) (result : InterruptResult ε)

/-- A context with its worker. `canceling` are the calls of `interrupt` whose cancel has not
returned, the innermost first; the log has the newest event first. -/
structure State (ε : Type) where
  waker : Bool
  data : Data Nat
  worker : Worker
  canceling : List Nat
  blocks : Nat
  calls : Nat
  log : List (Event ε)

def init (ε : Type) (waker : Bool) : State ε := ⟨waker,.new,.running,[],0,0,[]⟩

inductive Label (ε : Type) where
  /-- `done` if running the future completes it at once -/
  | blockOn (threadSafe done : Bool)
  | complete
  | wake
  | guard
  | dropGuard
  | clearInterrupt
  | takeInterrupt
  | decreaseBudget (amount : Nat)
  | interrupt
  | cancelReturn (result : InterruptResult ε)

/-- The worker goes on after `suspend`. -/
def resume (s : State ε) (block : Nat) : State ε :=
  { s with data := s.data.unblock, worker := .running, log := .resumed block :: s.log }

def step (s : State ε) : Label ε → Option (State ε)
  | .blockOn threadSafe done =>
    match s.worker with
    | .running =>
      -- without a waker a thread-safe block panics before it does anything
      if (threadSafe && !s.waker) || done then some s
      else some { s with
        data := s.data.block s.blocks
        worker := .blocked s.blocks threadSafe false
        blocks := s.blocks + 1
        log := .entered s.blocks :: s.log }
    | .blocked .. => none
  | .complete =>
    match s.worker with
    | .blocked block threadSafe false =>
      let s := { s with worker := .blocked block threadSafe true, log := .completed block :: s.log }
      some (if threadSafe then s else resume s block)
    | _ => none
  | .wake =>
    match s.worker with
    | .blocked block true true => some (resume s block)
    | _ => none
  | .guard => do
    let data ← s.data.updateGuardCount 1
    some { s with data, log := .guarded :: s.log }
  | .dropGuard => do
    let data ← s.data.updateGuardCount (-1)
    some { s with data, log := .dropped :: s.log }
  | .clearInterrupt => some { s with data := s.data.clearInterrupt, log := .cleared :: s.log }
  | .takeInterrupt =>
    let (answer,data) := s.data.takeInterrupt
    some { s with data, log := .took answer :: s.log }
  | .decreaseBudget amount => some { s with data := (s.data.decreaseBudget amount).2 }
  | .interrupt =>
    match s.data.interrupt with
    | (.inl block,data) =>
      some { s with
        data
        canceling := s.calls :: s.canceling
        calls := s.calls + 1
        log := .ran s.calls block :: .interrupted s.calls :: s.log }
    | (.inr result,data) =>
      some { s with
        data
        calls := s.calls + 1
        log := .returned s.calls result :: .interrupted s.calls :: s.log }
  | .cancelReturn result =>
    match s.canceling with
    | [] => none
    | call :: canceling =>
      some { s with
        canceling
        log := .returned call result :: .cancelReturned call result :: s.log }

/-! What the log says. -/

/-- The guards that were not dropped yet. -/
def held : List (Event ε) → Nat
  | [] => 0
  | .guarded :: log => held log + 1
  | .dropped :: log => held log - 1
  | _ :: log => held log

/-- An interrupt arrived since the last clear. -/
def pending : List (Event ε) → Bool
  | [] => false
  | .interrupted _ :: _ => true
  | .cleared :: _ | .took true :: _ => false
  | _ :: log => pending log

/-- A guard is dropped once. -/
def Allowed (s : State ε) : Label ε → Prop
  | .dropGuard => 0 < held s.log
  | _ => True

instance (s : State ε) : (l : Label ε) → Decidable (Allowed s l)
  | .dropGuard => inferInstanceAs (Decidable (0 < held s.log))
  | .blockOn _ _ | .complete | .wake | .guard | .clearInterrupt | .takeInterrupt
  | .decreaseBudget _ | .interrupt | .cancelReturn _ => .isTrue trivial

end XxCore.Coroutines.Context
