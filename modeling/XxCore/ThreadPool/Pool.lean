import Mathlib.Data.Fintype.Basic
import Mathlib.Logic.Function.Basic
import XxCore.Lib.History
import XxCore.Lib.Transition

/-! `threadpool/mod.rs`. What runs with the mutex of the queue held is one step, and so is each
part of a worker's turn without it. The intrusive list is the sequence of its members, and a node
is linked when its work is one of them. -/
namespace XxCore.ThreadPool

open Transition

/-- `callback` is whether the closure may still be called; a request is the number of its
submission. -/
structure Work (θ : Type) where
  callback : Bool
  request : Option Nat
  worker : Option θ
  deriving DecidableEq, Repr

def Work.new {θ : Type} : Work θ := ⟨true,none,none⟩

/-- The part of a turn of `Worker::run` without the lock, up to the completion. -/
inductive Stage where
  | calling
  | running
  | returned
  deriving DecidableEq, Repr

/-- Where a worker is. `locking` is before the first turn and in `notify.wait`, `returning`
after a completion, and each goes on with the lock. -/
inductive Phase (ω : Type) where
  | locking
  | working (stage : Stage) (work : ω) (request : Nat)
  | returning
  | exited
  deriving DecidableEq, Repr

/-- `closing` is in the drop, between the store of the flag and the lock of `cancel_all`. The
workers go on without the pool, and the queue is dropped after it. -/
inductive Pool where
  | shared
  | closing
  | dropped
  | queueDropped
  deriving DecidableEq, Repr

/-- The worker `t` is at the submission `n`. -/
inductive Event (θ ω : Type) where
  | submitted (n : Nat) (work : ω)
  | took (t : θ) (n : Nat)
  | called (t : θ) (n : Nat)
  | observed (t : θ) (n : Nat)
  | returned (t : θ) (n : Nat)
  | completed (n : Nat) (result : Bool)
  /-- `cur_work` was reset -/
  | released (t : θ)
  /-- the cancel of the submission `n` stored `cancelled` -/
  | marked (t : θ) (n : Nat)
  | resumed (n : Nat) (result : Bool)
  deriving DecidableEq, Repr

/-- The fields after `pool` are what the callers keep: the submission in progress at each
address, until its submitter resumes, and the cancels not run yet. The log is history; only
`resume` reads the result that the submitter got there. -/
structure State (θ ω : Type) where
  queue : List ω
  closed : Bool
  works : ω → Option (Work θ)
  curWork : θ → Option ω
  cancelled : θ → Bool
  phase : θ → Phase ω
  pool : Pool
  live : ω → Option Nat
  tokens : List (Nat × ω)
  submissions : Nat
  log : List (Event θ ω)

def init (θ ω : Type) : State θ ω where
  queue := []
  closed := false
  works := fun _ => none
  curWork := fun _ => none
  cancelled := fun _ => false
  phase := fun _ => .locking
  pool := .shared
  live := fun _ => none
  tokens := []
  submissions := 0
  log := []

inductive Label (θ ω : Type) where
  /-- `Work::new`, at an address that no submission uses -/
  | newWork (work : ω)
  | submit (work : ω)
  /-- the lock section of a worker -/
  | lock (t : θ)
  | call (t : θ)
  /-- the callback sees `cancelled()` -/
  | observe (t : θ)
  | return_ (t : θ)
  | complete (t : θ)
  | cancelDirect (n : Nat) (work : ω)
  /-- `ThreadPool::cancel_all`, also the end of `close` -/
  | cancelAll
  | close
  | dropPool
  /-- the `cancel_all` of the drop -/
  | dropCancel
  | dropQueue
  /-- the submitter goes on with the result -/
  | resume (work : ω) (result : Bool)
  deriving Repr

variable {θ ω : Type} [DecidableEq θ] [DecidableEq ω]

/-- `Request::complete` on the request of a work that is in no list any more. -/
def completeFalse (s : State θ ω) (work : ω) : Option (State θ ω) := do
  let record ← s.works work
  let n ← record.request
  some { s with log := .completed n false :: s.log }

/-- `cancel_all` of the list, which holds `works` still. -/
def cancelList (s : State θ ω) : List ω → Option (State θ ω)
  | [] => some { s with queue := [] }
  | work :: works => do
    let next ← completeFalse { s with queue := works } work
    cancelList next works

def cancelAll (s : State θ ω) : Option (State θ ω) := cancelList s s.queue

def submitDirect (s : State θ ω) (work : ω) (record : Work θ) : State θ ω :=
  { s with
    works := Function.update s.works work (some { record with request := some s.submissions })
    queue := s.queue ++ [work]
    live := Function.update s.live work (some s.submissions)
    tokens := (s.submissions,work) :: s.tokens
    submissions := s.submissions + 1
    log := .submitted s.submissions work :: s.log }

def cancelDirect (s : State θ ω) (n : Nat) (work : ω) : Option (State θ ω) :=
  if work ∈ s.queue then completeFalse { s with queue := s.queue.erase work } work
  else do
    let record ← s.works work
    -- a null pointer is read through
    let worker ← record.worker
    if s.curWork worker = some work then
      some { s with
        cancelled := Function.update s.cancelled worker true
        log := .marked worker n :: s.log }
    else some s

/-- `cur_work` is reset at the end of a turn. -/
def release (s : State θ ω) (t : θ) : State θ ω :=
  { s with
    curWork := Function.update s.curWork t none
    phase := Function.update s.phase t .locking
    log := .released t :: s.log }

/-- From the test of `closed` until the lock is dropped or `notify.wait` is called. -/
def takeNext (s : State θ ω) (t : θ) : Option (State θ ω) :=
  if s.closed then some { s with phase := Function.update s.phase t .exited }
  else
    match s.queue with
    | [] => some s
    | work :: queue => do
      let record ← s.works work
      let n ← record.request
      some { s with
        queue
        works := Function.update s.works work (some { record with worker := some t })
        curWork := Function.update s.curWork t (some work)
        cancelled := Function.update s.cancelled t false
        phase := Function.update s.phase t (.working .calling work n)
        log := .took t n :: s.log }

/-- A cancel may be run once, until the submitter has resumed. -/
def MayCancel (s : State θ ω) (n : Nat) (work : ω) : Prop :=
  s.pool = .shared ∧ (n,work) ∈ s.tokens ∧ s.live work = some n

instance (s : State θ ω) (n : Nat) (work : ω) : Decidable (MayCancel s n work) :=
  inferInstanceAs (Decidable (_ ∧ _ ∧ _))

/-- The queue is dropped with the last `Arc`; the pool has one, and so has each worker's thread. -/
def step [Fintype θ] (s : State θ ω) : Label θ ω → Option (State θ ω)
  | .newWork work =>
    if s.live work = none then
      some { s with works := Function.update s.works work (some .new) }
    else none
  | .submit work =>
    match s.works work with
    | some record =>
      -- a callback is not called twice
      if s.pool = .shared ∧ s.live work = none ∧ record.callback then
        some (submitDirect s work record)
      else none
    | none => none
  | .lock t =>
    match s.phase t with
    | .locking => takeNext s t
    | .returning => takeNext (release s t) t
    | _ => none
  | .call t =>
    match s.phase t with
    | .working .calling work n => do
      let record ← s.works work
      if record.callback then
        some { s with
          works := Function.update s.works work (some { record with callback := false })
          phase := Function.update s.phase t (.working .running work n)
          log := .called t n :: s.log }
      else none
    | _ => none
  | .observe t =>
    match s.phase t with
    | .working .running _ n =>
      if s.cancelled t then some { s with log := .observed t n :: s.log } else none
    | _ => none
  | .return_ t =>
    match s.phase t with
    | .working .running work n =>
      some { s with
        phase := Function.update s.phase t (.working .returned work n)
        log := .returned t n :: s.log }
    | _ => none
  | .complete t =>
    match s.phase t with
    | .working .returned _ n =>
      some { s with
        phase := Function.update s.phase t .returning
        log := .completed n true :: s.log }
    | _ => none
  | .cancelDirect n work =>
    if MayCancel s n work then
      cancelDirect { s with tokens := s.tokens.erase (n,work) } n work
    else none
  | .cancelAll => if s.pool = .shared then cancelAll s else none
  | .close => if s.pool = .shared then some { s with closed := true } else none
  | .dropPool =>
    if s.pool = .shared then some { s with closed := true, pool := .closing } else none
  | .dropCancel =>
    if s.pool = .closing then do
      let next ← cancelAll s
      some { next with pool := .dropped }
    else none
  | .dropQueue =>
    if s.pool = .dropped ∧ ∀ t, s.phase t = .exited then do
      let next ← cancelAll s
      some { next with pool := .queueDropped }
    else none
  | .resume work result =>
    match s.live work with
    | some n =>
      if .completed n result ∈ s.log then
        some { s with
          live := Function.update s.live work none
          log := .resumed n result :: s.log }
      else none
    | none => none

end XxCore.ThreadPool
