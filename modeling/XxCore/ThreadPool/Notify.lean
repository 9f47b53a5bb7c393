import XxCore.Lib.Roster
import XxCore.ThreadPool.Pool

/-! The condition variable of the queue and `idle_count`, around the pool. What the pool has as the
phase `locking` is told apart here: a worker that waits takes the lock again only after it was
notified, or for no reason at all. -/
namespace XxCore.ThreadPool.Notify

open Transition

/-- Where a worker is as to `notify`. -/
inductive Rest where
  /-- before its first lock -/
  | fresh
  /-- at a turn, or after the loop -/
  | busy
  /-- in `notify.wait` -/
  | waiting
  /-- on its way from `notify.wait` to the lock -/
  | woken
  deriving DecidableEq, Repr

/-- Whether `idle_count` has the worker. -/
def Rest.idle : Rest → Bool
  | .busy => false
  | _ => true

/-- The worker takes the lock next without being notified again. -/
def Rest.coming : Rest → Bool
  | .fresh | .woken => true
  | _ => false

/-- `closers` are the calls of `close` between the store of the flag and the lock of
`cancel_all`. -/
structure State (θ ω : Type) where
  pool : ThreadPool.State θ ω
  idleCount : Nat
  rest : θ → Rest
  closers : Nat

/-- `idle_count` is of `threads`, and the workers are those that could be spawned. -/
def init (θ ω : Type) (threads : Nat) : State θ ω where
  pool := ThreadPool.init θ ω
  idleCount := threads
  rest := fun _ => .fresh
  closers := 0

/-- `usize` wraps. -/
def fetchAdd (count : Nat) : Nat := (count + 1) % 2^64

def fetchSub (count : Nat) : Nat := (count + (2^64 - 1)) % 2^64

inductive Label (θ ω : Type) where
  /-- which worker `notify_one` wakes, if there is one -/
  | submit (work : ω) (wakes : Option θ)
  | lock (t : θ)
  | spurious (t : θ)
  | cancelAll
  /-- the store of `close`, and its `cancel_all` -/
  | close
  | closeCancel
  | dropPool
  | dropCancel
  /-- neither the count nor the condition variable is concerned -/
  | newWork (work : ω)
  | call (t : θ)
  | observe (t : θ)
  | return_ (t : θ)
  | complete (t : θ)
  | cancelDirect (n : Nat) (work : ω)
  | dropQueue
  | resume (work : ω) (result : Bool)
  deriving Repr

/-- The step of the pool that it is. -/
def Label.pool {θ ω : Type} : Label θ ω → Option (ThreadPool.Label θ ω)
  | .submit work _ => some (.submit work)
  | .lock t => some (.lock t)
  | .spurious _ => none
  | .cancelAll => some .cancelAll
  | .close => some .close
  | .closeCancel => some .cancelAll
  | .dropPool => some .dropPool
  | .dropCancel => some .dropCancel
  | .newWork work => some (.newWork work)
  | .call t => some (.call t)
  | .observe t => some (.observe t)
  | .return_ t => some (.return_ t)
  | .complete t => some (.complete t)
  | .cancelDirect n work => some (.cancelDirect n work)
  | .dropQueue => some .dropQueue
  | .resume work result => some (.resume work result)

/-- The worker that goes on by itself. -/
def Label.turn {θ ω : Type} : Label θ ω → Option θ
  | .lock t | .call t | .return_ t | .complete t => some t
  | _ => none

variable {θ ω : Type} [DecidableEq θ] [DecidableEq ω]

def wake (s : State θ ω) (t : θ) : State θ ω :=
  { s with rest := Function.update s.rest t .woken }

variable [Fintype θ]

/-- One of those that wait is woken, unless there is none. -/
def notifyOne (s : State θ ω) : Option θ → Option (State θ ω)
  | some t => if s.rest t = .waiting then some (wake s t) else none
  | none => if ∀ t, s.rest t ≠ .waiting then some s else none

def notifyAll (s : State θ ω) : State θ ω :=
  { s with rest := fun t => if s.rest t = .waiting then .woken else s.rest t }

/-- The end of `submit_direct`, with the lock held. -/
def submitNotify (s : State θ ω) (wakes : Option θ) : Option (State θ ω) :=
  if s.idleCount ≠ 0 then notifyOne s wakes else if wakes = none then some s else none

/-- A worker leaves the count after its first lock and after each `notify.wait`, and is back in it
when there is nothing to do. -/
def lock (s : State θ ω) (t : θ) : Option (State θ ω) :=
  if s.rest t = .waiting then none
  else do
    let idleCount := if s.rest t = .busy then s.idleCount else fetchSub s.idleCount
    let pool ← step s.pool (.lock t)
    if s.pool.closed = false ∧ s.pool.queue = [] then
      some { s with
        pool
        idleCount := fetchAdd idleCount
        rest := Function.update s.rest t .waiting }
    else some { s with pool, idleCount, rest := Function.update s.rest t .busy }

/-- The pool is dropped after all calls on it. -/
def step (s : State θ ω) : Label θ ω → Option (State θ ω)
  | .submit work wakes => do
    let pool ← ThreadPool.step s.pool (.submit work)
    submitNotify { s with pool } wakes
  | .lock t => lock s t
  | .spurious t => if s.rest t = .waiting then some (wake s t) else none
  | .cancelAll => do
    let pool ← ThreadPool.step s.pool .cancelAll
    some (notifyAll { s with pool })
  | .close => do
    let pool ← ThreadPool.step s.pool .close
    some { s with pool, closers := s.closers + 1 }
  | .closeCancel =>
    if s.closers = 0 then none
    else do
      let pool ← ThreadPool.step s.pool .cancelAll
      some (notifyAll { s with pool, closers := s.closers - 1 })
  | .dropPool =>
    if s.closers = 0 then do
      let pool ← ThreadPool.step s.pool .dropPool
      some { s with pool }
    else none
  | .dropCancel => do
    let pool ← ThreadPool.step s.pool .dropCancel
    some (notifyAll { s with pool })
  | label => do
    let inner ← label.pool
    let pool ← ThreadPool.step s.pool inner
    some { s with pool }

end XxCore.ThreadPool.Notify
