import XxCore.Sync.Channel.Queue
import XxCore.Sync.WaitListSteps

/-! `MCChannel` with its senders and receivers (`async_std/sync/channel/mp.rs`): tasks that call
the queue and the two wait lists. A step of a task is a step of the part it is in, or one atomic
access of its own. -/
namespace XxCore.Sync

def Side.other : Side → Side
  | .send => .recv
  | .recv => .send

/-- A waiter of `send_wait` and `recv_wait`, or one of `send_closed`. -/
inductive Purpose where
  | retry
  | closed
  deriving DecidableEq, Repr

structure Waiter (ω : Type) where
  id : ω
  purpose : Purpose
  deriving DecidableEq

/-- `waiters` is `tx_waiters` on the side of the senders and `rx_waiters` on that of the
receivers, `count` is `tx_count` and `rx_count`. `users` and `exclusive` are the tasks that
borrow a handle of the side, shared or `&mut`. -/
structure MCChannel (θ ω V : Type) where
  queue : Queue θ V
  waiters : Side → WaitList θ (Waiter ω) Unit
  count : Side → Nat
  users : Side → List θ
  exclusive : Side → List θ

namespace MCChannel

variable {θ ω V : Type}

abbrev Op (V : Type) := Queue.Op V

/-- `bounded`, with one handle on each side. -/
def bounded (slots : Nat × (Nat → Slot V)) : MCChannel θ ω V :=
  ⟨.new slots,fun _ => .new,fun _ => 1,fun _ => [],fun _ => []⟩

inductive Call (ω V : Type) where
  /-- `try_send` and `try_recv`, or `send` and `recv` if they try `again` -/
  | op (op : Op V) (again : Bool)
  /-- `Sender::closed` -/
  | closed
  /-- `Receiver::close` -/
  | close
  | clone (side : Side)
  | drop (side : Side)
  /-- the interrupt of a task that waits -/
  | cancel (side : Side) (waiter : Waiter ω)

inductive Returned (V : Type) where
  /-- `Ok`, or the error `Full` or `Empty` -/
  | finished (outcome : Queue.Outcome V)
  /-- the error `Closed` -/
  | closed (op : Op V)
  | isClosed (closed : Bool)
  | unit

/-- The next step of a task. `seen` is history: whether the channel was closed when the queue
reported that it is full or empty. `first` is the counter that `should_block` has loaded. -/
inductive Main (V : Type) where
  | idle
  | returned (result : Returned V)
  | begin (op : Op V) (again : Bool)
  | nextSlot (op : Op V) (again : Bool)
  | startWake (op : Op V) (again : Bool)
  | wake (op : Op V) (again : Bool)
  | access (op : Op V) (again : Bool)
  | loadClosed (op : Op V) (again : Bool) (seen : Bool)
  | isInterrupted (op : Op V)
  | backoff (op : Op V)
  | wait (op : Op V) (first : Option (Word × Nat))
  | closed
  | sendClosed
  | startClose (side : Side)
  | close (side : Side)
  | cancel (side : Side)

/-- `woken` is history: the task was woken to try again, and has not claimed a slot since. -/
structure Local (ω V : Type) where
  main : Main V
  queue : Queue.Local V
  waits : Side → WaitList.Pc (Waiter ω) Unit
  woken : Bool

inductive Label (ω V : Type) where
  | call (call : Call ω V)
  | queue (label : Queue.Label V)
  | list (label : WaitList.Label (Waiter ω) Unit)
  | interrupted (interrupted : Bool)
  /-- after a failed attempt: back off, or wait with a new waiter -/
  | snooze
  | wait (id : ω)
  | next

/-- Another handle than those that are borrowed exclusively. -/
def mayShare (s : MCChannel θ ω V) (side : Side) : Bool :=
  decide ((s.exclusive side).length < s.count side)

/-- A handle that nobody borrows. -/
def mayOwn (s : MCChannel θ ω V) (side : Side) : Bool :=
  decide ((s.exclusive side).length + (if (s.users side).isEmpty then 0 else 1) < s.count side)

def share (t : θ) (s : MCChannel θ ω V) (side : Side) : MCChannel θ ω V :=
  { s with users := Function.update s.users side (t :: s.users side) }

def setCount (s : MCChannel θ ω V) (side : Side) (count : Nat) : MCChannel θ ω V :=
  { s with count := Function.update s.count side count }

/-- The value that `should_block` compares with zero, from the counter it loaded before:
`len` for a receiver, `spare_capacity` for a sender. -/
def remaining (s : MCChannel θ ω V) : Side → Word → Word
  | .recv, head => s.queue.counter .send - head
  | .send, tail => s.queue.counter .recv + BitVec.ofNat 64 s.queue.capacity - tail

def Local.goto (l : Local ω V) (main : Main V) : Local ω V := { l with main }

def Local.setWait (l : Local ω V) (side : Side) (pc : WaitList.Pc (Waiter ω) Unit) : Local ω V :=
  { l with waits := Function.update l.waits side pc }

def setList (s : MCChannel θ ω V) (side : Side) (list : WaitList θ (Waiter ω) Unit) :
    MCChannel θ ω V :=
  { s with waiters := Function.update s.waiters side list }

def runQueue (t : θ) (label : Queue.Label V) (l : Local ω V) (s : MCChannel θ ω V) :
    Option (Local ω V × MCChannel θ ω V) :=
  (Queue.prog t label l.queue s.queue).map fun next =>
    ({ l with queue := next.1 },{ s with queue := next.2 })

variable [DecidableEq θ] [DecidableEq ω]

/-- The end of a call gives its handle back. -/
def leave (t : θ) (l : Local ω V) (s : MCChannel θ ω V) (result : Returned V) :
    Local ω V × MCChannel θ ω V :=
  ({ l with main := .returned result, woken := false },
    { s with
      users := fun side => (s.users side).erase t
      exclusive := fun side => (s.exclusive side).erase t })

def runList (t : θ) (side : Side) (label : WaitList.Label (Waiter ω) Unit) (l : Local ω V)
    (s : MCChannel θ ω V) : Option (Local ω V × MCChannel θ ω V) :=
  (WaitList.prog t label (l.waits side) (s.waiters side)).map fun next =>
    (l.setWait side next.1,s.setList side next.2)

/-- A call of a list has returned. -/
def isReturned : WaitList.Pc (Waiter ω) Unit → Bool
  | .returned _ => true
  | _ => false

/-- The call of a list goes on until it returns. -/
def untilReturned (side : Side) (main : Main V) (p : Local ω V × MCChannel θ ω V) :
    Local ω V × MCChannel θ ω V :=
  if isReturned (p.1.waits side) then (p.1.goto main,p.2) else p

def start (t : θ) (l : Local ω V) (s : MCChannel θ ω V) :
    Call ω V → Option (Local ω V × MCChannel θ ω V)
  | .op op again =>
    if s.mayShare op.side then some (l.goto (.begin op again),share t s op.side) else none
  | .closed =>
    if s.mayOwn .send then
      some (l.goto .closed,
        { s with exclusive := Function.update s.exclusive .send (t :: s.exclusive .send) })
    else none
  | .close => if s.mayShare .recv then some (l.goto (.startClose .send),share t s .recv) else none
  | .clone side =>
    if s.mayShare side then some (l.goto (.returned .unit),s.setCount side (s.count side + 1))
    else none
  | .drop side =>
    if s.mayOwn side then
      some (l.goto (if s.count side = 1 then .startClose side.other else .returned .unit),
        s.setCount side (s.count side - 1))
    else none
  | .cancel side waiter =>
    (runList t side (.call (.cancel waiter)) l s).map fun p => (p.1.goto (.cancel side),p.2)

/-- `try_send` and `try_recv`, with `next_slot` and the wake-up inside. -/
def tryStep (t : θ) (l : Local ω V) (s : MCChannel θ ω V) :
    Main V → Label ω V → Option (Local ω V × MCChannel θ ω V)
  | .begin op again, .next =>
    if op.side = .send ∧ (s.waiters .send).closed then some (leave t l s (.closed op))
    else (runQueue t (.call op) l s).map fun p => (p.1.goto (.nextSlot op again),p.2)
  | .nextSlot op again, .queue label =>
    (runQueue t label l s).map fun p =>
      match p.1.queue.pc with
      | .success _ _ _ => ({ p.1.goto (.startWake op again) with woken := false },p.2)
      | .returned _ => (p.1.goto (.loadClosed op again (s.waiters op.side).closed),p.2)
      | _ => p
  | .startWake op again, .next =>
    (runList t op.side.other (.call (.wakeOne ())) l s).map fun p => (p.1.goto (.wake op again),p.2)
  | .wake op again, .list label =>
    (runList t op.side.other label l s).map (untilReturned op.side.other (.access op again))
  | .access _ _, .queue label =>
    (runQueue t label l s).map fun p =>
      match p.1.queue.pc with
      | .returned outcome => leave t p.1 p.2 (.finished outcome)
      | _ => p
  | .loadClosed op again _, .next =>
    if (s.waiters op.side).closed then some (leave t l s (.closed op))
    else if again then some (l.goto (.isInterrupted op),s)
    else some (leave t l s (.finished op.failure))
  | _, _ => none

/-- A task whose wait was completed takes note of it. -/
def noteWoken (op : Op V) (before : WaitList.Pc (Waiter ω) Unit)
    (p : Local ω V × MCChannel θ ω V) : Local ω V × MCChannel θ ω V :=
  match before, p.1.waits op.side with
  | .parked _, .subCount (.ok _) => ({ p.1 with woken := true },p.2)
  | _, _ => p

/-- What `send` and `recv` do when `try_send` or `try_recv` failed. -/
def retryStep (t : θ) (l : Local ω V) (s : MCChannel θ ω V) :
    Main V → Label ω V → Option (Local ω V × MCChannel θ ω V)
  | .isInterrupted op, .interrupted interrupted =>
    if interrupted then some (leave t l s (.finished op.failure)) else some (l.goto (.backoff op),s)
  | .backoff op, .snooze => some (l.goto (.begin op true),s)
  | .backoff op, .wait id =>
    (runList t op.side (.call (.wait ⟨id,.retry⟩)) l s).map fun p => (p.1.goto (.wait op none),p.2)
  | .wait op _, .list label =>
    match l.waits op.side with
    | .shouldBlock _ => none
    | before => (runList t op.side label l s).map fun p =>
      untilReturned op.side (.begin op true) (noteWoken op before p)
  | .wait op first, .next =>
    match l.waits op.side, first with
    | .shouldBlock _, none =>
      some (l.goto (.wait op (some (s.queue.counter op.side,s.queue.claims op.side))),s)
    | .shouldBlock _, some (pos,_) =>
      let block := decide (s.remaining op.side pos = 0)
      (runList t op.side (.block block) l s).map fun p =>
        ({ p.1 with main := .wait op none, woken := p.1.woken && !block },p.2)
    | _, _ => none
  | _, _ => none

/-- `Sender::closed`, whose waiters block in any case. -/
def closedStep (t : θ) (l : Local ω V) (s : MCChannel θ ω V) :
    Main V → Label ω V → Option (Local ω V × MCChannel θ ω V)
  | .closed, .wait id =>
    if (s.waiters .send).closed then some (leave t l s (.isClosed true))
    else (runList t .send (.call (.wait ⟨id,.closed⟩)) l s).map fun p => (p.1.goto .sendClosed,p.2)
  | .sendClosed, .list label =>
    match l.waits .send with
    | .shouldBlock _ => runList t .send (.block true) l s
    | _ => (runList t .send label l s).map fun p =>
      match p.1.waits .send with
      | .returned (.waited (.error .cancelled)) => leave t p.1 p.2 (.isClosed false)
      | .returned _ => (p.1.goto .closed,p.2)
      | _ => p
  | _, _ => none

/-- `close_send` and `close_recv`, and the cancel of a waiter. -/
def closeStep (t : θ) (l : Local ω V) (s : MCChannel θ ω V) :
    Main V → Label ω V → Option (Local ω V × MCChannel θ ω V)
  | .startClose side, .next =>
    (runList t side (.call (.close ())) l s).map fun p => (p.1.goto (.close side),p.2)
  | .close side, .list label =>
    (runList t side label l s).map fun p =>
      if isReturned (p.1.waits side) then leave t p.1 p.2 .unit else p
  | .cancel side, .list label =>
    (runList t side label l s).map fun p =>
      if isReturned (p.1.waits side) then leave t p.1 p.2 .unit else p
  | _, _ => none

/-- One atomic step of a task. -/
def prog : Threads.Program θ (Label ω V) (Local ω V) (MCChannel θ ω V) := fun t label l s =>
  match l.main with
  | .idle | .returned _ =>
    match label with
    | .call call => start t l s call
    | _ => none
  | .isInterrupted _ | .backoff _ | .wait _ _ => retryStep t l s l.main label
  | .closed | .sendClosed => closedStep t l s l.main label
  | .startClose _ | .close _ | .cancel _ => closeStep t l s l.main label
  | _ => tryStep t l s l.main label

abbrev Config (θ ω V : Type) := Threads.Config θ (MCChannel θ ω V) (Local ω V)

def step : Config θ ω V → θ × Label ω V → Option (Config θ ω V) := Threads.step prog

def init (slots : Nat × (Nat → Slot V)) : Config θ ω V :=
  ⟨bounded slots,fun _ => ⟨.idle,⟨.idle,0⟩,fun _ => .idle,false⟩⟩

end MCChannel
end XxCore.Sync
