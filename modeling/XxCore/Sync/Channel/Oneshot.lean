import XxCore.Sync.AtomicWaiter
import XxCore.Sync.Channel.Queue

/-! The oneshot channel (`async_std/sync/channel/oneshot.rs`): its sender, its receiver and the
threads that interrupt them. A step is a step of one of the two waiters or one access of `sent`
or of the value. -/
namespace XxCore.Sync

inductive RecvError where
  | empty
  | closed
  deriving DecidableEq, Repr

def RecvError.new (closed : Bool) : RecvError := if closed then .closed else .empty

/-- `waiters` is `tx_waiter` on the side of the sender and `rx_waiter` on that of the receiver.
The fields after it are history: what was passed to `send` and returned by it, the results of
`try_recv` and `recv`, what the receiver's drop took, whether the receiver has closed the channel
and then called `try_recv`, and whether memory without a value was read. -/
structure Oneshot (ρ V : Type) where
  sent : Bool
  value : Option V
  waiters : Side → AtomicWaiter ρ Unit
  passed : Option V
  returned : Option (Except V Unit)
  results : List (Except RecvError V)
  dropped : List V
  closed : Bool
  rechecked : Bool
  fault : Bool

/-- The sender or the receiver, or a thread that interrupts one of them. -/
inductive Agent (θ : Type) where
  | user (side : Side)
  | other (thread : θ)
  deriving DecidableEq

namespace Oneshot

variable {θ ρ V : Type}

def new : Oneshot ρ V :=
  ⟨false,none,fun _ => .new,none,none,[],[],false,false,false⟩

inductive Call (ρ V : Type) where
  | tryRecv
  | recv
  | blockingRecv (request : ρ)
  /-- `Receiver::close` -/
  | close
  | send (value : V)
  | isClosed
  /-- `Sender::closed` -/
  | closed
  | drop
  /-- the interrupt of a task that waits -/
  | cancel (side : Side) (request : ρ)

/-- The two calls that end with `try_recv`. -/
inductive RecvCall where
  | tryRecv
  | recv
  deriving DecidableEq

/-- The callers of `try_consume_value`. -/
inductive Consumer where
  | tryRecv (call : RecvCall)
  | drop
  | send

/-- The callers of `tx_waiter.is_closed`. -/
inductive Check where
  | tryRecv (call : RecvCall)
  | send
  | isClosed

/-- The closes of a waiter, with what the caller does next. -/
inductive Closing (V : Type) where
  | received (call : RecvCall) (value : V)
  | closeTx
  | closeRx
  | dropReceiver
  | sendRx
  -- the drop of the sender, which may be the end of `send`
  | dropTx (result : Option (Except V Unit))
  | dropRx (result : Option (Except V Unit))

def Closing.side : Closing V → Side
  | .received _ _ | .closeTx | .dropReceiver | .dropTx _ => .send
  | .closeRx | .sendRx | .dropRx _ => .recv

inductive Main (ρ V : Type) where
  | idle
  | gone
  -- `wait_thread_safe` and `blocking_wait`
  | checkInterrupt (side : Side)
  | suspend (side : Side) (request : ρ)
  | parked (side : Side) (request : ρ)
  | cancel (side : Side)
  | write (value : V)
  | storeSent
  | swap (consumer : Consumer)
  | read (consumer : Consumer)
  | loadClosed (check : Check)
  | close (closing : Closing V)

structure Local (ρ V : Type) where
  main : Main ρ V
  waiter : AtomicWaiter.Pc ρ Unit

inductive Label (ρ V : Type) where
  | call (call : Call ρ V)
  | interrupted
  /-- the task is not interrupted and waits with a new request -/
  | suspend (request : ρ)
  | waiter (label : AtomicWaiter.Label ρ Unit)
  | next

def goto (main : Main ρ V) : Local ρ V := ⟨main,.idle⟩

def startClose (closing : Closing V) : Local ρ V := ⟨.close closing,.load (.wake () true)⟩

/-- `closed` ends with `is_closed`, `recv` with `try_recv`. -/
def afterWait : Side → Main ρ V
  | .send => .loadClosed .isClosed
  | .recv => .swap (.tryRecv .recv)

def finishRecv (s : Oneshot ρ V) (call : RecvCall) (result : Except RecvError V) : Oneshot ρ V :=
  { s with
    results := s.results ++ [result]
    rechecked := s.rechecked || (decide (call = .tryRecv) && s.closed) }

/-- `try_consume_value` returned `None`. -/
def afterNone : Consumer → Local ρ V
  | .tryRecv call => goto (.loadClosed (.tryRecv call))
  | .drop => goto .gone
  | .send => startClose (.dropTx (some (.ok ())))

/-- `try_consume_value` returned the value. -/
def afterSome (s : Oneshot ρ V) (value : V) : Consumer → Local ρ V × Oneshot ρ V
  | .tryRecv call => (startClose (.received call value),s)
  | .drop => (goto .gone,{ s with dropped := s.dropped ++ [value] })
  | .send => (startClose (.dropTx (some (.error value))),s)

def afterLoad (s : Oneshot ρ V) (closed : Bool) : Check → Local ρ V × Oneshot ρ V
  | .tryRecv call => (goto .idle,s.finishRecv call (.error (.new closed)))
  | .send =>
    if closed then (goto (.swap .send),s) else (startClose (.dropTx (some (.ok ()))),s)
  | .isClosed => (goto .idle,s)

def afterClose (s : Oneshot ρ V) : Closing V → Local ρ V × Oneshot ρ V
  | .received call value => (goto .idle,s.finishRecv call (.ok value))
  | .closeTx => (startClose .closeRx,s)
  | .closeRx => (goto .idle,{ s with closed := true })
  | .dropReceiver => (goto (.swap .drop),s)
  | .sendRx => (goto (.loadClosed .send),s)
  | .dropTx result => (startClose (.dropRx result),s)
  | .dropRx result => (goto .gone,{ s with returned := result })

def setWaiter (s : Oneshot ρ V) (side : Side) (waiter : AtomicWaiter ρ Unit) : Oneshot ρ V :=
  { s with waiters := Function.update s.waiters side waiter }

variable [DecidableEq ρ]

def startSuspend (s : Oneshot ρ V) (side : Side) (request : ρ) :
    Option (Local ρ V × Oneshot ρ V) :=
  (AtomicWaiter.start (s.waiters side) (.suspend request)).map fun p =>
    (⟨.suspend side request,p.1⟩,s.setWaiter side p.2)

def start (s : Oneshot ρ V) : Agent θ → Call ρ V → Option (Local ρ V × Oneshot ρ V)
  | .user .recv, .tryRecv => some (goto (.swap (.tryRecv .tryRecv)),s)
  | .user .recv, .recv => some (goto (.checkInterrupt .recv),s)
  | .user .recv, .blockingRecv request => startSuspend s .recv request
  | .user .recv, .close => some (startClose .closeTx,s)
  | .user .recv, .drop => some (startClose .dropReceiver,s)
  | .user .send, .send value => some (goto (.write value),{ s with passed := some value })
  | .user .send, .isClosed => some (goto (.loadClosed .isClosed),s)
  | .user .send, .closed => some (goto (.checkInterrupt .send),s)
  | .user .send, .drop => some (startClose (.dropTx none),s)
  | .other _, .cancel side request =>
    (AtomicWaiter.start (s.waiters side) (.cancel request)).map fun p =>
      (⟨.cancel side,p.1⟩,s.setWaiter side p.2)
  | _, _ => none

def runWaiter (agent : Agent θ) (side : Side) (label : AtomicWaiter.Label ρ Unit) (l : Local ρ V)
    (s : Oneshot ρ V) : Option (Local ρ V × Oneshot ρ V) :=
  (AtomicWaiter.prog agent label l.waiter (s.waiters side)).map fun p =>
    ({ l with waiter := p.1 },s.setWaiter side p.2)

/-- One atomic step of the sender, of the receiver or of another thread. -/
def prog : Threads.Program (Agent θ) (Label ρ V) (Local ρ V) (Oneshot ρ V) := fun agent label l s =>
  match l.main, label with
  | .idle, .call call => start s agent call
  | .checkInterrupt side, .interrupted => some (goto (afterWait side),s)
  | .checkInterrupt side, .suspend request => startSuspend s side request
  -- `should_block` is `|| true`
  | .suspend _ _, .waiter (.block false) => none
  | .suspend side request, .waiter label =>
    (runWaiter agent side label l s).map fun p =>
      match p.1.waiter with
      | .returned .pending => (goto (.parked side request),p.2)
      | .returned _ => (goto (afterWait side),p.2)
      | _ => p
  | .parked side request, .next =>
    if (s.waiters side).resolutions request = [] then none
    else some (goto (afterWait side),s.setWaiter side
      { s.waiters side with cancellable := (s.waiters side).cancellable.erase request })
  | .cancel side, .waiter label =>
    (runWaiter agent side label l s).map fun p =>
      match p.1.waiter with
      | .returned _ => (goto .idle,p.2)
      | _ => p
  | .write value, .next => some (goto .storeSent,{ s with value := some value })
  | .storeSent, .next => some (startClose .sendRx,{ s with sent := true })
  | .swap consumer, .next =>
    some (if s.sent then goto (.read consumer) else afterNone consumer,{ s with sent := false })
  | .read consumer, .next =>
    match s.value with
    | none => some (l,{ s with fault := true })
    | some value => some (afterSome { s with value := none } value consumer)
  | .loadClosed check, .next =>
    some (afterLoad s (decide ((s.waiters .send).waiter = .closed)) check)
  | .close closing, .waiter label =>
    (runWaiter agent closing.side label l s).map fun p =>
      match p.1.waiter with
      | .returned _ => afterClose p.2 closing
      | _ => p
  | _, _ => none

abbrev Config (θ ρ V : Type) := Threads.Config (Agent θ) (Oneshot ρ V) (Local ρ V)

def step [DecidableEq θ] : Config θ ρ V → Agent θ × Label ρ V → Option (Config θ ρ V) :=
  Threads.step prog

/-- `channel` -/
def init : Config θ ρ V := ⟨new,fun _ => goto .idle⟩

end Oneshot
end XxCore.Sync
