import XxCore.Sync.Broadcast
import XxCore.Sync.WaitListSteps

/-! `recv`, `send` and the drop of a sender of the broadcast channel, with `rx_waiters` around the
attempts. A step of a task is a step of the part it is in, and the store of the closed flag is one
of both. -/
namespace XxCore.Sync

structure BroadcastRecv (θ ω V : Type) where
  channel : Broadcast θ V
  waiters : WaitList θ ω Unit

namespace BroadcastRecv

variable {θ ω V : Type}

inductive Call (ω V : Type) where
  | op (call : Broadcast.Call V)
  | recv
  /-- the interrupt of a task that waits -/
  | cancel (waiter : ω)

/-- The next step of a task. -/
inductive Main (V : Type) where
  | idle
  | returned (outcome : Broadcast.Outcome V)
  /-- a call of the channel, or an attempt of `recv` -/
  | op (recv : Bool)
  -- `recv`
  | isInterrupted
  | backoff
  | wait
  | retry
  -- the end of `send`
  | startWake
  | wake
  -- the drop of the last sender
  | close
  | cancel

structure Local (ω V : Type) where
  main : Main V
  channel : Broadcast.Local V
  wait : WaitList.Pc ω Unit

inductive Label (ω V : Type) where
  | call (call : Call ω V)
  | list (label : WaitList.Label ω Unit)
  | interrupted (interrupted : Bool)
  /-- after a failed attempt: back off, or wait with a new waiter -/
  | snooze
  | wait (waiter : ω)
  | next

/-- After an attempt or a call of the channel has taken a step. -/
def afterChannel (recv : Bool) : Broadcast.Pc V → Main V
  | .returned .empty => if recv then .isInterrupted else .returned .empty
  | .returned .sent => .startWake
  | .returned outcome => .returned outcome
  | _ => .op recv

def afterList (main : Main V) : WaitList.Pc ω Unit → Main V
  | .returned _ =>
    match main with
    | .wait => .retry
    | .wake => .returned .sent
    | _ => .returned .unit
  | _ => main

variable [DecidableEq θ] [DecidableEq ω]

def runChannel (t : θ) (label : Broadcast.Label V) (recv : Bool) (l : Local ω V)
    (s : BroadcastRecv θ ω V) : Option (Local ω V × BroadcastRecv θ ω V) :=
  (Broadcast.prog t label l.channel s.channel).map fun next =>
    ({ l with channel := next.1, main := afterChannel recv next.1.pc },{ s with channel := next.2 })

def runList (t : θ) (label : WaitList.Label ω Unit) (main : Main V) (l : Local ω V)
    (s : BroadcastRecv θ ω V) : Option (Local ω V × BroadcastRecv θ ω V) :=
  (WaitList.prog t label l.wait s.waiters).map fun next =>
    ({ l with wait := next.1, main := afterList main next.1 },{ s with waiters := next.2 })

def start (t : θ) (l : Local ω V) (s : BroadcastRecv θ ω V) :
    Call ω V → Option (Local ω V × BroadcastRecv θ ω V)
  | .op call => runChannel t (.call call) false l s
  | .recv => runChannel t (.call .tryRecv) true l s
  | .cancel waiter => runList t (.call (.cancel waiter)) .cancel l s

/-- The store of the closed flag, which is that of the list. -/
def storeClosed (t : θ) (l : Local ω V) (s : BroadcastRecv θ ω V) :
    Option (Local ω V × BroadcastRecv θ ω V) := do
  let (channel,channel') ← Broadcast.prog t .next l.channel s.channel
  let (wait,waiters) ← WaitList.prog t .next l.wait s.waiters
  some ({ l with channel, wait },⟨channel',waiters⟩)

/-- A step inside of a call of the list, whose waiters ask `should_block`. -/
def listStep (t : θ) (label : WaitList.Label ω Unit) (l : Local ω V) (s : BroadcastRecv θ ω V) :
    Option (Local ω V × BroadcastRecv θ ω V) :=
  match l.wait, label with
  | .shouldBlock _, .next =>
    l.channel.receiver.bind fun pos => runList t (.block (s.channel.tail = pos)) l.main l s
  | .shouldBlock _, _ => none
  | .storeClosed _, .next => storeClosed t l s
  | .storeClosed _, _ => none
  | _, .call _ => none
  | _, label => runList t label l.main l s

/-- One atomic step of a task. -/
def prog : Threads.Program θ (Label ω V) (Local ω V) (BroadcastRecv θ ω V) := fun t label l s =>
  match l.main, label with
  | .idle, .call call | .returned _, .call call => start t l s call
  | .op recv, .next =>
    match l.channel.pc with
    | .close => runList t (.call (.close ())) .close l s
    | _ => runChannel t .next recv l s
  | .isInterrupted, .interrupted interrupted =>
    some ({ l with main := if interrupted then .returned .empty else .backoff },s)
  | .backoff, .snooze | .retry, .next => runChannel t (.call .tryRecv) true l s
  | .backoff, .wait waiter => runList t (.call (.wait waiter)) .wait l s
  | .startWake, .next => runList t (.call (.wakeAll ())) .wake l s
  | .wait, .list label | .wake, .list label | .close, .list label | .cancel, .list label =>
    listStep t label l s
  | _, _ => none

abbrev Config (θ ω V : Type) := Threads.Config θ (BroadcastRecv θ ω V) (Local ω V)

def step : Config θ ω V → θ × Label ω V → Option (Config θ ω V) := Threads.step prog

/-- The sender goes to `tx`, the receiver to `rx`. -/
def init (capacity : Nat) (tx rx : θ) : Config θ ω V where
  shared := ⟨Broadcast.channel capacity rx,.new⟩
  locals t := ⟨.idle,(Broadcast.init capacity tx rx).locals t,.idle⟩

end BroadcastRecv
end XxCore.Sync
