import XxCore.Container.LinkedList
import XxCore.Sync.WaitList

/-! `RawWaitList` of `async_std/sync/wait_list.rs`, on the heap of its nodes. Completing a waiter
runs arbitrary code before `wake_all` goes on: the calls of `wake_all` that have not returned form
a stack, and every step may be taken while any of them waits for a completion to return. -/
namespace XxCore.Sync.RawWaitList

open Links Container Transition

/-- Who completed a waiter; every call of `wake_all` has a number of its own. -/
inductive Source where
  | wakeOne
  | wakeAll (call : Nat)
  | cancel
  deriving DecidableEq, Repr

structure Resolved (β : Type) where
  ticket : Nat
  source : Source
  result : WaitResult β

inductive Returned (β : Type) where
  | waited (result : WaitResult β)
  | wakeOne (woken : Bool)
  | wakeAll (count : Nat)

/-- A `wake_all` that has not returned. The last three fields are history: its number, the
waiters its list still holds and how often its loop popped one. -/
structure Frame (α β : Type) where
  list : α
  value : β
  count : Nat
  broken : Bool
  call : Nat
  rest : List α
  turns : Nat

/-- `list` is the address of the base. The fields after `frames` are history that no code reads:
the waiters in the list in the order of their registration, those whose `wait` has not returned,
the number each registration got, and what was completed and returned. -/
structure State (α β : Type) where
  list : α
  heap : Heap α
  count : Nat
  closed : Bool
  frames : List (Frame α β)
  waiting : List α
  live : List α
  ticket : α → Nat
  tickets : Nat
  calls : Nat
  log : List (Resolved β)
  returned : List (Returned β)

inductive Label (α β : Type) where
  /-- `wait` with its waiter at `waiter`, or `blocking_wait`, where nothing interrupts -/
  | wait (waiter : α) (interrupted : Bool)
  | cancel (waiter : α)
  | wakeOne (value : β)
  /-- `wake_all`, or `close`, with its own list at `list` -/
  | wakeAll (list : α) (value : β) (closing : Bool)
  /-- the code run by the last completion of the innermost `wake_all` returns; `panic` is what
  cloning the value for the next waiter gives, if it panics -/
  | next (panic : Option Panic)
  /-- `wait` goes on after its waiter was completed -/
  | leave (waiter : α)

variable {α β : Type} [DecidableEq α]

namespace State

/-- A waiter that is registered and not completed. -/
def Pending (s : State α β) (waiter : α) : Prop :=
  waiter ∈ s.waiting ∨ ∃ frame ∈ s.frames, waiter ∈ frame.rest

instance (s : State α β) (waiter : α) : Decidable (s.Pending waiter) :=
  inferInstanceAs (Decidable (_ ∨ _))

/-- An address that no waiter and no list occupies. -/
def Unused (s : State α β) (a : α) : Prop :=
  a ≠ s.list ∧ a ∉ s.live ∧ ∀ frame ∈ s.frames, a ≠ frame.list

/-- The history of a registration. -/
def register (s : State α β) (waiter : α) : State α β :=
  { s with
    waiting := s.waiting ++ [waiter]
    live := waiter :: s.live
    ticket := Function.update s.ticket waiter s.tickets
    tickets := s.tickets + 1 }

instance (s : State α β) (a : α) : Decidable (s.Unused a) :=
  inferInstanceAs (Decidable (_ ∧ _ ∧ _))

/-- The node is in no list any more. -/
def detach (s : State α β) (waiter : α) : State α β :=
  { s with
    waiting := s.waiting.erase waiter
    frames := s.frames.map fun frame => { frame with rest := frame.rest.erase waiter } }

/-- `Waiter::complete`. -/
def complete (s : State α β) (waiter : α) (source : Source) (result : WaitResult β) : State α β :=
  { s with log := s.log ++ [⟨s.ticket waiter,source,result⟩] }

/-- A turn of the innermost loop, which may be its last. -/
def turn (s : State α β) (broken : Bool) : State α β :=
  { s with frames := s.frames.modifyHead fun frame => { frame with broken, turns := frame.turns + 1 } }

end State

/-- `wait` up to the registration. -/
def wait (s : State α β) (waiter : α) (interrupted : Bool) : Option (State α β) :=
  if s.closed then some { s with returned := s.returned ++ [.waited (.error .closed)] }
  else if interrupted then some { s with returned := s.returned ++ [.waited (.error .cancelled)] }
  else do
    let heap ← LinkedList.append (LinkedList.new s.heap waiter) s.list waiter
    some (({ s with heap, count := s.count + 1 } : State α β).register waiter)

/-- The cancel of `suspend`. -/
def cancel (s : State α β) (waiter : α) : Option (State α β) := do
  let heap ← LinkedList.unlinkUnchecked s.heap waiter
  some (({ s with heap } : State α β).detach waiter |>.complete waiter .cancel (.error .cancelled))

def wakeOne (s : State α β) (value : β) : Option (State α β) := do
  let (heap,node) ← LinkedList.popFront s.heap s.list
  match node with
  | none => some { s with heap, returned := s.returned ++ [.wakeOne false] }
  | some node =>
    let s := ({ s with heap } : State α β).detach node |>.complete node .wakeOne (.ok (.ok value))
    some { s with returned := s.returned ++ [.wakeOne true] }

/-- `wake_all` up to its loop; `close` sets the flag first. -/
def wakeAll (s : State α β) (list : α) (value : β) (closing : Bool) : Option (State α β) := do
  let heap ← LinkedList.pin (LinkedList.new s.heap list) list
  let heap ← LinkedList.moveElements heap s.list list
  some { s with
    heap
    closed := s.closed || closing
    frames := ⟨list,value,s.count,false,s.calls,s.waiting,0⟩ :: s.frames
    waiting := []
    calls := s.calls + 1 }

/-- The call returns and its list is gone, which is modelled as null. -/
def wakeAllReturn (s : State α β) (frame : Frame α β) (frames : List (Frame α β)) : State α β :=
  { s with
    heap := LinkedList.new s.heap frame.list
    frames
    returned := s.returned ++ [.wakeAll frame.count] }

/-- What the next waiter gets: a clone of the value or its panic, and the last one the value
itself. -/
def cloned (value : β) (last : Bool) (panic : Option Panic) : MaybePanic β :=
  match last,panic with
  | false,some panic => .error panic
  | _,_ => .ok value

/-- One turn of the loop of the innermost `wake_all`, up to the completion of a waiter. -/
def wakeAllNext (s : State α β) (panic : Option Panic) : Option (State α β) :=
  match s.frames with
  | [] => none
  | frame :: frames =>
    if frame.broken then some (wakeAllReturn s frame frames)
    else do
      let (heap,node) ← LinkedList.popFront s.heap frame.list
      match node with
      | none => some (wakeAllReturn { s with heap } frame frames)
      | some node => do
        let last ← LinkedList.isEmpty heap frame.list
        some (({ s with heap } : State α β).detach node
          |>.complete node (.wakeAll frame.call) (.ok (cloned frame.value last panic)) |>.turn last)

/-- `wait` after `block_on`. -/
def leave (s : State α β) (waiter : α) : Option (State α β) := do
  let resolved ← s.log.find? fun resolved => resolved.ticket = s.ticket waiter
  some { s with
    count := s.count - 1
    live := s.live.erase waiter
    returned := s.returned ++ [.waited resolved.result] }

def step (s : State α β) : Label α β → Option (State α β)
  | .wait waiter interrupted => wait s waiter interrupted
  | .cancel waiter => cancel s waiter
  | .wakeOne value => wakeOne s value
  | .wakeAll list value closing => wakeAll s list value closing
  | .next panic => wakeAllNext s panic
  | .leave waiter => leave s waiter

/-- The contracts of the functions: waiters and lists are new, only a pending waiter is cancelled,
and `wait` goes on only once its waiter is completed. -/
def Allowed (s : State α β) : Label α β → Prop
  | .wait waiter _ => s.Unused waiter
  | .cancel waiter => s.Pending waiter
  | .wakeOne _ => True
  | .wakeAll list _ _ => s.Unused list
  | .next _ => s.frames ≠ []
  | .leave waiter => waiter ∈ s.live ∧ ¬ s.Pending waiter

instance (s : State α β) : (l : Label α β) → Decidable (Allowed s l)
  | .wait waiter _ => inferInstanceAs (Decidable (s.Unused waiter))
  | .cancel waiter => inferInstanceAs (Decidable (s.Pending waiter))
  | .wakeOne _ => inferInstanceAs (Decidable True)
  | .wakeAll list _ _ => inferInstanceAs (Decidable (s.Unused list))
  | .next _ => inferInstanceAs (Decidable (s.frames ≠ []))
  | .leave waiter => inferInstanceAs (Decidable (waiter ∈ s.live ∧ ¬ s.Pending waiter))

/-- `RawWaitList::new`, pinned. -/
def init (β : Type) (list : α) : Option (State α β) := do
  let heap ← LinkedList.pin Heap.null list
  some ⟨list,heap,0,false,[],[],[],fun _ => 0,0,0,[],[]⟩

end XxCore.Sync.RawWaitList
