import XxCore.Sync.WaitList

/-! `AtomicWaiter` of `async_std/sync/wait_list.rs`: one word that holds no waiter, the request of
one waiter, or the mark that it is closed. Each access of the word is one step of one thread. -/
namespace XxCore.Sync

/-- `ReqPtr::null()`, a request, or `closed()`. -/
inductive ReqPtr (ρ : Type) where
  | null
  | request (request : ρ)
  | closed
  deriving DecidableEq

/-- The word with its history: the requests passed to `suspend`, those whose cancel may still be
run, and what was reported about each. -/
structure AtomicWaiter (ρ α : Type) where
  waiter : ReqPtr ρ
  suspended : List ρ
  cancellable : List ρ
  resolutions : ρ → List (WaitError ⊕ Except WaitError α)

namespace AtomicWaiter

variable {θ ρ α : Type}

def new : AtomicWaiter ρ α := ⟨.null,[],[],fun _ => []⟩

/-- A call of `set_waiter`: by `suspend`, or by `wake` and `close` in `wake_internal`. -/
inductive Update (ρ α : Type) where
  | suspend (request : ρ)
  | wake (value : α) (closing : Bool)

def Update.waiter : Update ρ α → ReqPtr ρ
  | .suspend r => .request r
  | .wake _ closing => if closing then .closed else .null

inductive Call (ρ α : Type) where
  | suspend (request : ρ)
  | cancel (request : ρ)
  | wake (value : α)
  | close (value : α)

inductive Returned where
  | pending
  | done (error : WaitError)
  | cancelled
  | wake (woken : Bool)

/-- The next step of a thread. -/
inductive Pc (ρ α : Type) where
  | idle
  | returned (value : Returned)
  -- `fetch_update` in `set_waiter`
  | load (update : Update ρ α)
  | exchange (update : Update ρ α) (prev : ReqPtr ρ)
  -- `suspend`, where `set_waiter` returned `prev`
  | shouldBlock (request : ρ) (prev : ReqPtr ρ)
  | cancelWait (request : ρ) (prev : ReqPtr ρ)
  | replace (request prev : ρ) (error : Option WaitError)
  -- `wake_internal` and `cancel`
  | wake (prev : ρ) (value : α)
  | cancel (request : ρ)
  | cancelled (request : ρ)

inductive Label (ρ α : Type) where
  | call (call : Call ρ α)
  /-- `compare_exchange_weak`, which may fail spuriously -/
  | exchange (spurious : Bool)
  | block (block : Bool)
  | next

/-- `Progress::Done` is on the left, the completion of a request on the right. -/
def resolve [DecidableEq ρ] (s : AtomicWaiter ρ α) (r : ρ)
    (resolution : WaitError ⊕ Except WaitError α) : AtomicWaiter ρ α :=
  { s with resolutions := Function.update s.resolutions r (s.resolutions r ++ [resolution]) }

/-- The end of `set_waiter`, which returns what it found. -/
def afterUpdate : Update ρ α → ReqPtr ρ → Pc ρ α
  | .suspend r, prev => .shouldBlock r prev
  | .wake value _, .request prev => .wake prev value
  | .wake _ _, _ => .returned (.wake false)

/-- The end of `suspend`. -/
def finish [DecidableEq ρ] (s : AtomicWaiter ρ α) (r : ρ) :
    Option WaitError → Pc ρ α × AtomicWaiter ρ α
  | none => (.returned .pending,{ s with cancellable := r :: s.cancellable })
  | some error => (.returned (.done error),s.resolve r (.inl error))

/-- `suspend` once it knows whether its own request is to be taken back. -/
def afterCheck [DecidableEq ρ] (s : AtomicWaiter ρ α) (r : ρ) :
    ReqPtr ρ → Option WaitError → Pc ρ α × AtomicWaiter ρ α
  | .null, error => finish s r error
  | .request prev, error => (.replace r prev error,s)
  | .closed, _ => finish s r (some .closed)

variable [DecidableEq ρ]

/-- A request is new in `suspend`; its cancel is run at most once, after `suspend` has returned. -/
def start (s : AtomicWaiter ρ α) : Call ρ α → Option (Pc ρ α × AtomicWaiter ρ α)
  | .suspend r => if r ∈ s.suspended then none
    else some (.load (.suspend r),{ s with suspended := r :: s.suspended })
  | .cancel r => if r ∈ s.cancellable then
      some (.cancel r,{ s with cancellable := s.cancellable.erase r })
    else none
  | .wake value => some (.load (.wake value false),s)
  | .close value => some (.load (.wake value true),s)

/-- One atomic step of a thread. -/
def prog : Threads.Program θ (Label ρ α) (Pc ρ α) (AtomicWaiter ρ α) := fun _ label pc s =>
  match pc, label with
  | .idle, .call call | .returned _, .call call => start s call
  | .load update, .next =>
    some (if s.waiter = .closed then afterUpdate update .closed else .exchange update s.waiter,s)
  | .exchange update prev, .exchange spurious =>
    if spurious = false ∧ s.waiter = prev then
      some (afterUpdate update prev,{ s with waiter := update.waiter })
    else if s.waiter = .closed then some (afterUpdate update .closed,s)
    else some (.exchange update s.waiter,s)
  | .shouldBlock r prev, .block block =>
    if block then some (afterCheck s r prev none) else some (.cancelWait r prev,s)
  | .cancelWait r prev, .next =>
    if s.waiter = .request r then
      some (afterCheck { s with waiter := .null } r prev (some .cancelled))
    else some (afterCheck s r prev none)
  | .replace r prev error, .next =>
    some (finish (s.resolve prev (.inr (.error .cancelled))) r error)
  | .wake prev value, .next =>
    some (.returned (.wake true),s.resolve prev (.inr (.ok value)))
  | .cancel r, .next =>
    if s.waiter = .request r then some (.cancelled r,{ s with waiter := .null })
    else some (.returned .cancelled,s)
  | .cancelled r, .next => some (.returned .cancelled,s.resolve r (.inr (.error .cancelled)))
  | _, _ => none

abbrev Config (θ ρ α : Type) := Threads.Config θ (AtomicWaiter ρ α) (Pc ρ α)

def step [DecidableEq θ] : Config θ ρ α → θ × Label ρ α → Option (Config θ ρ α) := Threads.step prog

def init : Config θ ρ α := ⟨new,fun _ => .idle⟩

end AtomicWaiter
end XxCore.Sync
