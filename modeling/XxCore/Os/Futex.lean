import XxCore.Lib.History
import XxCore.Lib.Threads
import XxCore.Os.Error

/-! `Notify` of `os/futex.rs`. One thread calls `wait`, any thread calls `notify`; each access of the
word and each call of the kernel is one step of one thread. -/
namespace XxCore.Os.Futex

/-- `State`, as the value of the word. -/
def parked : BitVec 32 := 0
def idle : BitVec 32 := 1
def notified : BitVec 32 := 2

/-- What happened to a `Notify`: a `notify` stored its mark, its wake failed, a `wait` ended. -/
inductive Event (θ : Type) where
  | notified (t : θ)
  | unwoken (t : θ)
  | waited (result : OsResult Bool)

/-- The word, whether the kernel has the waiter asleep on it, and history. -/
structure Notify (θ : Type) where
  state : BitVec 32
  sleeping : Bool
  log : List (Event θ)

variable {θ : Type}

def new : Notify θ := ⟨idle,false,[]⟩

inductive Returned where
  | waited (result : OsResult Bool)
  | notified (result : OsResult Unit)

/-- The next step of a thread. -/
inductive Pc where
  | idle
  | returned (value : Returned)
  -- `wait`
  | fetchSub
  | futexWait
  | asleep
  | swapIdle (result : OsResult Unit)
  -- `notify`
  | swapNotified
  | futexWake

/-- `early` is what the kernel returns from a wait at any time, `fails` its error to a wake. -/
inductive Label where
  | wait
  | notify
  | next
  | early (result : OsResult Unit)
  | fails (error : OsError)

/-- The end of `wait`. -/
def waited (s : Notify θ) (state : BitVec 32) (result : OsResult Bool) : Pc × Notify θ :=
  (.returned (.waited result),{ s with state, log := .waited result :: s.log })

/-- The result of `wait` after the futex returned `result` and the word was `state`. -/
def waitResult (result : OsResult Unit) (state : BitVec 32) : OsResult Bool :=
  match result with
  | .ok _ => .ok (state = notified)
  | .error error =>
    if error = .again ∨ error = .intr then .ok (state = notified) else .error error

variable [DecidableEq θ]

/-- One step of a thread. The kernel sleeps only if the word is `Parked`. -/
def prog (waiter : θ) : Threads.Program θ Label Pc (Notify θ) := fun t label pc s =>
  match pc, label with
  | .idle, .wait | .returned _, .wait => if t = waiter then some (.fetchSub,s) else none
  | .idle, .notify | .returned _, .notify => some (.swapNotified,s)
  | .fetchSub, .next =>
    if s.state = notified then some (waited s (s.state - 1) (.ok true))
    else some (.futexWait,{ s with state := s.state - 1 })
  | .futexWait, .next =>
    if s.state = parked then some (.asleep,{ s with sleeping := true })
    else some (.swapIdle (.error .again),s)
  | .futexWait, .early result => some (.swapIdle result,s)
  | .asleep, .next => if s.sleeping then none else some (.swapIdle (.ok ()),s)
  | .asleep, .early result => some (.swapIdle result,{ s with sleeping := false })
  | .swapIdle result, .next => some (waited s idle (waitResult result s.state))
  | .swapNotified, .next =>
    some (if s.state = parked then .futexWake else .returned (.notified (.ok ())),
      { s with state := notified, log := .notified t :: s.log })
  | .futexWake, .next => some (.returned (.notified (.ok ())),{ s with sleeping := false })
  | .futexWake, .fails error =>
    some (.returned (.notified (.error error)),{ s with log := .unwoken t :: s.log })
  | _, _ => none

abbrev Config (θ : Type) := Threads.Config θ (Notify θ) Pc

def step (waiter : θ) : Config θ → θ × Label → Option (Config θ) := Threads.step (prog waiter)

def init : Config θ := ⟨new,fun _ => .idle⟩

/-- The thread is between two calls. -/
def Pc.isFree : Pc → Bool
  | .idle | .returned _ => true
  | _ => false

/-- Everything a thread can do in one step. -/
inductive Step (waiter t : θ) (s : Notify θ) : Pc → Label → Pc → Notify θ → Prop where
  | wait (free : pc.isFree = true) (own : t = waiter) : Step waiter t s pc .wait .fetchSub s
  | notify (free : pc.isFree = true) : Step waiter t s pc .notify .swapNotified s
  | token (state : s.state = notified) : Step waiter t s .fetchSub .next
      (.returned (.waited (.ok true)))
      { s with state := s.state - 1, log := .waited (.ok true) :: s.log }
  | park (state : s.state ≠ notified) : Step waiter t s .fetchSub .next .futexWait
      { s with state := s.state - 1 }
  | sleep (state : s.state = parked) : Step waiter t s .futexWait .next .asleep
      { s with sleeping := true }
  | again (state : s.state ≠ parked) : Step waiter t s .futexWait .next
      (.swapIdle (.error .again)) s
  | early : Step waiter t s .futexWait (.early result) (.swapIdle result) s
  | woken (awake : s.sleeping = false) : Step waiter t s .asleep .next (.swapIdle (.ok ())) s
  | spurious : Step waiter t s .asleep (.early result) (.swapIdle result) { s with sleeping := false }
  | swapIdle : Step waiter t s (.swapIdle result) .next
      (.returned (.waited (waitResult result s.state)))
      { s with state := idle, log := .waited (waitResult result s.state) :: s.log }
  | swapParked (state : s.state = parked) : Step waiter t s .swapNotified .next .futexWake
      { s with state := notified, log := .notified t :: s.log }
  | swapOther (state : s.state ≠ parked) : Step waiter t s .swapNotified .next
      (.returned (.notified (.ok ()))) { s with state := notified, log := .notified t :: s.log }
  | wake : Step waiter t s .futexWake .next (.returned (.notified (.ok ())))
      { s with sleeping := false }
  | fails : Step waiter t s .futexWake (.fails error) (.returned (.notified (.error error)))
      { s with log := .unwoken t :: s.log }

/-- The step lemma. -/
theorem prog_step {waiter t : θ} {label : Label} {s s' : Notify θ} {pc pc' : Pc}
    (stepped : prog waiter t label pc s = some (pc',s')) : Step waiter t s pc label pc' s' := by
  unfold prog at stepped
  split at stepped
  case h_1 | h_2 =>
    obtain ⟨own,same⟩ := Option.ite_none_right_eq_some.mp stepped
    obtain ⟨rfl,rfl⟩ := Prod.mk.inj (Option.some.inj same)
    exact .wait rfl own
  case h_5 =>
    split at stepped
    all_goals obtain ⟨rfl,rfl⟩ := Prod.mk.inj (Option.some.inj stepped)
    · exact .token ‹_›
    · exact .park ‹_›
  case h_6 =>
    split at stepped
    all_goals obtain ⟨rfl,rfl⟩ := Prod.mk.inj (Option.some.inj stepped)
    · exact .sleep ‹_›
    · exact .again ‹_›
  case h_8 =>
    split at stepped
    · contradiction
    next awake =>
      obtain ⟨rfl,rfl⟩ := Prod.mk.inj (Option.some.inj stepped)
      exact .woken (by simpa using awake)
  case h_11 =>
    obtain ⟨rfl,rfl⟩ := Prod.mk.inj (Option.some.inj stepped)
    by_cases state : s.state = parked
    · rw [if_pos state]
      exact .swapParked state
    · rw [if_neg state]
      exact .swapOther state
  case h_14 => contradiction
  all_goals obtain ⟨rfl,rfl⟩ := Prod.mk.inj (Option.some.inj stepped)
  case h_3 | h_4 => exact .notify rfl
  all_goals constructor

end XxCore.Os.Futex
