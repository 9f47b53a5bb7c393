import XxCore.Lib.Board
import XxCore.Sync.Channel.Queue

/-! The broadcast channel (`async_std/sync/broadcast.rs`). A task has at most one sender and one
receiver of its own; each access of a counter, of the closed flag or of a slot under its read lock
is one step, and so is the whole update of a slot under its write lock. -/
namespace XxCore.Sync

namespace Broadcast

/-- The memory of `data` keeps its bytes when the value is moved out, which only the history
`moved` tells; `none` is memory that never held a value. `guards` are the read guards of the
lock. -/
structure Slot (θ V : Type) where
  sequence : Word
  remaining : Word
  data : Option V
  guards : List θ
  moved : Bool

end Broadcast

/-- `closed` is the flag of `rx_waiters`. `board` and `fault` are history, which no code reads:
what was sent and received by index, and a read of memory that holds no value. -/
structure Broadcast (θ V : Type) where
  tail : Word
  capacity : Nat
  slots : Nat → Broadcast.Slot θ V
  txCount : Nat
  rxCount : Nat
  closed : Bool
  board : Board θ V
  fault : Bool

namespace Broadcast

variable {θ V : Type}

/-- `Channel::new`: the number of slots, if the size is accepted. A slot has `padding` bytes
besides its two counters, and a `Vec` has at most `isize::MAX` bytes. -/
def slotCount (padding size : Nat) : Option Nat :=
  if size = 0 then none
  else
    let size := 2 ^ Nat.clog 2 size
    if 2 ^ 63 < size then none
    else if 2 ^ 63 ≤ size * (16 + padding) then none
    else some size

/-- `channel`, whose receiver goes to task `t`. -/
def channel [DecidableEq θ] (capacity : Nat) (t : θ) : Broadcast θ V where
  tail := 0
  capacity
  slots := fun i => ⟨BitVec.ofNat 64 i,0,none,[],false⟩
  txCount := 1
  rxCount := 1
  closed := false
  board := .new capacity t
  fault := false

def mask (s : Broadcast θ V) : Word := BitVec.ofNat 64 s.capacity - 1#64

/-- `pos & mask`, the index given to `get_unchecked`. -/
def masked (s : Broadcast θ V) (pos : Word) : Nat := (pos &&& s.mask).toNat

/-- The memory holds a value that may be read. -/
def Slot.holds (slot : Slot θ V) : Bool := slot.data.isSome && !slot.moved

inductive Call (V : Type) where
  | send (value : V)
  | cloneSender
  | dropSender
  /-- `Sender::subscribe` and `Receiver::resubscribe` -/
  | subscribe
  | resubscribe
  | synchronize
  | tryRecv
  | dropReceiver

inductive Outcome (V : Type) where
  | unit
  | sent
  | sendError (value : V)
  | received (value : V)
  | empty
  | closed
  | lagged (missed : Word)

/-- What `try_recv` goes on to after it has dropped the read guard. -/
inductive After (V : Type) where
  | received (value : V)
  | behind
  | ahead

/-- The next step of a task. -/
inductive Pc (V : Type) where
  | idle
  | returned (outcome : Outcome V)
  | loadReceivers (value : V) (index : Word)
  | update (value : V) (index : Word) (receivers : Nat)
  | close
  | loadTail
  | loadSequence (slot : Nat)
  | fetchSub (slot : Nat)
  | access (slot : Nat) (last : Bool)
  | unlock (slot : Nat) (after : After V)
  | isClosed
  | loadHead

/-- The task between two calls, with the handles it has; a receiver is its `pos`. -/
structure Local (V : Type) where
  pc : Pc V
  sender : Bool
  receiver : Option Word

inductive Label (V : Type) where
  | call (call : Call V)
  | next

def Local.goto (l : Local V) (pc : Pc V) : Local V := { l with pc }

variable [DecidableEq θ]

def setSlot (s : Broadcast θ V) (j : Nat) (slot : Slot θ V) : Broadcast θ V :=
  { s with slots := Function.update s.slots j slot }

/-- The update of the slot in `send`, under the write lock. -/
def put (t : θ) (s : Broadcast θ V) (value : V) (index : Word) (receivers : Nat) : Broadcast θ V :=
  let slot := s.slots (s.masked index)
  let previous := decide (slot.remaining ≠ 0)
  { s.setSlot (s.masked index)
      { slot with
        remaining := BitVec.ofNat 64 receivers
        sequence := index + 1
        data := if receivers = 0 then slot.data else some value
        moved := decide (receivers = 0) && (slot.moved || previous) } with
    board := s.board.publish t value
    fault := s.fault || previous && !slot.holds }

/-- `Receiver::new`, up to the load of `tail`. `Arc::clone` aborts beyond `isize::MAX` handles. -/
def subscribe (t : θ) (l : Local V) (s : Broadcast θ V) : Option (Local V × Broadcast θ V) :=
  if l.receiver.isNone ∧ s.txCount + s.rxCount < 2 ^ 63 then
    some (l.goto .loadTail,{ s with rxCount := s.rxCount + 1, board := s.board.register t })
  else none

def start (t : θ) (l : Local V) (s : Broadcast θ V) : Call V → Option (Local V × Broadcast θ V)
  | .send value =>
    if l.sender then
      some (l.goto (.loadReceivers value s.tail),
        { s with tail := s.tail + 1, board := s.board.claim t })
    else none
  | .cloneSender =>
    if l.sender = false ∧ 0 < s.txCount ∧ s.txCount + s.rxCount < 2 ^ 63 then
      some (⟨.returned .unit,true,l.receiver⟩,{ s with txCount := s.txCount + 1 })
    else none
  | .dropSender =>
    if l.sender then
      some (⟨if s.txCount = 1 then .close else .returned .unit,false,l.receiver⟩,
        { s with txCount := s.txCount - 1 })
    else none
  | .subscribe => if 0 < s.txCount then subscribe t l s else none
  | .resubscribe => if 0 < s.rxCount then subscribe t l s else none
  | .synchronize =>
    l.receiver.map fun _ =>
      (⟨.returned .unit,l.sender,some s.tail⟩,{ s with board := s.board.synchronize t })
  | .tryRecv =>
    l.receiver.map fun pos =>
      let slot := s.slots (s.masked pos)
      (l.goto (.loadSequence (s.masked pos)),
        s.setSlot (s.masked pos) { slot with guards := t :: slot.guards })
  | .dropReceiver =>
    l.receiver.map fun _ =>
      (⟨.returned .unit,l.sender,none⟩,{ s with rxCount := s.rxCount - 1, board := s.board.leave t })

/-- The load of `sequence` in `try_recv`: `diff` is `sequence.wrapping_sub(next) as isize`. -/
def compare (l : Local V) (s : Broadcast θ V) (j : Nat) (pos : Word) : Local V :=
  let diff := ((s.slots j).sequence - (pos + 1)).toInt
  if diff = 0 then l.goto (.fetchSub j)
  else l.goto (.unlock j (if diff < 0 then .behind else .ahead))

/-- `self.pos = next` and the `fetch_sub` of `remaining`. -/
def fetchSub (t : θ) (l : Local V) (s : Broadcast θ V) (j : Nat) (pos : Word) :
    Local V × Broadcast θ V :=
  let slot := s.slots j
  (⟨.access j (decide (slot.remaining = 1)),l.sender,some (pos + 1)⟩,
    { s.setSlot j { slot with remaining := slot.remaining - 1 } with board := s.board.take t j })

/-- `assume_init_read` for the last receiver, else `assume_init_ref` and `clone`. -/
def readOut (t : θ) (s : Broadcast θ V) (j : Nat) (last : Bool) (value : V) : Broadcast θ V :=
  let slot := s.slots j
  { s.setSlot j { slot with moved := slot.moved || last } with
    board := s.board.deliver t j value
    fault := s.fault || slot.moved }

def access (t : θ) (l : Local V) (s : Broadcast θ V) (j : Nat) (last : Bool) :
    Local V × Broadcast θ V :=
  match (s.slots j).data with
  | none => (l,{ s with fault := true })
  | some value => (l.goto (.unlock j (.received value)),readOut t s j last value)

def afterUnlock : After V → Pc V
  | .received value => .returned (.received value)
  | .behind => .isClosed
  | .ahead => .loadHead

/-- `head` and `missed` of `try_recv`. -/
def skip (t : θ) (l : Local V) (s : Broadcast θ V) (pos : Word) : Local V × Broadcast θ V :=
  let head := s.tail - BitVec.ofNat 64 s.capacity
  let missed := head - pos
  (⟨.returned (.lagged missed),l.sender,some head⟩,{ s with board := s.board.lag t missed.toNat })

/-- One atomic step of a task. -/
def prog : Threads.Program θ (Label V) (Local V) (Broadcast θ V) := fun t label l s =>
  match l.pc, label with
  | .idle, .call call | .returned _, .call call => start t l s call
  | .loadReceivers value index, .next =>
    some (l.goto (.update value index s.rxCount),{ s with board := s.board.count t })
  | .update value index receivers, .next =>
    if (s.slots (s.masked index)).guards.isEmpty then
      some (l.goto (.returned (if receivers = 0 then .sendError value else .sent)),
        put t s value index receivers)
    else none
  | .close, .next => some (l.goto (.returned .unit),{ s with closed := true })
  | .loadTail, .next =>
    some (⟨.returned .unit,l.sender,some s.tail⟩,{ s with board := s.board.enter t })
  | .loadSequence j, .next => l.receiver.map fun pos => (compare l s j pos,s)
  | .fetchSub j, .next => l.receiver.map (fetchSub t l s j)
  | .access j last, .next => some (access t l s j last)
  | .unlock j after, .next =>
    let slot := s.slots j
    some (l.goto (afterUnlock after),s.setSlot j { slot with guards := slot.guards.erase t })
  | .isClosed, .next =>
    some (l.goto (.returned (if s.closed then .closed else .empty)),s)
  | .loadHead, .next => l.receiver.map (skip t l s)
  | _, _ => none

abbrev Config (θ V : Type) := Threads.Config θ (Broadcast θ V) (Local V)

def step : Config θ V → θ × Label V → Option (Config θ V) := Threads.step prog

/-- The sender goes to `tx`, the receiver to `rx`. -/
def init (capacity : Nat) (tx rx : θ) : Config θ V :=
  ⟨channel capacity rx,fun t => ⟨.idle,decide (t = tx),if t = rx then some 0 else none⟩⟩

def Pc.isFree : Pc V → Bool
  | .idle | .returned _ => true
  | _ => false

/-- Everything a task can do in one step. -/
inductive Step (t : θ) (l : Local V) (s : Broadcast θ V) :
    Label V → Local V → Broadcast θ V → Prop where
  | send (free : l.pc.isFree = true) (sender : l.sender = true) :
    Step t l s (.call (.send value)) (l.goto (.loadReceivers value s.tail))
      { s with tail := s.tail + 1, board := s.board.claim t }
  | cloneSender (free : l.pc.isFree = true) (room : s.txCount + s.rxCount < 2 ^ 63) :
    Step t l s (.call .cloneSender) ⟨.returned .unit,true,l.receiver⟩
      { s with txCount := s.txCount + 1 }
  | dropSender (free : l.pc.isFree = true) :
    Step t l s (.call .dropSender)
      ⟨if s.txCount = 1 then .close else .returned .unit,false,l.receiver⟩
      { s with txCount := s.txCount - 1 }
  | subscribe (free : l.pc.isFree = true) (none : l.receiver = none)
    (room : s.txCount + s.rxCount < 2 ^ 63)
    (which : call = Call.subscribe ∨ call = .resubscribe) :
    Step t l s (.call call) (l.goto .loadTail)
      { s with rxCount := s.rxCount + 1, board := s.board.register t }
  | synchronize (free : l.pc.isFree = true) (receiver : l.receiver = some pos) :
    Step t l s (.call .synchronize) ⟨.returned .unit,l.sender,some s.tail⟩
      { s with board := s.board.synchronize t }
  | tryRecv (free : l.pc.isFree = true) (receiver : l.receiver = some pos) :
    Step t l s (.call .tryRecv) (l.goto (.loadSequence (s.masked pos)))
      (s.setSlot (s.masked pos)
        { s.slots (s.masked pos) with guards := t :: (s.slots (s.masked pos)).guards })
  | dropReceiver (free : l.pc.isFree = true) (receiver : l.receiver = some pos) :
    Step t l s (.call .dropReceiver) ⟨.returned .unit,l.sender,none⟩
      { s with rxCount := s.rxCount - 1, board := s.board.leave t }
  | loadReceivers (pc : l.pc = .loadReceivers value index) :
    Step t l s .next (l.goto (.update value index s.rxCount)) { s with board := s.board.count t }
  | update (pc : l.pc = .update value index receivers)
    (unlocked : (s.slots (s.masked index)).guards = []) :
    Step t l s .next (l.goto (.returned (if receivers = 0 then .sendError value else .sent)))
      (put t s value index receivers)
  | close (pc : l.pc = .close) : Step t l s .next (l.goto (.returned .unit)) { s with closed := true }
  | loadTail (pc : l.pc = .loadTail) :
    Step t l s .next ⟨.returned .unit,l.sender,some s.tail⟩ { s with board := s.board.enter t }
  | ready (pc : l.pc = .loadSequence j) (receiver : l.receiver = some pos)
    (same : (s.slots j).sequence = pos + 1) : Step t l s .next (l.goto (.fetchSub j)) s
  | behind (pc : l.pc = .loadSequence j) (receiver : l.receiver = some pos)
    (diff : ((s.slots j).sequence - (pos + 1)).toInt < 0) :
    Step t l s .next (l.goto (.unlock j .behind)) s
  | ahead (pc : l.pc = .loadSequence j) (receiver : l.receiver = some pos)
    (diff : 0 < ((s.slots j).sequence - (pos + 1)).toInt) :
    Step t l s .next (l.goto (.unlock j .ahead)) s
  | fetchSub (pc : l.pc = .fetchSub j) (receiver : l.receiver = some pos) :
    Step t l s .next (Broadcast.fetchSub t l s j pos).1 (Broadcast.fetchSub t l s j pos).2
  | accessNone (pc : l.pc = .access j last) (data : (s.slots j).data = none) :
    Step t l s .next l { s with fault := true }
  | access (pc : l.pc = .access j last) (data : (s.slots j).data = some value) :
    Step t l s .next (l.goto (.unlock j (.received value))) (readOut t s j last value)
  | unlock (pc : l.pc = .unlock j after) :
    Step t l s .next (l.goto (afterUnlock after))
      (s.setSlot j { s.slots j with guards := (s.slots j).guards.erase t })
  | isClosed (pc : l.pc = .isClosed) :
    Step t l s .next (l.goto (.returned (if s.closed then .closed else .empty))) s
  | loadHead (pc : l.pc = .loadHead) (receiver : l.receiver = some pos) :
    Step t l s .next (skip t l s pos).1 (skip t l s pos).2

theorem start_step {t : θ} {l l' : Local V} {s s' : Broadcast θ V} {call : Call V}
    (free : l.pc.isFree = true) (started : start t l s call = some (l',s')) :
    Step t l s (.call call) l' s' := by
  cases call with
  | send value =>
    simp only [start] at started
    split at started
    · obtain ⟨rfl,rfl⟩ := Prod.mk.inj (Option.some.inj started)
      exact .send free ‹_›
    · contradiction
  | cloneSender =>
    simp only [start] at started
    split at started
    · rename_i may
      obtain ⟨rfl,rfl⟩ := Prod.mk.inj (Option.some.inj started)
      exact .cloneSender free may.2.2
    · contradiction
  | dropSender =>
    simp only [start] at started
    split at started
    · obtain ⟨rfl,rfl⟩ := Prod.mk.inj (Option.some.inj started)
      exact .dropSender free
    · contradiction
  | subscribe =>
    simp only [start,subscribe] at started
    split at started
    · split at started
      · rename_i may
        obtain ⟨rfl,rfl⟩ := Prod.mk.inj (Option.some.inj started)
        exact .subscribe free (Option.isNone_iff_eq_none.mp may.1) may.2 (.inl rfl)
      · contradiction
    · contradiction
  | resubscribe =>
    simp only [start,subscribe] at started
    split at started
    · split at started
      · rename_i may
        obtain ⟨rfl,rfl⟩ := Prod.mk.inj (Option.some.inj started)
        exact .subscribe free (Option.isNone_iff_eq_none.mp may.1) may.2 (.inr rfl)
      · contradiction
    · contradiction
  | synchronize =>
    obtain ⟨pos,receiver,eq⟩ := Option.map_eq_some_iff.mp started
    obtain ⟨rfl,rfl⟩ := Prod.mk.inj eq
    exact .synchronize free receiver
  | tryRecv =>
    obtain ⟨pos,receiver,eq⟩ := Option.map_eq_some_iff.mp started
    obtain ⟨rfl,rfl⟩ := Prod.mk.inj eq
    exact .tryRecv free receiver
  | dropReceiver =>
    obtain ⟨pos,receiver,eq⟩ := Option.map_eq_some_iff.mp started
    obtain ⟨rfl,rfl⟩ := Prod.mk.inj eq
    exact .dropReceiver free receiver

theorem prog_step {t : θ} {label : Label V} {l l' : Local V} {s s' : Broadcast θ V}
    (ran : prog t label l s = some (l',s')) : Step t l s label l' s' := by
  unfold prog at ran
  split at ran
  case h_1 call pc => exact start_step (by rw [pc]; rfl) ran
  case h_2 outcome call pc => exact start_step (by rw [pc]; rfl) ran
  case h_3 value index pc =>
    obtain ⟨rfl,rfl⟩ := Prod.mk.inj (Option.some.inj ran)
    exact .loadReceivers pc
  case h_4 value index receivers pc =>
    split at ran
    · obtain ⟨rfl,rfl⟩ := Prod.mk.inj (Option.some.inj ran)
      exact .update pc (List.isEmpty_iff.mp ‹_›)
    · contradiction
  case h_5 pc =>
    obtain ⟨rfl,rfl⟩ := Prod.mk.inj (Option.some.inj ran)
    exact .close pc
  case h_6 pc =>
    obtain ⟨rfl,rfl⟩ := Prod.mk.inj (Option.some.inj ran)
    exact .loadTail pc
  case h_7 j pc =>
    obtain ⟨pos,receiver,eq⟩ := Option.map_eq_some_iff.mp ran
    obtain ⟨rfl,rfl⟩ := Prod.mk.inj eq
    simp only [compare]
    split
    · rename_i zero
      have none : (s.slots j).sequence - (pos + 1) = 0#64 :=
        BitVec.eq_of_toInt_eq (by simpa using zero)
      exact .ready pc receiver (by simpa using BitVec.sub_eq_iff_eq_add.mp none)
    · split
      · exact .behind pc receiver ‹_›
      · exact .ahead pc receiver (by omega)
  case h_8 j pc =>
    obtain ⟨pos,receiver,eq⟩ := Option.map_eq_some_iff.mp ran
    rw [show l' = (fetchSub t l s j pos).1 by rw [eq],show s' = (fetchSub t l s j pos).2 by rw [eq]]
    exact .fetchSub pc receiver
  case h_9 j last pc =>
    simp only [access,Option.some.injEq] at ran
    cases data : (s.slots j).data with
    | none =>
      simp only [data,Prod.mk.injEq] at ran
      obtain ⟨rfl,rfl⟩ := ran
      exact .accessNone pc data
    | some value =>
      simp only [data,Prod.mk.injEq] at ran
      obtain ⟨rfl,rfl⟩ := ran
      exact .access pc data
  case h_10 j after pc =>
    obtain ⟨rfl,rfl⟩ := Prod.mk.inj (Option.some.inj ran)
    exact .unlock pc
  case h_11 pc =>
    obtain ⟨rfl,rfl⟩ := Prod.mk.inj (Option.some.inj ran)
    exact .isClosed pc
  case h_12 pc =>
    obtain ⟨pos,receiver,eq⟩ := Option.map_eq_some_iff.mp ran
    rw [show l' = (skip t l s pos).1 by rw [eq],show s' = (skip t l s pos).2 by rw [eq]]
    exact .loadHead pc receiver
  case h_13 => contradiction

/-- The traces below have up to three tasks. -/
scoped instance threeTasks : NeZero (3 : Nat) := ⟨by decide⟩

end Broadcast
end XxCore.Sync
