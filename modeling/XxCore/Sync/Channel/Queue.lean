import Mathlib.Algebra.Group.Nat.Defs
import Mathlib.Data.Nat.Log
import XxCore.Lib.Threads

/-! The bounded queue inside `MCChannel` (`async_std/sync/channel/mp.rs`): each atomic access of
a counter or a sequence number and each access of a slot's data is one step of one thread. -/
namespace XxCore.Sync

/-- `usize` on a 64-bit target. -/
abbrev Word := BitVec 64

/-- `None` is memory that is not initialized, or whose value was moved out. -/
structure Slot (V : Type) where
  sequence : Word
  data : Option V

/-- `create_slots`: the slots and their number, if the size is accepted. A slot has `padding`
bytes besides its sequence number, and a `Vec` has at most `isize::MAX` bytes. -/
def createSlots (V : Type) (padding size : Nat) : Option (Nat × (Nat → Slot V)) :=
  if size = 0 then none
  else
    let size := 2 ^ Nat.clog 2 size
    if 2 ^ 63 < size then none
    else if 2 ^ 63 ≤ size * (8 + padding) then none
    else some (size,fun i => ⟨BitVec.ofNat 64 i,none⟩)

/-- Which end of the queue a call works on. -/
inductive Side where
  | send
  | recv
  deriving DecidableEq, Repr

/-- A value together with the call that brought it. -/
structure Sent (θ V : Type) where
  thread : θ
  call : Nat
  value : V

/-- `counter` is `tail` for the senders and `head` for the receivers. The fields after `slots`
are history, which no code reads; `fault` is a read of memory that holds no value. -/
structure Queue (θ V : Type) where
  counter : Side → Word
  capacity : Nat
  slots : Nat → Slot V
  claims : Side → Nat
  sent : List (Sent θ V)
  rejected : List (Sent θ V)
  received : List (Nat × V)
  fault : Bool

namespace Queue

variable {θ V : Type}

def new (slots : Nat × (Nat → Slot V)) : Queue θ V :=
  ⟨fun _ => 0,slots.1,slots.2,fun _ => 0,[],[],[],false⟩

def mask (s : Queue θ V) : Word := BitVec.ofNat 64 s.capacity - 1#64

/-- `pos & mask`, the index given to `get_unchecked`. -/
def index (s : Queue θ V) (pos : Word) : Nat := (pos &&& s.mask).toNat

/-- The argument `map` of `next_slot`: the sequence number it expects and the one it stores. -/
def map (capacity : Nat) : Side → Word → Word × Word
  | .send, pos => (pos,pos + 1)
  | .recv, pos => (pos + 1,pos + BitVec.ofNat 64 capacity)

/-- `sequence.wrapping_sub(expect) as isize` -/
def diff (s : Queue θ V) (side : Side) (pos : Word) : Int :=
  ((s.slots (s.index pos)).sequence - (map s.capacity side pos).1).toInt

inductive Op (V : Type) where
  | trySend (value : V)
  | tryRecv

def Op.side : Op V → Side
  | .trySend _ => .send
  | .tryRecv => .recv

inductive Outcome (V : Type) where
  | sent
  | full (value : V)
  | received (value : V)
  | empty

/-- The next step of a call of `next_slot`. A position that was loaded comes with its stamp, the
number of claims of the counter at that time; a claimed one with its ticket. -/
inductive Pc (V : Type) where
  | idle
  | returned (outcome : Outcome V)
  | loadCounter (op : Op V)
  | loadSequence (op : Op V) (pos : Word) (stamp : Nat)
  | exchange (op : Op V) (pos : Word) (stamp : Nat)
  | success (op : Op V) (pos : Word) (ticket : Nat)
  | storeSequence (op : Op V) (pos : Word) (ticket : Nat) (outcome : Outcome V)

structure Local (V : Type) where
  pc : Pc V
  /-- the number of calls so far -/
  calls : Nat

inductive Label (V : Type) where
  | call (op : Op V)
  /-- `compare_exchange_weak`, which may fail spuriously -/
  | exchange (spurious : Bool)
  | next

/-- What a failed call returns: a value that was to be sent is handed back. -/
def Op.failure : Op V → Outcome V
  | .trySend value => .full value
  | .tryRecv => .empty

def reject (t : θ) (l : Local V) (s : Queue θ V) (op : Op V) : Local V × Queue θ V :=
  ({ l with pc := .returned op.failure },
    match op with
    | .trySend value => { s with rejected := s.rejected ++ [⟨t,l.calls,value⟩] }
    | .tryRecv => s)

/-- The successful `compare_exchange_weak`. -/
def claim (t : θ) (l : Local V) (s : Queue θ V) (op : Op V) (pos : Word) : Local V × Queue θ V :=
  ({ l with pc := .success op pos (s.claims op.side) },
    { s with
      counter := Function.update s.counter op.side (pos + 1)
      claims := Function.update s.claims op.side (s.claims op.side + 1)
      sent := match op with
        | .trySend value => s.sent ++ [⟨t,l.calls,value⟩]
        | .tryRecv => s.sent })

def setSlot (s : Queue θ V) (pos : Word) (slot : Slot V) : Queue θ V :=
  { s with slots := Function.update s.slots (s.index pos) slot }

/-- Records that the value of a ticket was taken. -/
def take (s : Queue θ V) (ticket : Nat) (value : V) : Queue θ V :=
  { s with received := s.received ++ [(ticket,value)] }

/-- The access of the data in `success`: a write, or a read that moves the value out. -/
def access (l : Local V) (s : Queue θ V) (op : Op V) (pos : Word) (ticket : Nat) :
    Local V × Queue θ V :=
  let slot := s.slots (s.index pos)
  match op with
  | .trySend value =>
    ({ l with pc := .storeSequence op pos ticket .sent },
      s.setSlot pos { slot with data := some value })
  | .tryRecv =>
    match slot.data with
    | none => (l,{ s with fault := true })
    | some value =>
      ({ l with pc := .storeSequence op pos ticket (.received value) },
        (s.setSlot pos { slot with data := none }).take ticket value)

/-- One atomic step of `next_slot`, without the wake-up in `success`. -/
def prog : Threads.Program θ (Label V) (Local V) (Queue θ V) := fun t label l s =>
  match l.pc, label with
  | .idle, .call op | .returned _, .call op => some (⟨.loadCounter op,l.calls + 1⟩,s)
  | .loadCounter op, .next =>
    some ({ l with pc := .loadSequence op (s.counter op.side) (s.claims op.side) },s)
  | .loadSequence op pos stamp, .next =>
    if s.diff op.side pos = 0 then some ({ l with pc := .exchange op pos stamp },s)
    else if s.diff op.side pos < 0 then some (reject t l s op)
    else some ({ l with pc := .loadCounter op },s)
  | .exchange op pos _, .exchange spurious =>
    if spurious = false ∧ s.counter op.side = pos then some (claim t l s op pos)
    else some ({ l with pc := .loadCounter op },s)
  | .success op pos ticket, .next => some (access l s op pos ticket)
  | .storeSequence op pos _ outcome, .next =>
    some ({ l with pc := .returned outcome },s.setSlot pos
      { s.slots (s.index pos) with sequence := (map s.capacity op.side pos).2 })
  | _, _ => none

abbrev Config (θ V : Type) := Threads.Config θ (Queue θ V) (Local V)

def step [DecidableEq θ] : Config θ V → θ × Label V → Option (Config θ V) := Threads.step prog

def init (slots : Nat × (Nat → Slot V)) : Config θ V := ⟨new slots,fun _ => ⟨.idle,0⟩⟩

/-- The steps of a thread as a relation. -/
inductive Step (t : θ) (s : Queue θ V) : Local V → Label V → Local V → Queue θ V → Prop where
  | call (free : pc = .idle ∨ ∃ outcome, pc = .returned outcome) :
    Step t s ⟨pc,calls⟩ (.call op) ⟨.loadCounter op,calls + 1⟩ s
  | loadCounter : Step t s ⟨.loadCounter op,calls⟩ .next
      ⟨.loadSequence op (s.counter op.side) (s.claims op.side),calls⟩ s
  | ready (diff : s.diff op.side pos = 0) : Step t s ⟨.loadSequence op pos stamp,calls⟩ .next
      ⟨.exchange op pos stamp,calls⟩ s
  | rejectSend (diff : s.diff .send pos < 0) :
    Step t s ⟨.loadSequence (.trySend value) pos stamp,calls⟩ .next ⟨.returned (.full value),calls⟩
      { s with rejected := s.rejected ++ [⟨t,calls,value⟩] }
  | rejectRecv (diff : s.diff .recv pos < 0) :
    Step t s ⟨.loadSequence .tryRecv pos stamp,calls⟩ .next ⟨.returned .empty,calls⟩ s
  | behind (diff : 0 < s.diff op.side pos) : Step t s ⟨.loadSequence op pos stamp,calls⟩ .next
      ⟨.loadCounter op,calls⟩ s
  | claim (same : s.counter op.side = pos) :
    Step t s ⟨.exchange op pos stamp,calls⟩ (.exchange false)
      (Queue.claim t ⟨.exchange op pos stamp,calls⟩ s op pos).1
      (Queue.claim t ⟨.exchange op pos stamp,calls⟩ s op pos).2
  | retry : Step t s ⟨.exchange op pos stamp,calls⟩ (.exchange spurious) ⟨.loadCounter op,calls⟩ s
  | write : Step t s ⟨.success (.trySend value) pos ticket,calls⟩ .next
      ⟨.storeSequence (.trySend value) pos ticket .sent,calls⟩
      (s.setSlot pos { s.slots (s.index pos) with data := some value })
  | readNone (data : (s.slots (s.index pos)).data = none) :
    Step t s ⟨.success .tryRecv pos ticket,calls⟩ .next ⟨.success .tryRecv pos ticket,calls⟩
      { s with fault := true }
  | read (data : (s.slots (s.index pos)).data = some value) :
    Step t s ⟨.success .tryRecv pos ticket,calls⟩ .next
      ⟨.storeSequence .tryRecv pos ticket (.received value),calls⟩
      ((s.setSlot pos { s.slots (s.index pos) with data := none }).take ticket value)
  | storeSequence : Step t s ⟨.storeSequence op pos ticket outcome,calls⟩ .next
      ⟨.returned outcome,calls⟩ (s.setSlot pos
        { s.slots (s.index pos) with sequence := (map s.capacity op.side pos).2 })

theorem prog_step {t : θ} {label : Label V} {l l' : Local V} {s s' : Queue θ V}
    (stepped : prog t label l s = some (l',s')) : Step t s l label l' s' := by
  rcases l with ⟨pc,calls⟩
  unfold prog at stepped
  split at stepped
  case h_4 op pos stamp at_ =>
    obtain rfl : pc = _ := at_
    split at stepped
    · obtain ⟨rfl,rfl⟩ := Prod.mk.inj (Option.some.inj stepped)
      exact .ready ‹_›
    · split at stepped
      · obtain ⟨rfl,rfl⟩ := Prod.mk.inj (Option.some.inj stepped)
        cases op with
        | trySend value => exact .rejectSend ‹_›
        | tryRecv => exact .rejectRecv ‹_›
      · obtain ⟨rfl,rfl⟩ := Prod.mk.inj (Option.some.inj stepped)
        exact .behind (by omega)
  case h_5 op pos stamp spurious at_ =>
    obtain rfl : pc = _ := at_
    split at stepped
    · rename_i same
      obtain ⟨rfl,rfl⟩ := Prod.mk.inj (Option.some.inj stepped)
      rw [same.1]
      exact .claim same.2
    · obtain ⟨rfl,rfl⟩ := Prod.mk.inj (Option.some.inj stepped)
      exact .retry
  case h_6 op pos ticket at_ =>
    obtain rfl : pc = _ := at_
    cases op with
    | trySend value =>
      simp only [access,Option.some.injEq,Prod.mk.injEq] at stepped
      obtain ⟨rfl,rfl⟩ := stepped
      exact .write
    | tryRecv =>
      cases data : (s.slots (s.index pos)).data with
      | none =>
        simp only [access,data,Option.some.injEq,Prod.mk.injEq] at stepped
        obtain ⟨rfl,rfl⟩ := stepped
        exact .readNone data
      | some value =>
        simp only [access,data,Option.some.injEq,Prod.mk.injEq] at stepped
        obtain ⟨rfl,rfl⟩ := stepped
        exact .read data
  case h_8 => contradiction
  all_goals
    rename_i at_
    obtain rfl : pc = _ := at_
    obtain ⟨rfl,rfl⟩ := Prod.mk.inj (Option.some.inj stepped)
  · exact .call (.inl rfl)
  · exact .call (.inr ⟨_,rfl⟩)
  · exact .loadCounter
  · exact .storeSequence

end Queue
end XxCore.Sync
