import XxCore.Lib.Word
import XxCore.Sync.Broadcast

/-! The invariant of the broadcast channel: the machine words show the positions of the board, and
a task relies on nothing that the steps of the others can change. -/
namespace XxCore.Sync.Broadcast

variable {θ V : Type}

/-- The slot whose read lock the task holds. -/
def Pc.slot : Pc V → Option Nat
  | .loadSequence j | .fetchSub j | .access j _ | .unlock j _ => some j
  | _ => none

structure Shared (s : Broadcast θ V) : Prop where
  valid : s.board.Valid
  size : s.board.size = s.capacity
  capacity : ∃ k ≤ 63, s.capacity = 2 ^ k
  tail : s.tail = BitVec.ofNat 64 s.board.claims
  rxCount : s.rxCount = s.board.registered.length
  room : s.rxCount ≤ 2 ^ 63
  nodup : s.board.registered.Nodup
  sequence : ∀ j < s.capacity, (s.slots j).sequence = BitVec.ofNat 64 (s.board.cells j).number
  remaining : ∀ j < s.capacity,
    (s.slots j).remaining = BitVec.ofNat 64 (s.board.cells j).expected.length
  counted : ∀ j < s.capacity, (s.board.cells j).expected.length ≤ 2 ^ 63
  guards : ∀ j, (s.slots j).guards.Nodup
  data : ∀ k v, s.board.Shows k → s.board.sent k = some v →
    (s.slots (k % s.capacity)).data = some v
  unmoved : ∀ j < s.capacity, (s.board.cells j).expected ≠ [] → (s.slots j).moved = false

/-- The send that a task is in. -/
def Flying : Pc V → Option (Board.Flight θ) → Prop
  | .loadReceivers _ index, flight => ∃ k, flight = some ⟨k,none⟩ ∧ index = BitVec.ofNat 64 k
  | .update _ index receivers, flight => ∃ k counted, flight = some ⟨k,some counted⟩ ∧
    index = BitVec.ofNat 64 k ∧ receivers = counted.length ∧ counted.length ≤ 2 ^ 63
  | _, flight => flight = none

/-- What the task knows about the slot that it reads. -/
def Reading (s : Broadcast θ V) (reader : Option (Board.Reader V)) : Pc V → Prop
  | .loadSequence j => ∃ r, reader = some r ∧ j = r.position % s.capacity
  | .fetchSub j => ∃ r, reader = some r ∧ j = r.position % s.capacity ∧ s.board.Shows r.position
  | .access j last => ∃ r k v, reader = some r ∧ r.position = k + 1 ∧ j = k % s.capacity ∧
    s.board.Shows k ∧ s.board.sent k = some v ∧ (last = true → (s.board.cells j).expected = [])
  | _ => True

structure Own (t : θ) (s : Broadcast θ V) (l : Local V) : Prop where
  receiver : l.receiver = (s.board.readers t).map fun r => BitVec.ofNat 64 r.position
  registered : t ∈ s.board.registered ↔ l.receiver.isSome = true ∨ l.pc = .loadTail
  guards : ∀ j, t ∈ (s.slots j).guards ↔ l.pc.slot = some j
  flying : Flying l.pc (s.board.flights t)
  reading : Reading s (s.board.readers t) l.pc

def outline : Threads.Outline Unit θ (Broadcast θ V) (Local V) :=
  ⟨fun _ => Shared,fun _ => Own⟩

/-- The number of the slot that a `try_recv` loads is less than `2 ^ 64` from the one it wants. -/
def InLap (c : Config θ V) (label : θ × Label V) : Prop :=
  ∀ j r, (c.locals label.1).pc = .loadSequence j → c.shared.board.readers label.1 = some r →
    (c.shared.board.cells j).number < r.position + 1 + 2 ^ 64 ∧
    r.position + 1 < (c.shared.board.cells j).number + 2 ^ 64

theorem Shared.positive {s : Broadcast θ V} (shared : Shared s) : 0 < s.capacity := by
  rw [← shared.size]
  exact shared.valid.pos

theorem Shared.masked {s : Broadcast θ V} (shared : Shared s) (p : Nat) :
    s.masked (BitVec.ofNat 64 p) = p % s.capacity := by
  obtain ⟨k,le,capacity⟩ := shared.capacity
  rw [Broadcast.masked,mask,capacity]
  exact Word.toNat_and_mask (by omega)

theorem Shared.mod_lt {s : Broadcast θ V} (shared : Shared s) (p : Nat) :
    p % s.capacity < s.capacity := Nat.mod_lt p shared.positive

/-- The counter of a slot says how many receivers it waits for. -/
theorem Shared.remaining_eq {s : Broadcast θ V} (shared : Shared s) {j : Nat} (lt : j < s.capacity)
    {n : Nat} (small : n ≤ 2 ^ 63) :
    (s.slots j).remaining = BitVec.ofNat 64 n ↔ (s.board.cells j).expected.length = n := by
  have := shared.counted j lt
  rw [shared.remaining j lt]
  exact Word.ofNat_inj (by omega) (by omega)

theorem Shared.remaining_eq_zero {s : Broadcast θ V} (shared : Shared s) {j : Nat}
    (lt : j < s.capacity) : (s.slots j).remaining = 0 ↔ (s.board.cells j).expected = [] :=
  (shared.remaining_eq lt (Nat.zero_le _)).trans List.length_eq_zero_iff

/-- A slot that waits for a receiver holds the value of the index that it shows. -/
theorem Shared.waits {s : Broadcast θ V} (shared : Shared s) {j : Nat} (lt : j < s.capacity)
    (waits : (s.board.cells j).expected ≠ []) :
    ∃ k v, j = k % s.capacity ∧ s.board.Shows k ∧ s.board.sent k = some v := by
  obtain ⟨k,rfl,shows_⟩ := shared.valid.shows_of_expected (by rw [shared.size]; exact lt) waits
  obtain ⟨v,sent⟩ := shared.valid.shown k shows_ waits
  exact ⟨k,v,by rw [shared.size],shows_,sent⟩

/-- A slot that shows the index of a receiver waits for it. -/
theorem Shared.expects {s : Broadcast θ V} (shared : Shared s) {t : θ} {r : Board.Reader V}
    (reader : s.board.readers t = some r) (shows_ : s.board.Shows r.position) :
    t ∈ (s.board.cells (r.position % s.capacity)).expected := by
  have covered := shared.valid.covered _ shows_ t r reader (Nat.le_refl _)
  rwa [Board.cellOf,shared.size] at covered

/-- Who is free holds no lock and is in no send. -/
theorem Own.free {t : θ} {s : Broadcast θ V} {l : Local V} (own : Own t s l)
    (free : l.pc.isFree = true) : s.board.flights t = none ∧ (∀ j, t ∉ (s.slots j).guards) ∧
      (t ∈ s.board.registered ↔ l.receiver.isSome = true) := by
  have flying := own.flying
  have guards := own.guards
  have registered := own.registered
  cases pc : l.pc with
  | idle | returned =>
    rw [pc] at flying guards registered
    exact ⟨flying,fun j => by simp [guards j,Pc.slot],by simp [registered]⟩
  | _ => simp [pc,Pc.isFree] at free

theorem Own.reader {t : θ} {s : Broadcast θ V} {l : Local V} (own : Own t s l) {pos : Word}
    (receiver : l.receiver = some pos) :
    ∃ r, s.board.readers t = some r ∧ pos = BitVec.ofNat 64 r.position := by
  obtain ⟨r,reader,eq⟩ := Option.map_eq_some_iff.mp (own.receiver.symm.trans receiver)
  exact ⟨r,reader,eq.symm⟩

theorem Own.updating {t : θ} {s : Broadcast θ V} {l : Local V} (own : Own t s l) {value : V}
    {index : Word} {receivers : Nat} (pc : l.pc = .update value index receivers) :
    ∃ k counted, s.board.flights t = some ⟨k,some counted⟩ ∧ index = BitVec.ofNat 64 k ∧
      receivers = counted.length ∧ counted.length ≤ 2 ^ 63 := by
  have flying := own.flying
  rw [pc] at flying
  exact flying

theorem Own.loading {t : θ} {s : Broadcast θ V} {l : Local V} (own : Own t s l) {j : Nat}
    (pc : l.pc = .loadSequence j) :
    ∃ r, s.board.readers t = some r ∧ j = r.position % s.capacity := by
  have reading := own.reading
  rw [pc] at reading
  exact reading

theorem Own.taking {t : θ} {s : Broadcast θ V} {l : Local V} (own : Own t s l) {j : Nat}
    (pc : l.pc = .fetchSub j) :
    ∃ r, s.board.readers t = some r ∧ j = r.position % s.capacity ∧ s.board.Shows r.position := by
  have reading := own.reading
  rw [pc] at reading
  exact reading

theorem Own.using_ {t : θ} {s : Broadcast θ V} {l : Local V} (own : Own t s l) {j : Nat}
    {last : Bool} (pc : l.pc = .access j last) :
    ∃ r k v, s.board.readers t = some r ∧ r.position = k + 1 ∧ j = k % s.capacity ∧
      s.board.Shows k ∧ s.board.sent k = some v ∧ (last = true → (s.board.cells j).expected = []) := by
  have reading := own.reading
  rw [pc] at reading
  exact reading

/-- What a step of another task leaves to a task. -/
structure Frame (u : θ) (s s' : Broadcast θ V) : Prop where
  capacity : s'.capacity = s.capacity
  reader : s'.board.readers u = s.board.readers u
  flight : s'.board.flights u = s.board.flights u
  registered : u ∈ s'.board.registered ↔ u ∈ s.board.registered
  guards : ∀ j, u ∈ (s'.slots j).guards ↔ u ∈ (s.slots j).guards
  sent : ∀ k v, s.board.sent k = some v → s'.board.sent k = some v
  shows_ : ∀ k, u ∈ (s.slots (k % s.capacity)).guards → s.board.Shows k → s'.board.Shows k
  expected : ∀ j, u ∈ (s.slots j).guards → (s.board.cells j).expected = [] →
    (s'.board.cells j).expected = []

theorem Own.frame {u : θ} {s s' : Broadcast θ V} {l : Local V} (own : Own u s l)
    (frame : Frame u s s') : Own u s' l where
  receiver := by rw [frame.reader]; exact own.receiver
  registered := frame.registered.trans own.registered
  guards := fun j => (frame.guards j).trans (own.guards j)
  flying := by rw [frame.flight]; exact own.flying
  reading := by
    have reading := own.reading
    have guards := own.guards
    rw [frame.reader]
    cases pc : l.pc with
    | loadSequence j =>
      rw [pc] at reading
      simpa only [Reading,frame.capacity] using reading
    | fetchSub j =>
      rw [pc] at reading guards
      obtain ⟨r,reader,rfl,shows_⟩ := reading
      exact ⟨r,reader,by rw [frame.capacity],frame.shows_ _ ((guards _).mpr rfl) shows_⟩
    | access j last =>
      rw [pc] at reading guards
      obtain ⟨r,k,v,reader,eq,rfl,shows_,sent,none⟩ := reading
      have mine := (guards _).mpr rfl
      exact ⟨r,k,v,reader,eq,by rw [frame.capacity],frame.shows_ k mine shows_,
        frame.sent k v sent,fun last => frame.expected _ mine (none last)⟩
    | _ => trivial

/-- A step that changes no slot and not the board. -/
theorem Frame.same {u : θ} {s s' : Broadcast θ V} (capacity : s'.capacity = s.capacity)
    (board : s'.board = s.board) (slots : s'.slots = s.slots) : Frame u s s' := by
  constructor <;> simp_all

@[simp] theorem setSlot_self {s : Broadcast θ V} {j : Nat} {slot : Slot θ V} :
    (s.setSlot j slot).slots j = slot := by simp [setSlot]

@[simp] theorem setSlot_capacity {s : Broadcast θ V} {j : Nat} {slot : Slot θ V} :
    (s.setSlot j slot).capacity = s.capacity := rfl

theorem setSlot_ne {s : Broadcast θ V} {i j : Nat} {slot : Slot θ V} (ne : i ≠ j) :
    (s.setSlot j slot).slots i = s.slots i := by simp [setSlot,ne]

/-- A step that shows nothing new and concerns no handle of the other task. -/
theorem Frame.board {u : θ} {s : Broadcast θ V} {b : Board θ V} {tail : Word} {rxCount : Nat}
    (shows_ : ∀ k, s.board.Shows k → b.Shows k) (sent : b.sent = s.board.sent)
    (cells : b.cells = s.board.cells) (reader : b.readers u = s.board.readers u)
    (flight : b.flights u = s.board.flights u)
    (registered : u ∈ b.registered ↔ u ∈ s.board.registered) :
    Frame u s { s with board := b, tail, rxCount } where
  capacity := rfl
  reader := reader
  flight := flight
  registered := registered
  guards := fun _ => .rfl
  sent := fun k v eq => by rw [sent]; exact eq
  shows_ := fun k _ => shows_ k
  expected := fun j _ eq => by rw [cells]; exact eq

theorem Frame.setGuards {u : θ} {s : Broadcast θ V} {j : Nat} {guards : List θ}
    (same : u ∈ guards ↔ u ∈ (s.slots j).guards) :
    Frame u s (s.setSlot j { s.slots j with guards }) := by
  refine ⟨rfl,rfl,rfl,.rfl,fun i => ?_,fun _ _ => id,fun _ _ => id,fun _ _ => id⟩
  by_cases eq : i = j
  · simpa [eq] using same
  · simp [setSlot_ne eq]

/-- The task goes on in a part of the code where it holds the same lock and the same handles. -/
theorem Own.change {t : θ} {s : Broadcast θ V} {l l' : Local V} (own : Own t s l)
    (receiver : l'.receiver = l.receiver) (tail : l'.pc = .loadTail ↔ l.pc = .loadTail)
    (slot : l'.pc.slot = l.pc.slot) (flying : Flying l'.pc (s.board.flights t))
    (reading : Reading s (s.board.readers t) l'.pc) : Own t s l' where
  receiver := receiver.trans own.receiver
  registered := by rw [receiver,tail]; exact own.registered
  guards := by rw [slot]; exact own.guards
  flying := flying
  reading := reading

theorem free_pc {pc : Pc V} (free : pc.isFree = true) : pc.slot = none ∧ pc ≠ .loadTail := by
  cases pc <;> simp_all [Pc.isFree,Pc.slot]

@[simp] theorem goto_pc {l : Local V} {pc : Pc V} : (l.goto pc).pc = pc := rfl

@[simp] theorem goto_receiver {l : Local V} {pc : Pc V} : (l.goto pc).receiver = l.receiver := rfl

/-- A change of one slot that only its guards notice. -/
theorem Shared.setGuards {s : Broadcast θ V} (shared : Shared s) (j : Nat) {guards : List θ}
    (nodup : guards.Nodup) : Shared (s.setSlot j { s.slots j with guards }) := by
  have slots (i : Nat) : (s.setSlot j { s.slots j with guards }).slots i =
      { s.slots i with guards := if i = j then guards else (s.slots i).guards } := by
    by_cases same : i = j
    · simp [same]
    · simp [setSlot_ne same,same]
  refine { shared with sequence := ?_, remaining := ?_, guards := ?_, data := ?_, unmoved := ?_ }
  · intro i lt; rw [slots]; exact shared.sequence i lt
  · intro i lt; rw [slots]; exact shared.remaining i lt
  · intro i
    rw [slots]
    dsimp only
    split
    · exact nodup
    · exact shared.guards i
  · intro k v shows_ sent
    rw [slots]
    exact shared.data k v shows_ sent
  · intro i lt waits; rw [slots]; exact shared.unmoved i lt waits

variable [DecidableEq θ]

theorem Shared.of_put {s : Broadcast θ V} (shared : Shared s) {t : θ} {k : Nat} {counted : List θ}
    (value : V) (flight : s.board.flights t = some ⟨k,some counted⟩)
    (bound : counted.length ≤ 2 ^ 63) :
    Shared (put t s value (BitVec.ofNat 64 k) counted.length) := by
  have valid := shared.valid.publish value flight
  have fresh := (shared.valid.flight t _ flight).2.2
  have slots (j : Nat) : (put t s value (BitVec.ofNat 64 k) counted.length).slots j =
      if j = k % s.capacity then
        { s.slots j with
          remaining := BitVec.ofNat 64 counted.length
          sequence := BitVec.ofNat 64 k + 1
          data := if counted.length = 0 then (s.slots j).data else some value
          moved := decide (counted.length = 0) &&
            ((s.slots j).moved || decide ((s.slots j).remaining ≠ 0)) }
      else s.slots j := by
    by_cases same : j = k % s.capacity
    · simp [Broadcast.put,shared.masked,same]
    · simp [Broadcast.put,shared.masked,same,setSlot_ne]
  have cells (j : Nat) : (put t s value (BitVec.ofNat 64 k) counted.length).board.cells j =
      if j = k % s.capacity then ⟨k + 1,counted⟩ else s.board.cells j := by
    by_cases same : j = k % s.capacity <;>
      simp [Broadcast.put,Board.publish_eq value flight,shared.size,same]
  have board : (put t s value (BitVec.ofNat 64 k) counted.length).board =
    s.board.publish t value := rfl
  refine ⟨valid,?_,shared.capacity,?_,?_,shared.room,?_,?_,?_,?_,?_,?_,?_⟩
  · rw [board,Board.publish_eq value flight]; exact shared.size
  · rw [board,Board.publish_eq value flight]; exact shared.tail
  · rw [board,Board.publish_eq value flight]; exact shared.rxCount
  · rw [board,Board.publish_eq value flight]; exact shared.nodup
  · intro j lt
    rw [slots,cells]
    split
    · exact (BitVec.ofNat_add k 1).symm
    · exact shared.sequence j lt
  · intro j lt
    rw [slots,cells]
    split
    · rfl
    · exact shared.remaining j lt
  · intro j lt
    rw [cells]
    split
    · exact bound
    · exact shared.counted j lt
  · intro j
    rw [slots]
    split
    · exact shared.guards j
    · exact shared.guards j
  · intro i v shows_ sent
    rw [board,Board.shows_publish flight,shared.size] at shows_
    rw [board,Board.publish_eq value flight] at sent
    rw [slots,show (put t s value (BitVec.ofNat 64 k) counted.length).capacity = s.capacity from rfl]
    split at shows_
    · subst shows_
      cases counted with
      | nil => simp [fresh] at sent
      | cons u rest => simpa using sent
    · rename_i other
      have ne : i ≠ k := fun eq => other (by rw [eq])
      rw [if_neg other]
      apply shared.data i v shows_
      split at sent
      · exact sent
      · simpa [ne] using sent
  · intro j lt waits
    rw [cells] at waits
    rw [slots]
    split at waits
    · rw [if_pos ‹_›]
      simp only at waits
      simp [waits]
    · rw [if_neg ‹_›]
      exact shared.unmoved j lt waits

theorem Shared.of_fetchSub {s : Broadcast θ V} (shared : Shared s) {t : θ} {l : Local V}
    {r : Board.Reader V} (reader : s.board.readers t = some r) (shows_ : s.board.Shows r.position)
    (pos : Word) : Shared (fetchSub t l s (r.position % s.capacity) pos).2 := by
  have mem := shared.expects reader shows_
  have valid := shared.valid.take reader shows_
  rw [shared.size] at valid
  have lt := shared.mod_lt r.position
  have cells (j : Nat) : (s.board.take t (r.position % s.capacity)).cells j =
      if j = r.position % s.capacity then
        { s.board.cells j with expected := (s.board.cells j).expected.erase t }
      else s.board.cells j := by
    by_cases same : j = r.position % s.capacity <;> simp [Board.take,same]
  have length := List.length_erase_of_mem mem
  have positive := List.length_pos_of_mem mem
  refine ⟨valid,shared.size,shared.capacity,shared.tail,shared.rxCount,shared.room,shared.nodup,
    ?_,?_,?_,?_,?_,?_⟩
  all_goals dsimp only [fetchSub]
  · intro j lt
    rw [cells]
    by_cases same : j = r.position % s.capacity
    · simpa [same] using shared.sequence _ (shared.mod_lt _)
    · simpa [setSlot_ne same,same] using shared.sequence j lt
  · intro j lt'
    rw [cells]
    by_cases same : j = r.position % s.capacity
    · have remaining := shared.remaining _ lt
      simp only [same,setSlot_self,if_true,length,remaining]
      rw [BitVec.sub_eq_iff_eq_add,show (1 : Word) = BitVec.ofNat 64 1 from rfl,← BitVec.ofNat_add,
        Nat.sub_add_cancel positive]
    · simpa [setSlot_ne same,same] using shared.remaining j lt'
  · intro j lt'
    rw [cells]
    by_cases same : j = r.position % s.capacity
    · have := shared.counted _ lt
      simp only [same,if_true,length]
      omega
    · simpa [same] using shared.counted j lt'
  · intro j
    by_cases same : j = r.position % s.capacity
    · simpa [same] using shared.guards _
    · simpa [setSlot_ne same] using shared.guards j
  · intro k v shown sent
    have before : s.board.Shows k := by
      rw [Board.Shows,Board.cellOf,cells] at shown
      split at shown <;> exact shown
    by_cases same : k % s.capacity = r.position % s.capacity
    · simpa [← same] using shared.data k v before sent
    · simpa [setSlot_ne same] using shared.data k v before sent
  · intro j lt' waits
    rw [cells] at waits
    by_cases same : j = r.position % s.capacity
    · subst same
      simpa using shared.unmoved _ lt fun none => by simp [none] at mem
    · simp only [same,if_false] at waits
      simpa [setSlot_ne same] using shared.unmoved j lt' waits

theorem Shared.modify {s : Broadcast θ V} (shared : Shared s) (t : θ)
    {f : Board.Reader V → Board.Reader V} (forward : ∀ r, s.board.readers t = some r →
      r.position ≤ (f r).position ∨ s.board.claims ≤ (f r).position) :
    Shared { s with board := s.board.modify t f } :=
  { shared with
    valid := shared.valid.modify t forward
    data := shared.data }

theorem Shared.of_readOut {s : Broadcast θ V} (shared : Shared s) {j : Nat} {last : Bool}
    (none : last = true → (s.board.cells j).expected = []) (t : θ) (value : V) :
    Shared (readOut t s j last value) := by
  have delivered := shared.modify t
    (f := fun r => { r with events := r.events ++ [.delivered ((s.board.cells j).number - 1) value] })
    fun r _ => .inl (Nat.le_refl _)
  have slots (i : Nat) : (readOut t s j last value).slots i =
      { s.slots i with moved := (s.slots i).moved || (decide (i = j) && last) } := by
    by_cases same : i = j
    · simp [readOut,same]
    · simp [readOut,setSlot_ne same,same]
  refine { delivered with sequence := ?_, remaining := ?_, guards := ?_, data := ?_, unmoved := ?_ }
  · intro i lt; rw [slots]; exact shared.sequence i lt
  · intro i lt; rw [slots]; exact shared.remaining i lt
  · intro i; rw [slots]; exact shared.guards i
  · intro k v shows_ sent; rw [slots]; exact shared.data k v shows_ sent
  · intro i lt waits
    have waits : (s.board.cells i).expected ≠ [] := waits
    rw [slots]
    simp only [shared.unmoved i lt waits,Bool.false_or,Bool.and_eq_false_imp,decide_eq_true_eq]
    rintro rfl
    exact Bool.eq_false_iff.mpr fun last => waits (none last)

/-- A step keeps what is said of the channel. -/
theorem Step.shared {t : θ} {l l' : Local V} {s s' : Broadcast θ V} {label : Label V}
    (step : Step t l s label l' s') (shared : Shared s) (own : Own t s l) : Shared s' := by
  cases step with
  | send free =>
    refine { shared with valid := shared.valid.claim t, tail := ?_, data := shared.data }
    simp only [shared.tail]
    exact (BitVec.ofNat_add _ 1).symm
  | cloneSender | dropSender | close | accessNone => exact { shared with data := shared.data }
  | ready | behind | ahead | isClosed => exact shared
  | subscribe free none room =>
    have absent : t ∉ s.board.registered := by simp [(own.free free).2.2,none]
    refine { shared with
      valid := shared.valid.register t, rxCount := ?_, room := ?_, nodup := ?_, data := shared.data }
    · simp [Board.register,shared.rxCount]
    · have := shared.room
      dsimp only
      omega
    · exact List.nodup_cons.mpr ⟨absent,shared.nodup⟩
  | synchronize free receiver => exact shared.modify t fun r _ => .inr (Nat.le_refl _)
  | tryRecv free receiver =>
    exact shared.setGuards _ (List.nodup_cons.mpr ⟨(own.free free).2.1 _,shared.guards _⟩)
  | dropReceiver free receiver =>
    have mem : t ∈ s.board.registered := by simp [(own.free free).2.2,receiver]
    refine { shared with
      valid := shared.valid.leave t, rxCount := ?_, room := ?_, nodup := ?_, data := shared.data }
    · simp [Board.leave,shared.rxCount,List.length_erase_of_mem mem]
    · exact Nat.le_trans (Nat.sub_le _ _) shared.room
    · exact shared.nodup.erase t
  | loadReceivers pc =>
    exact { shared with valid := shared.valid.count t, data := shared.data }
  | update pc unlocked =>
    obtain ⟨k,counted,flight,rfl,rfl,bound⟩ := own.updating pc
    exact shared.of_put _ flight bound
  | loadTail pc =>
    have mem : t ∈ s.board.registered := own.registered.mpr (.inr pc)
    exact { shared with valid := shared.valid.enter mem, data := shared.data }
  | fetchSub pc receiver =>
    obtain ⟨r,reader,rfl,shows_⟩ := own.taking pc
    exact shared.of_fetchSub reader shows_ _
  | access pc data =>
    obtain ⟨_,_,_,_,_,_,_,_,none⟩ := own.using_ pc
    exact shared.of_readOut none t _
  | unlock pc => exact shared.setGuards _ ((shared.guards _).erase t)
  | loadHead pc receiver =>
    exact shared.modify t fun r _ => .inl (Nat.le_add_right _ _)

theorem Frame.put {t u : θ} {s : Broadcast θ V} (shared : Shared s) (ne : u ≠ t) {k : Nat}
    {counted : List θ} (value : V) (flight : s.board.flights t = some ⟨k,some counted⟩)
    (unlocked : (s.slots (k % s.capacity)).guards = []) (receivers : Nat) :
    Frame u s (put t s value (BitVec.ofNat 64 k) receivers) := by
  have fresh := (shared.valid.flight t _ flight).2.2
  have board : (Broadcast.put t s value (BitVec.ofNat 64 k) receivers).board =
    s.board.publish t value := rfl
  have other {j : Nat} (mem : u ∈ (s.slots j).guards) : j ≠ k % s.capacity := by
    rintro rfl
    simp [unlocked] at mem
  refine ⟨rfl,?_,?_,?_,fun j => ?_,fun i v sent => ?_,fun i mem shows_ => ?_,fun j mem none => ?_⟩
  · rw [board,Board.publish_eq value flight]
  · rw [board,Board.publish_eq value flight]
    simp [ne]
  · rw [board,Board.publish_eq value flight]
  · by_cases same : j = k % s.capacity
    · simp [Broadcast.put,shared.masked,same]
    · simp [Broadcast.put,shared.masked,setSlot_ne same]
  · have ne : i ≠ k := by
      rintro rfl
      simp [fresh] at sent
    rw [board,Board.publish_eq value flight]
    dsimp only
    split
    · exact sent
    · simpa [ne] using sent
  · rw [board,Board.shows_publish flight,shared.size,if_neg (other mem)]
    exact shows_
  · rw [board,Board.publish_eq value flight,shared.size]
    simpa [other mem] using none

/-- A step interferes with no other task. -/
theorem Step.frame {t u : θ} {l l' : Local V} {s s' : Broadcast θ V} {label : Label V}
    (step : Step t l s label l' s') (shared : Shared s) (own : Own t s l) (ne : u ≠ t) :
    Frame u s s' := by
  cases step with
  | send free => exact .board (fun _ => id) rfl rfl rfl (by simp [Board.claim,ne]) .rfl
  | cloneSender | dropSender | close | accessNone => exact .same rfl rfl rfl
  | ready | behind | ahead | isClosed => exact .same rfl rfl rfl
  | subscribe free none room =>
    exact .board (fun _ => id) rfl rfl rfl rfl (by simp [Board.register,ne])
  | synchronize free receiver =>
    exact .board (fun _ => id) rfl rfl (by simp [Board.synchronize,Board.modify,ne]) rfl .rfl
  | tryRecv free receiver => exact .setGuards (by simp [ne])
  | dropReceiver free receiver =>
    exact .board (fun _ => id) rfl rfl (by simp [Board.leave,ne]) rfl
      (by simp [Board.leave,List.mem_erase_of_ne ne])
  | loadReceivers pc => exact .board (fun _ => id) rfl rfl rfl (by simp [Board.count,ne]) .rfl
  | update pc unlocked =>
    obtain ⟨k,counted,flight,rfl,_,_⟩ := own.updating pc
    rw [shared.masked] at unlocked
    exact .put shared ne _ flight unlocked _
  | loadTail pc => exact .board (fun _ => id) rfl rfl (by simp [Board.enter,ne]) rfl .rfl
  | fetchSub pc receiver =>
    rename_i j pos
    refine ⟨rfl,?_,rfl,.rfl,fun i => ?_,fun _ _ => id,fun k _ shows_ => ?_,fun i _ none => ?_⟩
    all_goals dsimp only [Broadcast.fetchSub]
    · simp [Board.take,Board.modify,ne]
    · by_cases same : i = j
      · simp [same]
      · simp [setSlot_ne same]
    · rw [Board.Shows,Board.cellOf] at shows_ ⊢
      by_cases same : k % s.board.size = j
      · simpa [Board.take,Board.modify,same] using shows_
      · simpa [Board.take,Board.modify,same] using shows_
    · by_cases same : i = j
      · subst same
        simp [Board.take,none]
      · simpa [Board.take,same] using none
  | access pc data =>
    rename_i j last value
    refine ⟨rfl,by simp [readOut,Board.deliver,Board.modify,ne],rfl,.rfl,fun i => ?_,fun _ _ => id,
      fun _ _ => id,fun _ _ => id⟩
    by_cases same : i = j
    · simp [readOut,same]
    · simp [readOut,setSlot_ne same]
  | unlock pc => exact .setGuards (by simp [List.mem_erase_of_ne ne])
  | loadHead pc receiver =>
    exact .board (fun _ => id) rfl rfl (by simp [Board.lag,Board.modify,ne]) rfl .rfl

/-- A step keeps what its task knows. -/
theorem Step.own {t : θ} {l l' : Local V} {s s' : Broadcast θ V} {label : Label V}
    (step : Step t l s label l' s') (shared : Shared s) (own : Own t s l)
    (inLap : ∀ j r, l.pc = .loadSequence j → s.board.readers t = some r →
      (s.board.cells j).number < r.position + 1 + 2 ^ 64 ∧
      r.position + 1 < (s.board.cells j).number + 2 ^ 64) : Own t s' l' := by
  have receiver := own.receiver
  have registered := own.registered
  have guards := own.guards
  have flying := own.flying
  have reading := own.reading
  cases step with
  | send free =>
    obtain ⟨_,unlocked,mine⟩ := own.free free
    refine ⟨receiver,?_,?_,⟨s.board.claims,by simp [Board.claim],shared.tail⟩,trivial⟩
    · simpa [Board.claim] using mine
    · intro j; simpa [Pc.slot] using unlocked j
  | cloneSender free =>
    obtain ⟨slot,tail⟩ := free_pc free
    have own : Own t { s with txCount := s.txCount + 1 } l := own.frame (.same rfl rfl rfl)
    exact own.change rfl (by simp [tail]) (by rw [slot]; rfl) (own.free free).1 trivial
  | dropSender free =>
    obtain ⟨slot,tail⟩ := free_pc free
    have own : Own t { s with txCount := s.txCount - 1 } l := own.frame (.same rfl rfl rfl)
    refine own.change rfl ?_ ?_ ?_ ?_
    all_goals dsimp only
    · split <;> simp [tail]
    · rw [slot]; split <;> rfl
    · split <;> exact (own.free free).1
    · split <;> trivial
  | close pc =>
    rw [pc] at flying
    have own : Own t { s with closed := true } l := own.frame (.same rfl rfl rfl)
    exact own.change rfl (by simp [pc]) (by rw [pc]; rfl) flying trivial
  | accessNone pc => exact own.frame (.same rfl rfl rfl)
  | ready pc has same =>
    rw [pc] at flying reading
    obtain ⟨r,reader,rfl⟩ := reading
    refine own.change rfl (by simp [pc]) (by rw [pc]; rfl) flying ⟨r,reader,rfl,?_⟩
    obtain ⟨above,below⟩ := inLap _ r pc reader
    rw [receiver,reader] at has
    obtain rfl := Option.some.inj has
    rw [shared.sequence _ (shared.mod_lt _),show (1 : Word) = BitVec.ofNat 64 1 from rfl,
      ← BitVec.ofNat_add,Word.ofNat_inj above below] at same
    rw [Board.Shows,Board.cellOf,shared.size]
    exact same
  | behind pc | ahead pc =>
    rw [pc] at flying
    exact own.change rfl (by simp [pc]) (by rw [pc]; rfl) flying trivial
  | isClosed pc =>
    rw [pc] at flying
    exact own.change rfl (by simp [pc]) (by rw [pc]; rfl) flying trivial
  | subscribe free none room =>
    obtain ⟨flight,unlocked,mine⟩ := own.free free
    refine ⟨receiver,by simp [Board.register],?_,flight,trivial⟩
    intro j; simpa [Pc.slot] using unlocked j
  | synchronize free has =>
    obtain ⟨flight,unlocked,mine⟩ := own.free free
    obtain ⟨r,reader,_⟩ := own.reader has
    refine ⟨?_,?_,?_,flight,trivial⟩
    · simp [Board.synchronize,Board.modify,reader,shared.tail]
    · simpa [Board.synchronize,Board.modify,has] using mine
    · intro j; simpa [Pc.slot] using unlocked j
  | tryRecv free has =>
    obtain ⟨flight,unlocked,mine⟩ := own.free free
    obtain ⟨r,reader,rfl⟩ := own.reader has
    refine ⟨receiver,?_,?_,flight,⟨r,reader,shared.masked _⟩⟩
    · simpa [setSlot] using mine
    · intro j
      by_cases same : j = s.masked (BitVec.ofNat 64 r.position)
      · simp [Pc.slot,same]
      · simpa [setSlot_ne same,Pc.slot,Ne.symm same] using unlocked j
  | dropReceiver free has =>
    obtain ⟨flight,unlocked,mine⟩ := own.free free
    refine ⟨by simp [Board.leave],?_,?_,flight,trivial⟩
    · simpa [Board.leave] using shared.nodup.not_mem_erase
    · intro j; simpa [Pc.slot] using unlocked j
  | loadReceivers pc =>
    rw [pc] at flying guards registered
    obtain ⟨k,flight,rfl⟩ := flying
    refine ⟨receiver,?_,guards,⟨k,s.board.registered,by simp [Board.count,flight],rfl,
      shared.rxCount,?_⟩,trivial⟩
    · simpa [Board.count] using registered
    · rw [← shared.rxCount]; exact shared.room
  | update pc unlocked =>
    rw [pc] at flying guards registered
    obtain ⟨k,counted,flight,rfl,rfl,bound⟩ := flying
    refine ⟨?_,?_,?_,?_,trivial⟩
    · simpa [put,Board.publish_eq _ flight] using receiver
    · simpa [put,Board.publish_eq _ flight] using registered
    · intro j
      by_cases same : j = s.masked (BitVec.ofNat 64 k)
      · simpa [put,same,Pc.slot] using guards j
      · simpa [put,setSlot_ne same,Pc.slot] using guards j
    · simp [put,Board.publish_eq _ flight,Flying]
  | loadTail pc =>
    rw [pc] at flying guards registered
    refine ⟨by simp [Board.enter,shared.tail],?_,guards,flying,trivial⟩
    simpa [Board.enter] using registered
  | fetchSub pc has =>
    rw [pc] at flying guards registered reading
    obtain ⟨r,reader,rfl,shows_⟩ := reading
    have lt := shared.mod_lt r.position
    have mem := shared.expects reader shows_
    obtain ⟨v,sent⟩ := shared.valid.shown _ shows_ (by
      rw [Board.cellOf,shared.size]
      exact List.ne_nil_of_mem mem)
    rw [receiver,reader] at has
    obtain rfl := Option.some.inj has
    have took : (s.board.take t (r.position % s.capacity)).readers t =
        some { r with position := r.position + 1 } := by simp [Board.take,Board.modify,reader]
    refine ⟨?_,?_,?_,flying,⟨_,r.position,v,took,rfl,rfl,?_,sent,fun last => ?_⟩⟩
    · simp [Broadcast.fetchSub,Board.take,Board.modify,reader,BitVec.ofNat_add]
    · simpa [Broadcast.fetchSub,Board.take,Board.modify,receiver,reader] using registered
    · intro j
      by_cases same : j = r.position % s.capacity
      · simpa [Broadcast.fetchSub,same,Pc.slot] using guards j
      · simpa [Broadcast.fetchSub,setSlot_ne same,Pc.slot] using guards j
    · rw [Board.Shows,Board.cellOf,shared.size] at shows_
      simpa [Broadcast.fetchSub,Board.Shows,Board.cellOf,Board.take,Board.modify,shared.size] using shows_
    · have one : (s.board.cells (r.position % s.capacity)).expected.length = 1 :=
        (shared.remaining_eq lt (by omega)).mp (of_decide_eq_true last)
      obtain ⟨u,alone⟩ := List.length_eq_one_iff.mp one
      rw [alone,List.mem_singleton] at mem
      simp [Broadcast.fetchSub,Board.take,alone,mem]
  | access pc data =>
    rw [pc] at flying guards registered reading
    rename_i j last value
    refine ⟨?_,?_,?_,flying,trivial⟩
    · rw [goto_receiver,receiver]
      simp [readOut,Board.deliver,Board.modify,Function.comp_def]
    · simpa [readOut,Board.deliver,Board.modify] using registered
    · intro i
      by_cases same : i = j
      · simpa [readOut,same,Pc.slot] using guards i
      · simpa [readOut,setSlot_ne same,Pc.slot] using guards i
  | unlock pc =>
    rw [pc] at flying guards registered
    rename_i j after
    refine ⟨receiver,?_,?_,?_,?_⟩
    · cases after <;> simpa [afterUnlock,setSlot] using registered
    · intro i
      by_cases same : i = j
      · have := (shared.guards j).not_mem_erase (a := t)
        cases after <;> simpa [same,afterUnlock,Pc.slot] using this
      · have := guards i
        cases after <;> simpa [setSlot_ne same,afterUnlock,Pc.slot,Ne.symm same] using this
    · cases after <;> exact flying
    · cases after <;> trivial
  | loadHead pc has =>
    rw [pc] at flying guards registered
    obtain ⟨r,reader,rfl⟩ := own.reader has
    refine ⟨?_,?_,guards,flying,trivial⟩
    · simp only [skip,Board.lag,Board.modify,reader,Function.update_self,Option.map_some,
        Word.ofNat_add_sub]
    · simpa [skip,Board.lag,Board.modify,receiver,reader] using registered

theorem step_holds {c c' : Config θ V} {label : θ × Label V} (holds : outline.Holds () c)
    (inLap : InLap c label) (stepped : step c label = some c') : outline.Holds () c' := by
  obtain ⟨t,choice⟩ := label
  obtain ⟨l,s,ran,rfl⟩ := Threads.step_eq_some.mp stepped
  have step := prog_step ran
  exact Threads.Outline.Keeps.holds (a := ()) ⟨step.shared holds.1 (holds.2 t),
    step.own holds.1 (holds.2 t) inLap,
    fun u ne => (holds.2 u).frame (step.frame holds.1 (holds.2 t) ne)⟩

/-- The number of slots is a power of two, and a long way below the range of a word. -/
theorem slotCount_eq_some {padding size capacity : Nat}
    (created : slotCount padding size = some capacity) : ∃ k ≤ 58, capacity = 2 ^ k := by
  simp only [slotCount] at created
  split at created
  · contradiction
  · split at created
    · contradiction
    · split at created
      · contradiction
      · rename_i fits
        cases created
        refine ⟨_,?_,rfl⟩
        have small : 2 ^ Nat.clog 2 size < 2 ^ 59 := by
          have : 2 ^ Nat.clog 2 size * 16 ≤ 2 ^ Nat.clog 2 size * (16 + padding) :=
            Nat.mul_le_mul_left _ (Nat.le_add_right _ _)
          omega
        exact Nat.lt_succ_iff.mp ((Nat.pow_lt_pow_iff_right (by omega)).mp small)

theorem init_holds {padding size capacity : Nat} (created : slotCount padding size = some capacity)
    (tx rx : θ) : outline.Holds () (init (V := V) capacity tx rx) := by
  obtain ⟨k,le,rfl⟩ := slotCount_eq_some created
  have positive : 0 < 2 ^ k := Nat.two_pow_pos k
  constructor
  · refine ⟨Board.valid_new positive rx,rfl,⟨k,by omega,rfl⟩,rfl,rfl,?_,by simp [init,channel,Board.new],
      fun _ _ => rfl,fun _ _ => rfl,?_,fun _ => List.nodup_nil,nofun,fun _ _ waits => absurd rfl waits⟩
    · simp [init,channel]
    · simp [init,channel,Board.new]
  · intro t
    by_cases same : t = rx
    · refine ⟨?_,?_,fun j => ?_,rfl,trivial⟩ <;>
        simp [init,channel,Board.new,same,Pc.slot]
    · refine ⟨?_,?_,fun j => ?_,rfl,trivial⟩ <;>
        simp [init,channel,Board.new,same,Pc.slot]

end XxCore.Sync.Broadcast
