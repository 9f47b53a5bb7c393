import XxCore.Sync.Channel.QueueSequential

/-! What the queue promises to any number of threads, as long as no thread claims a slot with a
position that is a whole lap of the machine word behind. -/
namespace XxCore.Sync.Queue

open TicketRing (Stage)

variable {θ V : Type}

/-- The slot whose data a thread has to itself, from its claim to the store of the sequence. -/
def accesses (s : Queue θ V) : Pc V → Option Nat
  | .success _ pos _ | .storeSequence _ pos _ _ => some (s.index pos)
  | _ => none

structure Sound (c : Config θ V) : Prop where
  exclusive : ∀ t u, t ≠ u → ∀ j, accesses c.shared (c.locals t).pc = some j →
    accesses c.shared (c.locals u).pc ≠ some j
  inBounds : ∀ t j, accesses c.shared (c.locals t).pc = some j → j < c.shared.capacity
  writes : ∀ t value pos k, (c.locals t).pc = .success (.trySend value) pos k →
    (c.shared.slots (c.shared.index pos)).data = none
  reads : ∀ t pos k, (c.locals t).pc = .success .tryRecv pos k →
    ∃ e, c.shared.sent[k]? = some e ∧ (c.shared.slots (c.shared.index pos)).data = some e.value
  fault : c.shared.fault = false
  received : ∀ k value, (k,value) ∈ c.shared.received →
    ∃ e, c.shared.sent[k]? = some e ∧ e.value = value
  once : (c.shared.received.map Prod.fst).Nodup
  claims : c.shared.sent.length = c.shared.claims .send
  bound : c.shared.claims .recv ≤ c.shared.claims .send ∧
    c.shared.claims .send ≤ c.shared.claims .recv + c.shared.capacity
  rejected : ∀ e ∈ c.shared.rejected, ∀ e' ∈ c.shared.sent, ¬ SameCall e e'

def inTime (c : Config θ V) (label : θ × Label V) : Bool :=
  match label.2, (c.locals label.1).pc with
  | .exchange false, .exchange op _ stamp => decide (c.shared.claims op.side < stamp + 2 ^ 64)
  | _, _ => true

theorem index_two {s : Queue θ V} (capacity : s.capacity = 2) (k : Nat) :
    s.index (BitVec.ofNat 64 k) = k % 2 := by
  rw [index,mask,capacity]
  exact Word.toNat_and_mask (k := 1) (by omega)

theorem ofNat_succ (k : Nat) : BitVec.ofNat 64 k + 1 = BitVec.ofNat 64 (k + 1) :=
  (BitVec.ofNat_add k 1).symm

/-- A queue of two slots that `k` values have passed through, with none in it. -/
structure Flow (k : Nat) (s : Queue θ Unit) : Prop where
  capacity : s.capacity = 2
  counter : ∀ side, s.counter side = BitVec.ofNat 64 k
  claims : ∀ side, s.claims side = k
  here : (s.slots (k % 2)).sequence = BitVec.ofNat 64 k
  there : (s.slots ((k + 1) % 2)).sequence = BitVec.ofNat 64 (k + 1)

namespace Flow

variable {k calls : Nat} {t : θ} {s s₁ s₂ : Queue θ Unit}

theorem send (flow : Flow k s) : ∃ s', Passed t calls (.trySend ()) s s' .sent ∧
    Advanced .send (some ()) s s' := by
  have diff : s.diff .send (s.counter .send) = 0 := by
    simp [Queue.diff,flow.counter,index_two flow.capacity,flow.here,map]
  obtain ⟨s',passed,advanced,_⟩ := passed_send (t := t) calls () diff
  exact ⟨s',passed,advanced⟩

/-- The slot that was filled. -/
theorem slots (flow : Flow k s) (sent : Advanced .send (some ()) s s₁) :
    s₁.slots = Function.update s.slots (k % 2) ⟨BitVec.ofNat 64 (k + 1),some ()⟩ := by
  simp only [sent.slots,flow.counter,index_two flow.capacity,map,ofNat_succ]

theorem recv (flow : Flow k s) (sent : Advanced .send (some ()) s s₁) :
    ∃ s', Passed t calls .tryRecv s₁ s' (.received ()) ∧ Advanced .recv none s₁ s' := by
  have capacity := sent.capacity.trans flow.capacity
  have counter : s₁.counter .recv = BitVec.ofNat 64 k := by simp [sent.counter,flow.counter]
  have diff : s₁.diff .recv (s₁.counter .recv) = 0 := by
    simp [Queue.diff,counter,index_two capacity,flow.slots sent,map,BitVec.ofNat_add]
  have data : (s₁.slots (s₁.index (s₁.counter .recv))).data = some () := by
    simp [counter,index_two capacity,flow.slots sent]
  obtain ⟨s',passed,advanced,_⟩ := passed_recv (t := t) calls diff data
  exact ⟨s',passed,advanced⟩

/-- One more value goes through. -/
theorem next (flow : Flow k s) (sent : Advanced .send (some ()) s s₁)
    (received : Advanced .recv none s₁ s₂) : Flow (k + 1) s₂ := by
  have capacity := sent.capacity.trans flow.capacity
  have counter : s₁.counter .recv = BitVec.ofNat 64 k := by simp [sent.counter,flow.counter]
  have apart : (k + 1) % 2 ≠ k % 2 := by omega
  have again : (k + 1 + 1) % 2 = k % 2 := by omega
  have slots : s₂.slots = Function.update s.slots (k % 2) ⟨BitVec.ofNat 64 (k + 2),none⟩ := by
    simp only [received.slots,counter,index_two capacity,flow.slots sent,map,capacity,
      ← BitVec.ofNat_add,Function.update_idem]
  refine ⟨received.capacity.trans capacity,?_,?_,?_,?_⟩
  · intro side
    cases side <;> simp [received.counter,sent.counter,flow.counter,BitVec.ofNat_add]
  · intro side
    cases side <;> simp [received.claims,sent.claims,flow.claims]
  · simp [slots,apart,flow.there]
  · simp [slots,again]

end Flow

variable [DecidableEq θ]

/-- A queue of two slots that `k` values have passed through, with one thread between its load of
the first sequence number and its `compare_exchange_weak`. -/
structure Laps (k : Nat) (c : Config Bool Unit) : Prop where
  capacity : c.shared.capacity = 2
  stalled : (c.locals false).pc = .exchange (.trySend ()) 0 0
  free : (c.locals true).pc.Free
  counter : ∀ side, c.shared.counter side = BitVec.ofNat 64 k
  claims : ∀ side, c.shared.claims side = k
  here : (c.shared.slots (k % 2)).sequence = BitVec.ofNat 64 k
  there : (c.shared.slots ((k + 1) % 2)).sequence = BitVec.ofNat 64 (k + 1)

/-- A call of the other thread, of which the stalled one notices nothing. -/
structure Other (side : Side) (data : Option Unit) (c c' : Config Bool Unit) : Prop where
  path : ∃ labels, Transition.Path step Transition.anyStep c labels c'
  stalled : c'.locals false = c.locals false
  free : (c'.locals true).pc.Free
  advanced : Advanced side data c.shared c'.shared

theorem other_of_passed {op : Op Unit} {outcome : Outcome Unit} {c : Config Bool Unit}
    {s' : Queue Bool Unit} {data : Option Unit}
    (passed : Passed true ((c.locals true).calls + 1) op c.shared s' outcome)
    (free : (c.locals true).pc.Free) (advanced : Advanced op.side data c.shared s') :
    ∃ c', Other op.side data c c' := by
  have path := passed.path free c.locals
  rw [Function.update_eq_self] at path
  exact ⟨_,⟨_,path.weaken fun _ _ _ => trivial⟩,by simp,.inr ⟨outcome,by simp⟩,advanced⟩

theorem Laps.flow {k : Nat} {c : Config Bool Unit} (laps : Laps k c) : Flow k c.shared :=
  ⟨laps.capacity,laps.counter,laps.claims,laps.here,laps.there⟩

/-- One more value goes through, and the stalled thread does not notice. -/
theorem Laps.next {k : Nat} {c : Config Bool Unit} (laps : Laps k c) : ∃ labels c',
    Transition.Path step Transition.anyStep c labels c' ∧ Laps (k + 1) c' := by
  obtain ⟨_,sent,advanced⟩ := laps.flow.send
  obtain ⟨c₁,send⟩ := other_of_passed sent laps.free advanced
  obtain ⟨_,received,advanced'⟩ := laps.flow.recv send.advanced
  obtain ⟨c₂,recv⟩ := other_of_passed received send.free advanced'
  obtain ⟨_,sending⟩ := send.path
  obtain ⟨_,receiving⟩ := recv.path
  have flow := laps.flow.next send.advanced recv.advanced
  have stalled : (c₂.locals false).pc = .exchange (.trySend ()) 0 0 := by
    rw [recv.stalled,send.stalled,laps.stalled]
  exact ⟨_,c₂,sending.append receiving,flow.capacity,stalled,recv.free,flow.counter,flow.claims,
    flow.here,flow.there⟩

end XxCore.Sync.Queue
