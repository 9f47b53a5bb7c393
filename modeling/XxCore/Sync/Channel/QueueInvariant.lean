import XxCore.Lib.Ring
import XxCore.Lib.Word
import XxCore.Sync.Channel.Queue

/-! The invariant of the queue: it is a ring of slots shared by tickets, whose positions and
numbers the queue keeps modulo `2 ^ 64`. -/
namespace XxCore.Sync.Queue

open TicketRing (Stage)

variable {θ V : Type}

/-- The number of slots of a channel of size at least two. -/
def Capacity (n : Nat) : Prop := ∃ e, n = 2 ^ e ∧ 1 ≤ e ∧ e ≤ 62

theorem Capacity.bounds {n : Nat} (capacity : Capacity n) : 2 ≤ n ∧ n ≤ 2 ^ 62 := by
  obtain ⟨e,rfl,low,high⟩ := capacity
  exact ⟨Nat.pow_le_pow_right (n := 2) (by omega) low,Nat.pow_le_pow_right (by omega) high⟩

/-- The position that the next ticket of a counter is for. -/
def next (r : TicketRing θ) : Side → Nat
  | .send => r.tail
  | .recv => r.head

/-- The stage of a slot that the next ticket may claim. -/
def ready : Side → Nat → Stage θ
  | .send, k => .free k
  | .recv, k => .full k

/-- The stage of a slot that a thread has claimed. -/
def held : Side → Nat → θ → Stage θ
  | .send, k, t => .writing k t
  | .recv, k, t => .reading k t

/-- The stage that the store of the new sequence number ends. -/
def passed (capacity : Nat) : Side → Nat → Stage θ
  | .send, k => .full k
  | .recv, k => .free (k + capacity)

def claimRing (r : TicketRing θ) (side : Side) (t : θ) : TicketRing θ :=
  match side with
  | .send => r.claimTail t
  | .recv => r.claimHead t

theorem claimRing_stage (r : TicketRing θ) (side : Side) (t : θ) : (claimRing r side t).stage =
    Function.update r.stage (next r side % r.size) (held side (next r side) t) := by
  cases side <;> rfl

theorem claimRing_size (r : TicketRing θ) (side : Side) (t : θ) : (claimRing r side t).size = r.size := by
  cases side <;> rfl

theorem next_claimRing (r : TicketRing θ) (side other : Side) (t : θ) :
    next (claimRing r side t) other = next r other + if other = side then 1 else 0 := by
  cases side <;> cases other <;> rfl

theorem valid_claimRing {r : TicketRing θ} (valid : r.Valid) (side : Side) (t : θ)
    (free : r.stage (next r side % r.size) = ready side (next r side)) :
    (claimRing r side t).Valid := by
  cases side
  · exact valid.claimTail t free
  · exact valid.claimHead t free

/-- The ticket that the thread holds. -/
def Pc.holds : Pc V → Option (Side × Nat)
  | .success op _ ticket | .storeSequence op _ ticket _ => some (op.side,ticket)
  | _ => none

/-- The position that the thread works with, and the number it stands for. -/
def Pc.position : Pc V → Option (Word × Nat)
  | .loadSequence _ pos k | .exchange _ pos k | .success _ pos k | .storeSequence _ pos k _ =>
    some (pos,k)
  | _ => none

/-- The stamp of a position that may be out of date. -/
def Pc.stamp : Pc V → Option (Side × Nat)
  | .loadSequence op _ stamp | .exchange op _ stamp => some (op.side,stamp)
  | _ => none

/-- The call has not claimed a slot yet. -/
def Pc.unclaimed : Pc V → Bool
  | .loadCounter _ | .loadSequence _ _ _ | .exchange _ _ _ => true
  | _ => false

/-- The calls of a value that was sent or handed back. -/
def history (s : Queue θ V) : List (Sent θ V) := s.sent ++ s.rejected

def SameCall (e e' : Sent θ V) : Prop := e.thread = e'.thread ∧ e.call = e'.call

structure SharedInv (r : TicketRing θ) (s : Queue θ V) : Prop where
  capacity : Capacity s.capacity
  size : r.size = s.capacity
  next : ∀ side, next r side = s.claims side
  counter : ∀ side, s.counter side = BitVec.ofNat 64 (s.claims side)
  valid : r.Valid
  sequence : ∀ j < s.capacity, (s.slots j).sequence = BitVec.ofNat 64 (r.stage j).sequence
  free : ∀ j < s.capacity, ∀ k, r.stage j = .free k → (s.slots j).data = none
  full : ∀ j < s.capacity, ∀ k, r.stage j = .full k →
    ∃ e, s.sent[k]? = some e ∧ (s.slots j).data = some e.value
  length : s.sent.length = s.claims .send
  received : ∀ k v, (k,v) ∈ s.received → k < s.claims .recv ∧ ∃ e, s.sent[k]? = some e ∧ e.value = v
  tickets : (s.received.map Prod.fst).Nodup
  fault : s.fault = false
  calls : (history s).Pairwise fun e e' => ¬ SameCall e e'

/-- What a thread that holds a ticket knows of the slot's data. -/
def DataInv (t : θ) (s : Queue θ V) (calls : Nat) : Pc V → Prop
  | .success (.trySend value) _ k => (s.slots (k % s.capacity)).data = none ∧
    s.sent[k]? = some ⟨t,calls,value⟩
  | .storeSequence (.trySend _) _ k _ =>
    ∃ e, s.sent[k]? = some e ∧ (s.slots (k % s.capacity)).data = some e.value
  | .success .tryRecv _ k => k ∉ s.received.map Prod.fst ∧
    ∃ e, s.sent[k]? = some e ∧ (s.slots (k % s.capacity)).data = some e.value
  | .storeSequence .tryRecv _ k _ => (s.slots (k % s.capacity)).data = none
  | _ => True

structure ThreadInv (r : TicketRing θ) (t : θ) (s : Queue θ V) (l : Local V) : Prop where
  position : ∀ pos k, l.pc.position = some (pos,k) → pos = BitVec.ofNat 64 k
  stamp : ∀ side k, l.pc.stamp = some (side,k) → k ≤ s.claims side
  ready : ∀ op pos k, l.pc = .exchange op pos k → s.claims op.side = k →
    r.stage (k % s.capacity) = ready op.side k
  holds : ∀ side k, l.pc.holds = some (side,k) → r.stage (k % s.capacity) = held side k t
  owns : ∀ j < s.capacity, ∀ side k, r.stage j = held side k t → l.pc.holds = some (side,k)
  data : DataInv t s l.calls l.pc
  calls : ∀ e ∈ history s, e.thread = t → e.call ≤ l.calls
  unclaimed : l.pc.unclaimed = true → ∀ e ∈ history s, e.thread = t → e.call < l.calls

def outline : Threads.Outline (TicketRing θ) θ (Queue θ V) (Local V) := ⟨SharedInv,ThreadInv⟩

/-- What a step of `t` leaves to the other threads. -/
structure Frame (t : θ) (r r' : TicketRing θ) (s s' : Queue θ V) : Prop where
  capacity : s'.capacity = s.capacity
  claims : ∀ side, s.claims side ≤ s'.claims side
  ready : ∀ side k, s.claims side = k → s'.claims side = k →
    r.stage (k % s.capacity) = ready side k → r'.stage (k % s.capacity) = ready side k
  held : ∀ u, u ≠ t → ∀ j < s.capacity, ∀ side k, r'.stage j = held side k u ↔
    r.stage j = held side k u
  slots : ∀ u, u ≠ t → ∀ j < s.capacity, ∀ side k, r.stage j = Queue.held side k u →
    s'.slots j = s.slots j
  sent : ∀ (k : Nat) (e : Sent θ V), s.sent[k]? = some e → s'.sent[k]? = some e
  history : ∀ e ∈ history s', e ∈ history s ∨ e.thread = t
  received : ∀ k, k ∈ s'.received.map Prod.fst → k ∈ s.received.map Prod.fst ∨
    r.stage (k % s.capacity) = .reading k t

theorem ThreadInv.frame {r r' : TicketRing θ} {s s' : Queue θ V} {t u : θ} {l : Local V}
    (other : ThreadInv r u s l) (pos : 0 < s.capacity) (frame : Frame t r r' s s') (ne : u ≠ t) :
    ThreadInv r' u s' l := by
  have lt (k : Nat) : k % s.capacity < s.capacity := Nat.mod_lt k pos
  have mine {e : Sent θ V} (mem : e ∈ history s') (thread : e.thread = u) : e ∈ history s :=
    (frame.history e mem).resolve_right fun his => ne (thread.symm.trans his)
  refine ⟨other.position,?_,?_,?_,?_,?_,?_,?_⟩
  · exact fun side k h => Nat.le_trans (other.stamp side k h) (frame.claims side)
  · intro op p k at_ now
    have stamp := other.stamp op.side k (by simp [at_,Pc.stamp])
    have then_ : s.claims op.side = k := Nat.le_antisymm (now ▸ frame.claims op.side) stamp
    rw [frame.capacity]
    exact frame.ready op.side k then_ now (other.ready op p k at_ then_)
  · intro side k h
    rw [frame.capacity,frame.held u ne _ (lt k)]
    exact other.holds side k h
  · intro j lt side k h
    rw [frame.capacity] at lt
    exact other.owns j lt side k ((frame.held u ne j lt side k).mp h)
  · have slot {side k} (h : l.pc.holds = some (side,k)) :
        s'.slots (k % s.capacity) = s.slots (k % s.capacity) :=
      frame.slots u ne _ (lt k) side k (other.holds side k h)
    have data := other.data
    unfold DataInv at data ⊢
    rw [frame.capacity]
    split at data <;> rename_i at_
    · rw [slot (by rw [at_]; rfl)]
      exact ⟨data.1,frame.sent _ _ data.2⟩
    · rw [slot (by rw [at_]; rfl)]
      exact data.imp fun e h => ⟨frame.sent _ _ h.1,h.2⟩
    · rw [slot (by rw [at_]; rfl)]
      refine ⟨fun mem => ?_,data.2.imp fun e h => ⟨frame.sent _ _ h.1,h.2⟩⟩
      rcases frame.received _ mem with before | his
      · exact data.1 before
      · have := other.holds .recv _ (by rw [at_]; rfl)
        simp only [his,held,Stage.reading.injEq] at this
        exact ne this.2.symm
    · rw [slot (by rw [at_]; rfl)]
      exact data
    · trivial
  · exact fun e mem thread => other.calls e (mine mem thread) thread
  · exact fun fresh e mem thread => other.unclaimed fresh e (mine mem thread) thread

theorem SharedInv.index {r : TicketRing θ} {s : Queue θ V} (inv : SharedInv r s) (k : Nat) :
    s.index (BitVec.ofNat 64 k) = k % s.capacity := by
  obtain ⟨e,capacity,_,high⟩ := inv.capacity
  simp only [Queue.index,Queue.mask,capacity]
  exact Word.toNat_and_mask (by omega)

/-- The number that a call expects of the slot for its position. -/
def expected : Side → Nat → Nat
  | .send, k => k
  | .recv, k => k + 1

theorem SharedInv.diff {r : TicketRing θ} {s : Queue θ V} (inv : SharedInv r s) (side : Side)
    (k : Nat) : s.diff side (BitVec.ofNat 64 k) =
      (BitVec.ofNat 64 (r.stage (k % s.capacity)).sequence -
        BitVec.ofNat 64 (expected side k)).toInt := by
  have pos : 0 < s.capacity := by have := inv.capacity.bounds; omega
  rw [Queue.diff,inv.index,inv.sequence _ (Nat.mod_lt k pos)]
  cases side with
  | send => rfl
  | recv =>
    rw [map,show BitVec.ofNat 64 k + 1 = BitVec.ofNat 64 (k + 1) from (BitVec.ofNat_add k 1).symm]
    rfl

/-- The signed difference is zero exactly when the slot's number and the expected one agree. -/
theorem SharedInv.diff_eq_zero {r : TicketRing θ} {s : Queue θ V} (inv : SharedInv r s)
    (side : Side) (k : Nat) : s.diff side (BitVec.ofNat 64 k) = 0 ↔
      (r.stage (k % s.capacity)).sequence % 2 ^ 64 = expected side k % 2 ^ 64 := by
  rw [inv.diff]
  exact Word.toInt_sub_eq_zero.trans Word.ofNat_eq_iff

/-- A zero difference at an up to date position means that the slot may be claimed. -/
theorem SharedInv.ready_of_diff {r : TicketRing θ} {s : Queue θ V} (inv : SharedInv r s)
    (side : Side) (diff : s.diff side (BitVec.ofNat 64 (s.claims side)) = 0) :
    r.stage (s.claims side % s.capacity) = ready side (s.claims side) := by
  have bounds := inv.capacity.bounds
  have next := inv.next side
  have size := inv.size
  rw [inv.diff_eq_zero] at diff
  cases side with
  | send =>
    simp only [Queue.next] at next
    simp only [← next,← size] at diff ⊢
    exact inv.valid.free_of_sequence (by omega) (by omega) diff
  | recv =>
    simp only [Queue.next] at next
    simp only [← next,← size] at diff ⊢
    exact inv.valid.full_of_sequence (by omega) (by omega) diff

/-- A step that changes nothing shared. -/
theorem quiet_keeps {r : TicketRing θ} {c : Config θ V} {t : θ} {l' : Local V}
    (holds : outline.Holds r c) (own : ThreadInv r t c.shared l') :
    outline.Keeps r r t c.shared l' c :=
  ⟨holds.1,own,fun u _ => holds.2 u⟩

/-- No `compare_exchange_weak` succeeds for a call that was overtaken by `2 ^ 64` or more claims
of its counter since it loaded the position. -/
def InTime (c : Config θ V) (label : θ × Label V) : Prop :=
  label.2 = .exchange false → ∀ op pos stamp, (c.locals label.1).pc = .exchange op pos stamp →
    c.shared.counter op.side = pos → c.shared.claims op.side < stamp + 2 ^ 64

theorem dataInv_of_none (t : θ) (s : Queue θ V) (calls : Nat) {pc : Pc V} (free : pc.holds = none) :
    DataInv t s calls pc := by
  unfold DataInv
  split <;> simp_all [Pc.holds]

/-- A thread without a ticket moves on. -/
theorem ThreadInv.move {r : TicketRing θ} {s : Queue θ V} {t : θ} {l l' : Local V}
    (own : ThreadInv r t s l) (free : l.pc.holds = none) (free' : l'.pc.holds = none)
    (position : ∀ pos k, l'.pc.position = some (pos,k) → pos = BitVec.ofNat 64 k)
    (stamp : ∀ side k, l'.pc.stamp = some (side,k) → k ≤ s.claims side)
    (ready : ∀ op pos k, l'.pc = .exchange op pos k → s.claims op.side = k →
      r.stage (k % s.capacity) = Queue.ready op.side k)
    (calls : (l'.calls = l.calls ∧ (l'.pc.unclaimed = true → l.pc.unclaimed = true)) ∨
      l'.calls = l.calls + 1) : ThreadInv r t s l' := by
  refine ⟨position,stamp,ready,by simp [free'],?_,dataInv_of_none t s _ free',?_,?_⟩
  · intro j lt side k h
    simpa [free] using own.owns j lt side k h
  · intro e mem thread
    have := own.calls e mem thread
    omega
  · intro fresh e mem thread
    rcases calls with ⟨same,before⟩ | more
    · rw [same]; exact own.unclaimed (before fresh) e mem thread
    · have := own.calls e mem thread
      omega

/-- Calls of one thread are told apart by their numbers. -/
theorem calls_append {r : TicketRing θ} {s : Queue θ V} {t : θ} {l : Local V}
    (shared : SharedInv r s) (own : ThreadInv r t s l) (fresh : l.pc.unclaimed = true) (value : V) :
    (history s ++ [(⟨t,l.calls,value⟩ : Sent θ V)]).Pairwise fun e e' => ¬ SameCall e e' := by
  refine List.pairwise_append.mpr ⟨shared.calls,List.pairwise_singleton _ _,?_⟩
  rintro e mem _ last ⟨thread,call⟩
  obtain rfl := List.mem_singleton.mp last
  exact Nat.ne_of_lt (own.unclaimed fresh e mem thread) call

theorem held_ne_ready (side side' : Side) (k k' : Nat) (t : θ) : held side k t ≠ ready side' k' := by
  cases side <;> cases side' <;> simp [held,ready]

theorem held_inj {side side' : Side} {k k' : Nat} {t u : θ} (same : held side k t = held side' k' u) :
    side = side' ∧ k = k' ∧ t = u := by
  cases side <;> cases side' <;> simp_all [held]

theorem ready_inj {side side' : Side} {k k' : Nat}
    (same : (ready side k : Stage θ) = ready side' k') : side = side' ∧ k = k' := by
  cases side <;> cases side' <;> simp_all [ready]

theorem claim_frame {r : TicketRing θ} {s : Queue θ V} {t : θ} {l : Local V} {op : Op V} (pos : Word)
    (shared : SharedInv r s)
    (free : r.stage (s.claims op.side % s.capacity) = ready op.side (s.claims op.side)) :
    Frame t r (claimRing r op.side t) s (claim t l s op pos).2 := by
  have stage : (claimRing r op.side t).stage = Function.update r.stage
      (s.claims op.side % s.capacity) (held op.side (s.claims op.side) t) := by
    rw [claimRing_stage,shared.next,shared.size]
  refine ⟨rfl,fun side => ?_,fun side k now then_ h => ?_,fun u ne j lt side k => ?_,
    fun _ _ _ _ _ _ _ => rfl,fun k e h => ?_,fun e mem => ?_,fun k mem => .inl mem⟩
  · by_cases same : side = op.side
    · subst same; simp [claim]
    · simp [claim,same]
  · have other : side ≠ op.side := by
      rintro rfl
      simp [claim] at then_
      omega
    rw [stage]
    by_cases same : k % s.capacity = s.claims op.side % s.capacity
    · rw [same,free] at h
      exact absurd (ready_inj h).1.symm other
    · rw [Function.update_of_ne same,h]
  · rw [stage]
    by_cases same : j = s.claims op.side % s.capacity
    · subst same
      rw [Function.update_self,free]
      constructor
      · intro h; exact absurd (held_inj h).2.2.symm ne
      · intro h; exact absurd h.symm (held_ne_ready _ _ _ _ _)
    · rw [Function.update_of_ne same]
  · cases op with
    | trySend value =>
      simp only [claim]
      rw [List.getElem?_append_left (List.getElem?_eq_some_iff.mp h).1,h]
    | tryRecv => exact h
  · cases op with
    | trySend value =>
      simp only [claim,history,List.mem_append,List.mem_singleton] at mem ⊢
      rcases mem with (mem | rfl) | mem
      · exact .inl (.inl mem)
      · exact .inr rfl
      · exact .inl (.inr mem)
    | tryRecv => exact .inl mem

theorem claim_shared {r : TicketRing θ} {s : Queue θ V} {t : θ} {l : Local V} {op : Op V}
    {pos : Word} (shared : SharedInv r s) (own : ThreadInv r t s l) (fresh : l.pc.unclaimed = true)
    (same : s.counter op.side = pos)
    (free : r.stage (s.claims op.side % s.capacity) = ready op.side (s.claims op.side)) :
    SharedInv (claimRing r op.side t) (claim t l s op pos).2 := by
  have stage : (claimRing r op.side t).stage = Function.update r.stage
      (s.claims op.side % s.capacity) (held op.side (s.claims op.side) t) := by
    rw [claimRing_stage,shared.next,shared.size]
  have append (k : Nat) (e : Sent θ V) (h : s.sent[k]? = some e) :
      (claim t l s op pos).2.sent[k]? = some e := (claim_frame _ shared free).sent k e h
  refine ⟨shared.capacity,(claimRing_size r op.side t).trans shared.size,fun side => ?_,
    fun side => ?_,valid_claimRing shared.valid op.side t ?_,fun j lt => ?_,fun j lt k h => ?_,
    fun j lt k h => ?_,?_,fun k v mem => ?_,shared.tickets,shared.fault,?_⟩
  · rw [next_claimRing,shared.next]
    by_cases other : side = op.side <;> simp [claim,other]
  · by_cases other : side = op.side
    · subst other
      simp only [claim,Function.update_self,← same,shared.counter]
      exact (BitVec.ofNat_add _ 1).symm
    · simpa [claim,other] using shared.counter side
  · rw [shared.next,shared.size]; exact free
  · rw [stage]
    by_cases here : j = s.claims op.side % s.capacity
    · subst here
      rw [Function.update_self]
      refine (shared.sequence _ lt).trans ?_
      rw [free]
      cases op <;> rfl
    · rw [Function.update_of_ne here]; exact shared.sequence j lt
  · rw [stage] at h
    by_cases here : j = s.claims op.side % s.capacity
    · subst here
      rw [Function.update_self] at h
      exact absurd h (held_ne_ready op.side .send _ k t)
    · rw [Function.update_of_ne here] at h; exact shared.free j lt k h
  · rw [stage] at h
    by_cases here : j = s.claims op.side % s.capacity
    · subst here
      rw [Function.update_self] at h
      exact absurd h (held_ne_ready op.side .recv _ k t)
    · rw [Function.update_of_ne here] at h
      exact (shared.full j lt k h).imp fun e h => ⟨append _ _ h.1,h.2⟩
  · cases op with
    | trySend value => simpa [claim,Op.side] using shared.length
    | tryRecv => simpa [claim,Op.side] using shared.length
  · obtain ⟨lt,found⟩ := shared.received k v mem
    refine ⟨Nat.lt_of_lt_of_le lt ((claim_frame _ shared free).claims .recv),?_⟩
    exact found.imp fun e h => ⟨append _ _ h.1,h.2⟩
  · cases op with
    | trySend value =>
      refine (List.Perm.pairwise_iff (fun h h' => h ⟨h'.1.symm,h'.2.symm⟩) ?_).mp
        (calls_append shared own fresh value)
      simp only [history,claim,List.append_assoc]
      exact (List.perm_append_comm).append_left _
    | tryRecv => exact shared.calls

theorem claim_keeps {r : TicketRing θ} {c : Config θ V} {t : θ} {op : Op V} {pos : Word}
    {stamp calls : Nat} (holds : outline.Holds r c)
    (at_ : c.locals t = ⟨.exchange op pos stamp,calls⟩) (same : c.shared.counter op.side = pos)
    (inTime : c.shared.claims op.side < stamp + 2 ^ 64) :
    outline.Keeps r (claimRing r op.side t) t (claim t ⟨.exchange op pos stamp,calls⟩ c.shared op pos).2
      (claim t ⟨.exchange op pos stamp,calls⟩ c.shared op pos).1 c := by
  obtain ⟨shared,threads⟩ := holds
  have own : ThreadInv r t c.shared _ := at_ ▸ threads t
  have pos' : pos = BitVec.ofNat 64 stamp := own.position _ _ rfl
  -- the position is not a lap of the word behind, so it is up to date
  obtain rfl : c.shared.claims op.side = stamp := by
    have stamp := own.stamp op.side _ rfl
    rw [pos',shared.counter] at same
    exact (Word.ofNat_inj (by omega) (by omega)).mp same
  have free := own.ready op pos _ rfl rfl
  have frame := claim_frame (t := t) (l := ⟨.exchange op pos (c.shared.claims op.side),calls⟩) pos
    shared free
  have stage : (claimRing r op.side t).stage = Function.update r.stage
      (c.shared.claims op.side % c.shared.capacity) (held op.side (c.shared.claims op.side) t) := by
    rw [claimRing_stage,shared.next,shared.size]
  have positive : 0 < c.shared.capacity := by have := shared.capacity.bounds; omega
  have lt := Nat.mod_lt (c.shared.claims op.side) positive
  refine ⟨claim_shared shared own rfl same free,⟨?_,?_,?_,?_,?_,?_,?_,?_⟩,
    fun u ne => (threads u).frame positive frame ne⟩
  · rintro _ _ ⟨⟩; exact pos'
  · rintro _ _ ⟨⟩
  · rintro _ _ _ ⟨⟩
  · rintro _ _ ⟨⟩
    simp [stage,claim]
  · intro j jlt side k h
    rw [stage] at h
    by_cases here : j = c.shared.claims op.side % c.shared.capacity
    · subst here
      rw [Function.update_self] at h
      obtain ⟨rfl,rfl,-⟩ := held_inj h
      rfl
    · rw [Function.update_of_ne here] at h
      exact absurd (own.owns j jlt side k h) (by simp [Pc.holds])
  · cases op with
    | trySend value =>
      refine ⟨shared.free _ lt _ free,?_⟩
      simp [claim,Op.side,← shared.length]
    | tryRecv =>
      refine ⟨fun mem => ?_,shared.full _ lt _ free⟩
      obtain ⟨⟨k,v⟩,mem,eq⟩ := List.mem_map.mp mem
      obtain rfl : k = _ := eq
      exact Nat.lt_irrefl _ (shared.received _ _ mem).1
  · intro e mem thread
    rcases List.mem_append.mp mem with sent | rejected
    · cases op with
      | trySend value =>
        rcases List.mem_append.mp sent with old | last
        · exact own.calls e (List.mem_append_left _ old) thread
        · obtain rfl := List.mem_singleton.mp last; exact Nat.le_refl _
      | tryRecv => exact own.calls e (List.mem_append_left _ sent) thread
    · exact own.calls e (List.mem_append_right _ rejected) thread
  · rintro ⟨⟩

/-- An access of the data of a slot by the thread that holds its ticket. -/
def withData (s : Queue θ V) (pos : Word) (data : Option V) (received : List (Nat × V)) :
    Queue θ V :=
  { s.setSlot pos { s.slots (s.index pos) with data := data } with received := received }

theorem access_keeps {r : TicketRing θ} {c : Config θ V} {t : θ} {ticket : Nat} {l' : Local V}
    (side : Side) (data : Option V) (received : List (Nat × V)) (holds : outline.Holds r c)
    (before : (c.locals t).pc.holds = some (side,ticket)) (after : l'.pc.holds = some (side,ticket))
    (position : ∀ pos k, l'.pc.position = some (pos,k) → pos = BitVec.ofNat 64 k)
    (fresh : l'.pc.unclaimed = false) (stamp : l'.pc.stamp = none)
    (calls : l'.calls = (c.locals t).calls)
    (own : DataInv t (withData c.shared (BitVec.ofNat 64 ticket) data received) l'.calls l'.pc)
    (tickets : (received.map Prod.fst).Nodup)
    (known : ∀ k v, (k,v) ∈ received → (k,v) ∈ c.shared.received ∨
      k = ticket ∧ side = .recv ∧ ∃ e, c.shared.sent[k]? = some e ∧ e.value = v) :
    outline.Keeps r r t (withData c.shared (BitVec.ofNat 64 ticket) data received) l' c := by
  obtain ⟨shared,threads⟩ := holds
  have mine := threads t
  have positive : 0 < c.shared.capacity := by have := shared.capacity.bounds; omega
  have lt := Nat.mod_lt ticket positive
  have stage := mine.holds side ticket before
  have others (j : Nat) (ne : j ≠ ticket % c.shared.capacity) :
      (withData c.shared (BitVec.ofNat 64 ticket) data received).slots j = c.shared.slots j := by
    simp [withData,setSlot,shared.index,ne]
  have held_here {j : Nat} (h : r.stage j ≠ held side ticket t) : j ≠ ticket % c.shared.capacity :=
    fun here => h (here ▸ stage)
  refine ⟨⟨shared.capacity,shared.size,shared.next,shared.counter,shared.valid,?_,?_,?_,
    shared.length,?_,tickets,shared.fault,shared.calls⟩,⟨position,by simp [stamp],?_,?_,?_,own,?_,?_⟩,
    fun u ne => (threads u).frame positive
      ⟨rfl,fun _ => Nat.le_refl _,fun _ _ _ _ => id,fun _ _ _ _ _ _ => Iff.rfl,?_,fun _ _ => id,
        fun _ => .inl,?_⟩ ne⟩
  · intro j jlt
    by_cases here : j = ticket % c.shared.capacity
    · subst here
      simpa [withData,setSlot,shared.index] using shared.sequence _ jlt
    · rw [others j here]; exact shared.sequence j jlt
  · intro j jlt k h
    rw [others j (held_here fun same => held_ne_ready side .send _ _ _ (same.symm.trans h))]
    exact shared.free j jlt k h
  · intro j jlt k h
    rw [others j (held_here fun same => held_ne_ready side .recv _ _ _ (same.symm.trans h))]
    exact shared.full j jlt k h
  · intro k v mem
    rcases known k v mem with old | ⟨rfl,rfl,found⟩
    · exact shared.received k v old
    · refine ⟨?_,found⟩
      have fits := shared.valid.fits (k % c.shared.capacity) (by rw [shared.size]; exact lt)
      rw [stage] at fits
      exact Nat.lt_of_lt_of_eq fits.1 (shared.next .recv)
  · rintro op pos k at_
    simp [at_,Pc.stamp] at stamp
  · intro side' k h
    obtain ⟨rfl,rfl⟩ := Prod.mk.inj (Option.some.inj (after.symm.trans h))
    exact stage
  · intro j jlt side' k h
    rw [after,← before]
    exact mine.owns j jlt side' k h
  · intro e mem thread
    rw [calls]
    exact mine.calls e mem thread
  · intro h
    simp [fresh] at h
  · intro u ne j jlt side' k h
    exact others j (held_here fun same => ne (held_inj (h.symm.trans same)).2.2)
  · intro k mem
    obtain ⟨⟨k',v⟩,found,same⟩ := List.mem_map.mp mem
    obtain rfl : k' = k := same
    rcases known k' v found with old | ⟨rfl,rfl,_⟩
    · exact .inl (List.mem_map.mpr ⟨_,old,rfl⟩)
    · exact .inr stage

theorem store_keeps {r : TicketRing θ} {c : Config θ V} {t : θ} {op : Op V} {pos : Word}
    {ticket calls : Nat} {outcome : Outcome V} (holds : outline.Holds r c)
    (at_ : c.locals t = ⟨.storeSequence op pos ticket outcome,calls⟩) :
    ∃ r', outline.Keeps r r' t (c.shared.setSlot pos { c.shared.slots (c.shared.index pos) with
      sequence := (map c.shared.capacity op.side pos).2 }) ⟨.returned outcome,calls⟩ c := by
  obtain ⟨shared,threads⟩ := holds
  have own : ThreadInv r t c.shared _ := at_ ▸ threads t
  obtain rfl : pos = BitVec.ofNat 64 ticket := own.position _ _ rfl
  have positive : 0 < c.shared.capacity := by have := shared.capacity.bounds; omega
  have lt := Nat.mod_lt ticket positive
  have stage := own.holds op.side ticket rfl
  have stage' : (r.setStage (ticket % c.shared.capacity)
      (passed c.shared.capacity op.side ticket)).stage = Function.update r.stage
      (ticket % c.shared.capacity) (passed c.shared.capacity op.side ticket) := rfl
  have others (j : Nat) (ne : j ≠ ticket % c.shared.capacity) (slot : Slot V) :
      (c.shared.setSlot (BitVec.ofNat 64 ticket) slot).slots j = c.shared.slots j := by
    simp [setSlot,shared.index,ne]
  have notHeld (side : Side) (k : Nat) (u : θ) :
      passed c.shared.capacity op.side ticket ≠ held side k u := by
    cases op <;> cases side <;> simp [Op.side,passed,held]
  have data := own.data
  refine ⟨r.setStage (ticket % c.shared.capacity) (passed c.shared.capacity op.side ticket),
    ⟨shared.capacity,shared.size,?_,shared.counter,?_,?_,?_,?_,shared.length,shared.received,
      shared.tickets,shared.fault,shared.calls⟩,
    ⟨nofun,nofun,nofun,nofun,?_,trivial,own.calls,nofun⟩,
    fun u ne => (threads u).frame positive
      ⟨rfl,fun _ => Nat.le_refl _,?_,?_,?_,fun _ _ => id,fun _ => .inl,fun _ => .inl⟩ ne⟩
  · intro side
    refine Eq.trans ?_ (shared.next side)
    cases side <;> rfl
  · have fits : ticket % c.shared.capacity < r.size := by rw [shared.size]; exact lt
    cases op with
    | trySend value => exact shared.valid.publish fits stage
    | tryRecv =>
      rw [← shared.size] at stage ⊢
      exact shared.valid.release (Nat.mod_lt _ (by rw [shared.size]; exact positive)) stage
  · intro j jlt
    rw [stage']
    by_cases here : j = ticket % c.shared.capacity
    · subst here
      cases op
      · simpa [setSlot,shared.index,Op.side,passed,Stage.sequence,map] using
          (BitVec.ofNat_add ticket 1).symm
      · simpa [setSlot,shared.index,Op.side,passed,Stage.sequence,map] using
          (BitVec.ofNat_add ticket c.shared.capacity).symm
    · rw [others j here,Function.update_of_ne here]; exact shared.sequence j jlt
  · intro j jlt k h
    rw [stage'] at h
    by_cases here : j = ticket % c.shared.capacity
    · subst here
      cases op with
      | trySend value => simp [Op.side,passed] at h
      | tryRecv => simpa [setSlot,shared.index,DataInv] using data
    · rw [Function.update_of_ne here] at h
      rw [others j here]
      exact shared.free j jlt k h
  · intro j jlt k h
    rw [stage'] at h
    by_cases here : j = ticket % c.shared.capacity
    · subst here
      cases op with
      | trySend value =>
        obtain rfl : ticket = k := by simpa [Op.side,passed] using h
        simpa [setSlot,shared.index,DataInv] using data
      | tryRecv => simp [Op.side,passed] at h
    · rw [Function.update_of_ne here] at h
      rw [others j here]
      exact shared.full j jlt k h
  · intro j jlt side k h
    rw [stage'] at h
    by_cases here : j = ticket % c.shared.capacity
    · subst here
      rw [Function.update_self] at h
      exact absurd h (notHeld side k t)
    · rw [Function.update_of_ne here] at h
      have := own.owns j jlt side k h
      obtain ⟨rfl,rfl⟩ := Prod.mk.inj (Option.some.inj this)
      have position := shared.valid.position j (by rw [shared.size]; exact jlt)
      rw [h,shared.size] at position
      refine absurd ?_ here
      rw [← position]
      cases op <;> rfl
  · intro side k _ _ h
    rw [stage']
    by_cases here : k % c.shared.capacity = ticket % c.shared.capacity
    · rw [here,stage] at h
      exact absurd h (held_ne_ready _ _ _ _ _)
    · rw [Function.update_of_ne here]; exact h
  · intro u ne j jlt side k
    rw [stage']
    by_cases here : j = ticket % c.shared.capacity
    · subst here
      rw [Function.update_self,stage]
      constructor
      · intro h; exact absurd h (notHeld side k u)
      · intro h; exact absurd (held_inj h).2.2.symm ne
    · rw [Function.update_of_ne here]
  · intro u ne j jlt side k h
    refine others j (fun here => ?_) _
    rw [here,stage] at h
    exact ne (held_inj h).2.2.symm

theorem reject_keeps {r : TicketRing θ} {c : Config θ V} {t : θ} {value : V} {pos : Word}
    {stamp calls : Nat} (holds : outline.Holds r c)
    (at_ : c.locals t = ⟨.loadSequence (.trySend value) pos stamp,calls⟩) :
    outline.Keeps r r t { c.shared with rejected := c.shared.rejected ++ [⟨t,calls,value⟩] }
      ⟨.returned (.full value),calls⟩ c := by
  obtain ⟨shared,threads⟩ := holds
  have own : ThreadInv r t c.shared _ := at_ ▸ threads t
  have positive : 0 < c.shared.capacity := by have := shared.capacity.bounds; omega
  have mem_history (e : Sent θ V) (mem : e ∈ c.shared.sent ++ (c.shared.rejected ++ [⟨t,calls,value⟩])) :
      e ∈ history c.shared ∨ e = ⟨t,calls,value⟩ := by
    rw [← List.append_assoc] at mem
    exact (List.mem_append.mp mem).imp_right List.mem_singleton.mp
  refine ⟨⟨shared.capacity,shared.size,shared.next,shared.counter,shared.valid,shared.sequence,
      shared.free,shared.full,shared.length,shared.received,shared.tickets,shared.fault,?_⟩,
    ⟨nofun,nofun,nofun,nofun,?_,trivial,?_,nofun⟩,
    fun u ne => (threads u).frame positive ⟨rfl,fun _ => Nat.le_refl _,fun _ _ _ _ => id,
      fun _ _ _ _ _ _ => Iff.rfl,fun _ _ _ _ _ _ _ => rfl,fun _ _ => id,?_,fun _ => .inl⟩ ne⟩
  · have := calls_append shared own rfl value
    rwa [history,List.append_assoc] at this
  · intro j lt side k h
    exact absurd (own.owns j lt side k h) (by simp [Pc.holds])
  · intro e mem thread
    rcases mem_history e mem with old | rfl
    · exact own.calls e old thread
    · exact Nat.le_refl _
  · intro e mem
    rcases mem_history e mem with old | rfl
    · exact .inl old
    · exact .inr rfl

theorem step_keeps {r : TicketRing θ} {c : Config θ V} {t : θ} {label : Label V} {l l' : Local V}
    {s' : Queue θ V} (holds : outline.Holds r c) (inTime : InTime c (t,label))
    (at_ : c.locals t = l) (stepped : Step t c.shared l label l' s') :
    ∃ r', outline.Keeps r r' t s' l' c := by
  have own : ThreadInv r t c.shared l := at_ ▸ holds.2 t
  have shared : SharedInv r c.shared := holds.1
  cases stepped with
  | @call pc op calls free =>
    have none : pc.holds = none := by rcases free with rfl | ⟨_,rfl⟩ <;> rfl
    exact ⟨r,quiet_keeps holds (own.move none rfl nofun nofun nofun (.inr rfl))⟩
  | loadCounter =>
    refine ⟨r,quiet_keeps holds (own.move rfl rfl ?_ ?_ nofun (.inl ⟨rfl,fun _ => rfl⟩))⟩
    · rintro _ _ ⟨⟩; exact shared.counter _
    · rintro _ _ ⟨⟩; exact Nat.le_refl _
  | @ready pos op stamp calls diff =>
    refine ⟨r,quiet_keeps holds (own.move rfl rfl ?_ ?_ ?_ (.inl ⟨rfl,fun _ => rfl⟩))⟩
    · rintro _ _ ⟨⟩; exact own.position _ _ rfl
    · rintro _ _ ⟨⟩; exact own.stamp _ _ rfl
    · rintro _ _ _ ⟨⟩ rfl
      obtain rfl : pos = _ := own.position _ _ rfl
      exact shared.ready_of_diff op.side diff
  | rejectSend => exact ⟨r,reject_keeps holds at_⟩
  | rejectRecv diff =>
    exact ⟨r,quiet_keeps holds (own.move rfl rfl nofun nofun nofun (.inl ⟨rfl,nofun⟩))⟩
  | behind diff =>
    exact ⟨r,quiet_keeps holds (own.move rfl rfl nofun nofun nofun (.inl ⟨rfl,fun _ => rfl⟩))⟩
  | claim same => exact ⟨_,claim_keeps holds at_ same (inTime rfl _ _ _ (by rw [at_]) same)⟩
  | retry =>
    exact ⟨r,quiet_keeps holds (own.move rfl rfl nofun nofun nofun (.inl ⟨rfl,fun _ => rfl⟩))⟩
  | @write value pos ticket calls =>
    obtain rfl : pos = _ := own.position _ _ rfl
    have data := own.data
    refine ⟨r,access_keeps .send (some value) c.shared.received holds (by rw [at_]; rfl) rfl ?_ rfl rfl (by rw [at_]) ?_ shared.tickets fun _ _ => .inl⟩
    · rintro _ _ ⟨⟩; rfl
    · refine ⟨_,data.2,?_⟩
      simp [withData,setSlot,shared.index]
  | readNone data =>
    obtain rfl := own.position _ _ rfl
    obtain ⟨_,e,_,some⟩ := own.data
    rw [shared.index,some] at data
    contradiction
  | @read pos value ticket calls data =>
    obtain rfl : pos = _ := own.position _ _ rfl
    obtain ⟨new,e,found,some⟩ := own.data
    rw [shared.index,some] at data
    obtain rfl := Option.some.inj data
    refine ⟨r,access_keeps .recv none (c.shared.received ++ [(ticket,e.value)]) holds
      (by rw [at_]; rfl) rfl ?_ rfl rfl (by rw [at_]) ?_ ?_ ?_⟩
    · rintro _ _ ⟨⟩; rfl
    · simp [DataInv,withData,setSlot,shared.index]
    · rw [List.map_append,List.nodup_append]
      refine ⟨shared.tickets,List.pairwise_singleton _ _,?_⟩
      rintro k mem _ last rfl
      obtain rfl : k = ticket := List.mem_singleton.mp last
      exact new mem
    · intro k v mem
      rcases List.mem_append.mp mem with old | last
      · exact .inl old
      · obtain ⟨rfl,rfl⟩ := Prod.mk.inj (List.mem_singleton.mp last)
        exact .inr ⟨rfl,rfl,e,found,rfl⟩
  | storeSequence => exact store_keeps holds at_

/-- A queue that was just created is an empty ring. -/
def newRing (θ : Type) (n : Nat) : TicketRing θ := ⟨n,0,0,.free⟩

theorem createSlots_eq_some {padding size : Nat} {slots : Nat × (Nat → Slot V)}
    (created : createSlots V padding size = some slots) :
    0 < size ∧ slots = (2 ^ Nat.clog 2 size,fun i => ⟨BitVec.ofNat 64 i,none⟩) ∧
      Nat.clog 2 size ≤ 62 := by
  simp only [createSlots] at created
  split at created
  · contradiction
  · split at created
    · contradiction
    · split at created
      · contradiction
      · rename_i positive _ bytes
        refine ⟨by omega,(Option.some.inj created).symm,?_⟩
        by_contra large
        have : 2 ^ 63 ≤ 2 ^ Nat.clog 2 size := Nat.pow_le_pow_right (by omega) (by omega)
        have : 2 ^ Nat.clog 2 size ≤ 2 ^ Nat.clog 2 size * (8 + padding) :=
          Nat.le_mul_of_pos_right _ (by omega)
        omega

/-- A size of at least two gives a queue whose stages can be told apart. -/
theorem createSlots_capacity {padding size : Nat} {slots : Nat × (Nat → Slot V)}
    (created : createSlots V padding size = some slots) (two : 2 ≤ size) : Capacity slots.1 := by
  obtain ⟨_,rfl,high⟩ := createSlots_eq_some created
  exact ⟨_,rfl,Nat.clog_pos (by omega) two,high⟩

theorem createSlots_two : createSlots Nat 8 2 = some (2,fun i => ⟨BitVec.ofNat 64 i,none⟩) := by
  have : Nat.clog 2 2 = 1 := by decide
  simp [createSlots,this]

theorem init_holds {slots : Nat × (Nat → Slot V)} (capacity : Capacity slots.1)
    (sequence : slots.2 = fun i => ⟨BitVec.ofNat 64 i,none⟩) :
    outline.Holds (newRing θ slots.1) (init slots : Config θ V) := by
  have bounds := capacity.bounds
  refine ⟨⟨capacity,rfl,fun side => by cases side <;> rfl,fun _ => rfl,?_,fun j _ => ?_,?_,?_,rfl,
    nofun,List.nodup_nil,rfl,List.Pairwise.nil⟩,fun t => ⟨nofun,nofun,nofun,nofun,?_,trivial,nofun,
    nofun⟩⟩
  · exact ⟨by simp [newRing]; omega,Nat.le_refl _,by simp [newRing],fun j lt => Nat.mod_eq_of_lt lt,
      fun j lt => ⟨Nat.zero_le j,by simpa [newRing] using lt⟩⟩
  · simp [init,new,newRing,sequence,Stage.sequence]
  · intro j _ k _
    simp [init,new,sequence]
  · rintro j _ k ⟨⟩
  · rintro j _ side k h
    cases side <;> cases h

theorem step_holds [DecidableEq θ] {c next : Config θ V} {label : θ × Label V}
    (holds : ∃ r, outline.Holds r c) (inTime : InTime c label) (stepped : step c label = some next) :
    ∃ r, outline.Holds r next := by
  obtain ⟨r,holds⟩ := holds
  obtain ⟨l',s',ran,rfl⟩ := Threads.step_eq_some.mp stepped
  obtain ⟨r',kept⟩ := step_keeps holds inTime rfl (prog_step ran)
  exact ⟨r',kept.holds⟩

end XxCore.Sync.Queue
