import XxCore.Sync.Channel.QueueInvariant

/-! Calls that no other thread interrupts: one after another they see a queue of values that
holds as many as there are slots. -/
namespace XxCore.Sync.Queue

open TicketRing (Stage)

variable {θ V : Type}

@[simp] theorem claim_index (t : θ) (l : Local V) (s : Queue θ V) (op : Op V) (p pos : Word) :
    (claim t l s op p).2.index pos = s.index pos := rfl

@[simp] theorem claim_slots (t : θ) (l : Local V) (s : Queue θ V) (op : Op V) (p : Word) :
    (claim t l s op p).2.slots = s.slots := rfl

@[simp] theorem claim_capacity (t : θ) (l : Local V) (s : Queue θ V) (op : Op V) (p : Word) :
    (claim t l s op p).2.capacity = s.capacity := rfl

@[simp] theorem setSlot_index (s : Queue θ V) (p pos : Word) (slot : Slot V) :
    (s.setSlot p slot).index pos = s.index pos := rfl

@[simp] theorem setSlot_capacity (s : Queue θ V) (p : Word) (slot : Slot V) :
    (s.setSlot p slot).capacity = s.capacity := rfl

@[simp] theorem setSlot_slots (s : Queue θ V) (p : Word) (slot : Slot V) :
    (s.setSlot p slot).slots = Function.update s.slots (s.index p) slot := rfl

@[simp] theorem take_index (s : Queue θ V) (ticket : Nat) (value : V) (pos : Word) :
    (s.take ticket value).index pos = s.index pos := rfl

@[simp] theorem take_capacity (s : Queue θ V) (ticket : Nat) (value : V) :
    (s.take ticket value).capacity = s.capacity := rfl

@[simp] theorem take_slots (s : Queue θ V) (ticket : Nat) (value : V) :
    (s.take ticket value).slots = s.slots := rfl

theorem access_recv {l : Local V} {s : Queue θ V} {pos : Word} {ticket : Nat} {value : V}
    (data : (s.slots (s.index pos)).data = some value) : access l s .tryRecv pos ticket =
      ({ l with pc := .storeSequence .tryRecv pos ticket (.received value) },
        (s.setSlot pos { s.slots (s.index pos) with data := none }).take ticket value) := by
  simp only [access,data]

/-- Between two calls. -/
def Pc.Free (pc : Pc V) : Prop := pc = .idle ∨ ∃ outcome, pc = .returned outcome

theorem prog_call {t : θ} {l : Local V} {s : Queue θ V} (op : Op V) (free : l.pc.Free) :
    prog t (.call op) l s = some (⟨.loadCounter op,l.calls + 1⟩,s) := by
  rcases free with eq | ⟨_,eq⟩ <;> simp [prog,eq]

theorem prog_ready {t : θ} {s : Queue θ V} {op : Op V} {pos : Word} {stamp calls : Nat}
    (diff : s.diff op.side pos = 0) : prog t .next ⟨.loadSequence op pos stamp,calls⟩ s =
      some (⟨.exchange op pos stamp,calls⟩,s) := by
  simp [prog,diff]

theorem prog_reject {t : θ} {s : Queue θ V} {op : Op V} {pos : Word} {stamp calls : Nat}
    (diff : s.diff op.side pos < 0) : prog t .next ⟨.loadSequence op pos stamp,calls⟩ s =
      some (reject t ⟨.loadSequence op pos stamp,calls⟩ s op) := by
  simp [prog,diff,Int.ne_of_lt diff]

theorem prog_claim {t : θ} {s : Queue θ V} {op : Op V} {pos : Word} {stamp calls : Nat}
    (same : s.counter op.side = pos) : prog t (.exchange false) ⟨.exchange op pos stamp,calls⟩ s =
      some (claim t ⟨.exchange op pos stamp,calls⟩ s op pos) := by
  simp [prog,same]

/-- A call that finds its slot ready leaves the queue `s'` and returns `outcome`. -/
structure Passed (t : θ) (calls : Nat) (op : Op V) (s s' : Queue θ V) (outcome : Outcome V) :
    Prop where
  diff : s.diff op.side (s.counter op.side) = 0
  accessed : ∃ middle, access ⟨.success op (s.counter op.side) (s.claims op.side),calls⟩
    (claim t ⟨.exchange op (s.counter op.side) (s.claims op.side),calls⟩ s op
      (s.counter op.side)).2 op (s.counter op.side) (s.claims op.side) =
      (⟨.storeSequence op (s.counter op.side) (s.claims op.side) outcome,calls⟩,middle) ∧
    s' = middle.setSlot (s.counter op.side)
      { middle.slots (middle.index (s.counter op.side)) with
        sequence := (map middle.capacity op.side (s.counter op.side)).2 }

/-- What such a call does to its counter and to the slot. -/
structure Advanced (side : Side) (data : Option V) (s s' : Queue θ V) : Prop where
  capacity : s'.capacity = s.capacity
  counter : s'.counter = Function.update s.counter side (s.counter side + 1)
  claims : s'.claims = Function.update s.claims side (s.claims side + 1)
  slots : s'.slots = Function.update s.slots (s.index (s.counter side))
    ⟨(map s.capacity side (s.counter side)).2,data⟩

theorem passed_send {t : θ} {s : Queue θ V} (calls : Nat) (value : V)
    (diff : s.diff .send (s.counter .send) = 0) :
    ∃ s', Passed t calls (.trySend value) s s' .sent ∧ Advanced .send (some value) s s' ∧
      s'.sent = s.sent ++ [⟨t,calls,value⟩] := by
  refine ⟨_,⟨diff,_,rfl,rfl⟩,⟨rfl,rfl,rfl,?_⟩,rfl⟩
  simp [Op.side]

theorem passed_recv {t : θ} {s : Queue θ V} {value : V} (calls : Nat)
    (diff : s.diff .recv (s.counter .recv) = 0)
    (data : (s.slots (s.index (s.counter .recv))).data = some value) :
    ∃ s', Passed t calls .tryRecv s s' (.received value) ∧ Advanced .recv none s s' ∧
      s'.sent = s.sent := by
  refine ⟨_,⟨diff,_,access_recv data,rfl⟩,⟨rfl,rfl,rfl,?_⟩,rfl⟩
  simp [Op.side]

section Threads

variable [DecidableEq θ]

def passLabels (t : θ) (op : Op V) : List (θ × Label V) :=
  [(t,.call op),(t,.next),(t,.next),(t,.exchange false),(t,.next),(t,.next)]

/-- A call that no other thread interrupts claims the slot it finds ready, and passes it on. -/
theorem Passed.path {t : θ} {l : Local V} {op : Op V} {s s' : Queue θ V} {outcome : Outcome V}
    (passed : Passed t (l.calls + 1) op s s' outcome) (free : l.pc.Free) (locals : θ → Local V) :
    Transition.Path step InTime ⟨s,Function.update locals t l⟩ (passLabels t op)
      ⟨s',Function.update locals t ⟨.returned outcome,l.calls + 1⟩⟩ := by
  obtain ⟨diff,middle,accessed,rfl⟩ := passed
  refine .cons nofun (Threads.step_update _ (prog_call op free))
    (.cons nofun (Threads.step_update _ rfl)
    (.cons nofun (Threads.step_update _ (prog_ready diff))
    (.cons ?_ (Threads.step_update _ (prog_claim rfl))
    (.cons nofun (Threads.step_update _ (congrArg some accessed))
    (.cons nofun (Threads.step_update _ rfl) .nil)))))
  intro _ _ _ _ at_ _
  simp only [Function.update_self,Pc.exchange.injEq] at at_
  obtain ⟨rfl,rfl,rfl⟩ := at_
  simp

/-- A call that finds its slot not ready fails. -/
theorem reject_path {t : θ} {l : Local V} {op : Op V} {s : Queue θ V} (free : l.pc.Free)
    (diff : s.diff op.side (s.counter op.side) < 0) (locals : θ → Local V) :
    Transition.Path step InTime ⟨s,Function.update locals t l⟩
      [(t,.call op),(t,.next),(t,.next)] ⟨(reject t ⟨.loadCounter op,l.calls + 1⟩ s op).2,
        Function.update locals t ⟨.returned op.failure,l.calls + 1⟩⟩ :=
  .cons nofun (Threads.step_update _ (prog_call op free)) (.cons nofun (Threads.step_update _ rfl)
    (.cons nofun (Threads.step_update _ (prog_reject diff)) .nil))

end Threads

end XxCore.Sync.Queue
