import XxCore.Sync.Channel.QueueSequential

/-! Calls made one after another: the queue behaves as a list of at most as many values as it has
slots, unless it has one slot only. -/
namespace XxCore.Sync.Queue

open TicketRing (Stage)

variable {V : Type}

/-- What a call does to the values that a queue of `capacity` slots holds. -/
def fifoCall (capacity : Nat) (held : List V) : Op V → Outcome V × List V
  | .trySend value =>
    if held.length < capacity then (.sent,held ++ [value]) else (.full value,held)
  | .tryRecv =>
    match held with
    | [] => (.empty,[])
    | value :: rest => (.received value,rest)

def fifo (capacity : Nat) : List V → List (Op V) → List (Outcome V)
  | _, [] => []
  | held, op :: rest =>
    (fifoCall capacity held op).1 :: fifo capacity (fifoCall capacity held op).2 rest

/-- The label of the next step of a call, and how many more exchanges fail after it. -/
def Pc.chosen (spurious : Nat) : Pc V → Label V × Nat
  | .exchange _ _ _ => (.exchange (spurious != 0),spurious - 1)
  | _ => (.next,spurious)

/-- Runs a call to its end; the first `spurious` exchanges fail. -/
def runCall : Nat → Nat → Local V × Queue Unit V → Option (Outcome V × Local V × Queue Unit V)
  | 0, _, _ => none
  | fuel + 1, spurious, (l,s) =>
    match l.pc with
    | .returned outcome => some (outcome,l,s)
    | pc => (prog () (pc.chosen spurious).1 l s).bind (runCall fuel (pc.chosen spurious).2)

/-- Each call comes with the number of its exchanges that fail spuriously. -/
def runCalls (fuel : Nat) : List (Op V × Nat) → Local V × Queue Unit V → Option (List (Outcome V))
  | [], _ => some []
  | (op,spurious) :: rest, (l,s) =>
    (prog () (.call op) l s).bind fun called =>
      (runCall fuel spurious called).bind fun next =>
        (runCalls fuel rest next.2).map (next.1 :: ·)

theorem runCall_next {l : Local V} {s : Queue Unit V} {next : Local V × Queue Unit V}
    (busy : ∀ outcome, l.pc ≠ .returned outcome) (fuel spurious : Nat)
    (ran : prog () (l.pc.chosen spurious).1 l s = some next) :
    runCall (fuel + 1) spurious (l,s) = runCall fuel (l.pc.chosen spurious).2 next := by
  rw [runCall]
  split
  · exact absurd ‹_› (busy _)
  · rw [ran,Option.bind_some]

theorem runCall_passed {calls : Nat} {op : Op V} {s s' : Queue Unit V} {outcome : Outcome V}
    (passed : Passed () calls op s s' outcome) {fuel spurious : Nat}
    (enough : 3 * spurious + 6 ≤ fuel) :
    runCall fuel spurious (⟨.loadCounter op,calls⟩,s) =
      some (outcome,⟨.returned outcome,calls⟩,s') := by
  let pos := s.counter op.side
  let stamp := s.claims op.side
  have loaded (fuel spurious : Nat) : runCall (fuel + 2) spurious (⟨.loadCounter op,calls⟩,s) =
      runCall fuel spurious (⟨.exchange op pos stamp,calls⟩,s) := by
    calc
      _ = runCall (fuel + 1) spurious (⟨.loadSequence op pos stamp,calls⟩,s) :=
        runCall_next (by nofun) _ _ rfl
      _ = _ := runCall_next (by nofun) _ _ (prog_ready passed.diff)
  induction spurious generalizing fuel with
  | zero =>
    obtain ⟨fuel,rfl⟩ := Nat.exists_eq_add_of_le' enough
    obtain ⟨_,middle,accessed,rfl⟩ := passed
    let claimed := claim () ⟨.exchange op pos stamp,calls⟩ s op pos
    calc
      _ = runCall (fuel + 4) 0 (⟨.exchange op pos stamp,calls⟩,s) := loaded (fuel + 4) 0
      _ = runCall (fuel + 3) 0 claimed := runCall_next (by nofun) _ _ (prog_claim rfl)
      _ = runCall (fuel + 2) 0 (⟨.storeSequence op pos stamp outcome,calls⟩,middle) :=
        runCall_next (by nofun) _ _ (congrArg some accessed)
      _ = _ := runCall_next (by nofun) (fuel + 1) 0 rfl
  | succ spurious ih =>
    obtain ⟨fuel,rfl⟩ := Nat.exists_eq_add_of_le' (Nat.le_trans (by omega : 3 ≤ _) enough)
    calc
      _ = runCall (fuel + 1) (spurious + 1) (⟨.exchange op pos stamp,calls⟩,s) := loaded (fuel + 1) _
      _ = runCall fuel spurious (⟨.loadCounter op,calls⟩,s) :=
        runCall_next (by nofun) fuel (spurious + 1) rfl
      _ = _ := ih (by omega)

theorem runCall_rejected {calls : Nat} {op : Op V} {s : Queue Unit V}
    (diff : s.diff op.side (s.counter op.side) < 0) {fuel spurious : Nat} (enough : 3 ≤ fuel) :
    runCall fuel spurious (⟨.loadCounter op,calls⟩,s) = some (op.failure,reject ()
      ⟨.loadSequence op (s.counter op.side) (s.claims op.side),calls⟩ s op) := by
  obtain ⟨fuel,rfl⟩ := Nat.exists_eq_add_of_le' enough
  simp [runCall,Pc.chosen,prog,diff,Int.ne_of_lt diff,reject]

/-- The state between two calls. -/
structure Between (held : List V) (l : Local V) (s : Queue Unit V) : Prop where
  free : l.pc.Free
  holds : ∃ r, outline.Holds r ⟨s,fun _ => l⟩
  held : (s.sent.drop (s.claims .recv)).map Sent.value = held

/-- Nobody is at work on a slot between two calls. -/
theorem settled_of_free {r : TicketRing Unit} {l : Local V} {s : Queue Unit V}
    (holds : outline.Holds r ⟨s,fun _ => l⟩) (free : l.pc.Free) : r.Settled := by
  intro j lt
  have idle : l.pc.holds = none := by rcases free with eq | ⟨_,eq⟩ <;> simp [eq,Pc.holds]
  rw [holds.1.size] at lt
  have owns := (holds.2 ()).owns j lt
  cases stage : r.stage j with
  | free k => exact .inl ⟨k,rfl⟩
  | full k => exact .inr ⟨k,rfl⟩
  | writing k t =>
    have := owns .send k stage
    simp [idle] at this
  | reading k t =>
    have := owns .recv k stage
    simp [idle] at this

theorem holds_path {l l' : Local V} {s s' : Queue Unit V} {labels : List (Unit × Label V)}
    (holds : ∃ r, outline.Holds r ⟨s,fun _ => l⟩)
    (path : Transition.Path step InTime ⟨s,Function.update (fun _ => l) () l⟩ labels
      ⟨s',Function.update (fun _ => l) () l'⟩) : ∃ r, outline.Holds r ⟨s',fun _ => l'⟩ := by
  have same (l' : Local V) : Function.update (fun _ : Unit => l) () l' = fun _ => l' := by
    funext; rfl
  rw [same,same] at path
  exact path.invariant (fun c => ∃ r, outline.Holds r c)
    (fun _ _ _ holds inTime stepped => step_holds holds inTime stepped) holds

/-- What the sequence number of the next slot says when nobody is at work. -/
theorem diff_send {r : TicketRing Unit} {s : Queue Unit V} (shared : SharedInv r s)
    (settled : r.Settled) : s.diff .send (s.counter .send) =
      if r.tail < r.head + r.size then 0 else 1 - (s.capacity : Int) := by
  have bounds := shared.capacity.bounds
  have size := shared.size
  have valid := shared.valid
  have tail := valid.tail_settled settled
  rw [shared.counter,← shared.next,shared.diff,← size]
  simp only [next,expected,tail]
  split
  · rw [Word.toInt_sub (by simp [Stage.sequence]) (by simp [Stage.sequence])]
    simp [Stage.sequence]
  · have := valid.bound
    rw [Stage.sequence,Word.toInt_sub (by omega) (by omega)]
    omega

theorem diff_recv {r : TicketRing Unit} {s : Queue Unit V} (shared : SharedInv r s)
    (settled : r.Settled) : s.diff .recv (s.counter .recv) =
      if r.head < r.tail then 0 else -1 := by
  have size := shared.size
  have head := shared.valid.head_settled settled
  rw [shared.counter,← shared.next,shared.diff,← size]
  simp only [next,expected,head]
  split
  · rw [Stage.sequence,Word.toInt_sub (by omega) (by omega)]
    omega
  · rw [Stage.sequence,Word.toInt_sub (by omega) (by omega)]
    omega

theorem Between.length {held : List V} {l : Local V} {s : Queue Unit V} {r : TicketRing Unit}
    (between : Between held l s) (shared : SharedInv r s) : held.length + r.head = r.tail := by
  rw [← between.held,List.length_map,List.length_drop,shared.length,← shared.next,← shared.next]
  exact Nat.sub_add_cancel shared.valid.le

/-- The oldest value that is held is in the slot of the next ticket. -/
theorem Between.oldest {value : V} {rest : List V} {l : Local V} {s : Queue Unit V} {e : Sent Unit V}
    (between : Between (value :: rest) l s) (found : s.sent[s.claims .recv]? = some e) :
    e.value = value ∧ (s.sent.drop (s.claims .recv + 1)).map Sent.value = rest := by
  obtain ⟨lt,rfl⟩ := List.getElem?_eq_some_iff.mp found
  have held := between.held
  rw [List.drop_eq_getElem_cons lt,List.map_cons] at held
  exact List.cons.inj held

/-- A call between others does what the list of values says. -/
def Refines (held : List V) (l : Local V) (s : Queue Unit V) (op : Op V) : Prop :=
  ∃ l' s', s'.capacity = s.capacity ∧ Between (fifoCall s.capacity held op).2 l' s' ∧
    ∀ fuel spurious, 3 * spurious + 6 ≤ fuel →
      runCall fuel spurious (⟨.loadCounter op,l.calls + 1⟩,s) =
        some ((fifoCall s.capacity held op).1,l',s')

theorem Between.passed {held : List V} {l : Local V} {s s' : Queue Unit V} {op : Op V}
    {data : Option V} (between : Between held l s)
    (passed : Passed () (l.calls + 1) op s s' (fifoCall s.capacity held op).1)
    (advanced : Advanced op.side data s s')
    (values : (s'.sent.drop (s'.claims .recv)).map Sent.value =
      (fifoCall s.capacity held op).2) : Refines held l s op :=
  ⟨⟨.returned (fifoCall s.capacity held op).1,l.calls + 1⟩,s',advanced.capacity,⟨.inr ⟨_,rfl⟩,
    holds_path between.holds (passed.path between.free _),values⟩,
    fun _ _ enough => runCall_passed passed enough⟩

theorem Between.rejected {held : List V} {l : Local V} {s : Queue Unit V} {op : Op V}
    (between : Between held l s) (diff : s.diff op.side (s.counter op.side) < 0)
    (failed : fifoCall s.capacity held op = (op.failure,held)) : Refines held l s op := by
  refine ⟨⟨.returned op.failure,l.calls + 1⟩,(reject () ⟨.loadCounter op,l.calls + 1⟩ s op).2,?_,?_,
    fun fuel spurious enough => ?_⟩
  · cases op <;> rfl
  · refine ⟨.inr ⟨_,rfl⟩,holds_path between.holds (reject_path between.free diff _),?_⟩
    rw [failed]
    cases op <;> exact between.held
  · rw [failed]
    exact runCall_rejected diff (by omega)

theorem Between.send {held : List V} {l : Local V} {s : Queue Unit V} (between : Between held l s)
    (value : V) : Refines held l s (.trySend value) := by
  obtain ⟨r,holds⟩ := between.holds
  have shared : SharedInv r s := holds.1
  have length := between.length shared
  have size := shared.size
  have diff := diff_send shared (settled_of_free holds between.free)
  by_cases room : held.length < s.capacity
  · rw [if_pos (by omega)] at diff
    obtain ⟨s',passed,advanced,sent⟩ := passed_send (t := ()) (l.calls + 1) value diff
    have called : fifoCall s.capacity held (.trySend value) = (.sent,held ++ [value]) :=
      if_pos room
    refine between.passed (by rw [called]; exact passed) advanced ?_
    have short : s.claims .recv ≤ s.sent.length := by
      rw [shared.length,← shared.next,← shared.next]
      exact shared.valid.le
    rw [called,sent,advanced.claims,← between.held]
    simp [List.drop_append_of_le_length short]
  · have two := shared.capacity.bounds
    rw [if_neg (by omega)] at diff
    exact between.rejected (diff.trans_lt (by omega)) (if_neg room)

theorem Between.recv {held : List V} {l : Local V} {s : Queue Unit V} (between : Between held l s) :
    Refines held l s .tryRecv := by
  obtain ⟨r,holds⟩ := between.holds
  have shared : SharedInv r s := holds.1
  have length := between.length shared
  have settled := settled_of_free holds between.free
  have diff := diff_recv shared settled
  cases held with
  | nil =>
    rw [if_neg (by simp at length; omega)] at diff
    exact between.rejected (diff.trans_lt (by omega)) rfl
  | cons value rest =>
    have some : r.head < r.tail := by simp at length; omega
    have two := shared.capacity.bounds
    have stage := shared.valid.head_settled settled
    rw [if_pos some,shared.size] at stage
    obtain ⟨e,found,data⟩ := shared.full _ (Nat.mod_lt _ (by omega)) _ stage
    obtain ⟨rfl,rest_eq⟩ := between.oldest (by rw [← shared.next]; exact found)
    rw [if_pos some] at diff
    obtain ⟨s',passed,advanced,sent⟩ := passed_recv (t := ()) (l.calls + 1) diff
      (by rw [shared.counter,← shared.next,shared.index]; exact data)
    refine between.passed passed advanced ?_
    rw [sent,advanced.claims,Function.update_self,rest_eq]
    rfl

theorem Between.runCalls {held : List V} {l : Local V} {s : Queue Unit V}
    (between : Between held l s) (history : List (Op V × Nat)) {fuel : Nat}
    (enough : ∀ call ∈ history, 3 * call.2 + 6 ≤ fuel) : runCalls fuel history (l,s) =
      some (fifo s.capacity held (history.map Prod.fst)) := by
  induction history generalizing held l s with
  | nil => rfl
  | cons call rest ih =>
    obtain ⟨op,spurious⟩ := call
    obtain ⟨l',s',capacity,between',ran⟩ : Refines held l s op := by
      cases op
      · exact between.send _
      · exact between.recv
    have later := ih between' fun call mem => enough call (by simp [mem])
    rw [capacity] at later
    rw [Queue.runCalls,prog_call op between.free,Option.bind_some,
      ran fuel spurious (enough (op,spurious) (by simp)),Option.bind_some,later]
    rfl

theorem between_new {slots : Nat × (Nat → Slot V)} {padding size : Nat}
    (created : createSlots V padding size = some slots) (two : 2 ≤ size) :
    Between [] ⟨.idle,0⟩ (new slots : Queue Unit V) := by
  refine ⟨.inl rfl,⟨_,init_holds (createSlots_capacity created two) ?_⟩,rfl⟩
  obtain ⟨_,rfl,_⟩ := createSlots_eq_some created
  rfl

/-- More fuel changes nothing. -/
theorem runCall_mono {fuel spurious : Nat} {p : Local V × Queue Unit V}
    {result : Outcome V × Local V × Queue Unit V} (ran : runCall fuel spurious p = some result)
    (more : Nat) : runCall (fuel + more) spurious p = some result := by
  induction fuel generalizing spurious p with
  | zero => simp [runCall] at ran
  | succ fuel ih =>
    rw [Nat.add_right_comm]
    rw [runCall] at ran ⊢
    split at ran
    · exact ran
    · obtain ⟨next,stepped,rest⟩ := Option.bind_eq_some_iff.mp ran
      rw [stepped,Option.bind_some]
      exact ih rest

theorem runCalls_mono {fuel : Nat} {history : List (Op V × Nat)} {p : Local V × Queue Unit V}
    {outcomes : List (Outcome V)} (ran : runCalls fuel history p = some outcomes) (more : Nat) :
    runCalls (fuel + more) history p = some outcomes := by
  induction history generalizing p outcomes with
  | nil => exact ran
  | cons call rest ih =>
    rw [runCalls] at ran ⊢
    obtain ⟨called,stepped,later⟩ := Option.bind_eq_some_iff.mp ran
    obtain ⟨next,done,later⟩ := Option.bind_eq_some_iff.mp later
    obtain ⟨outcomes,last,rfl⟩ := Option.map_eq_some_iff.mp later
    rw [stepped,Option.bind_some,runCall_mono done more,Option.bind_some,ih last]
    rfl

theorem exists_fuel (history : List (Op V × Nat)) :
    ∃ fuel, ∀ call ∈ history, 3 * call.2 + 6 ≤ fuel := by
  induction history with
  | nil => exact ⟨0,nofun⟩
  | cons call rest ih =>
    obtain ⟨fuel,enough⟩ := ih
    refine ⟨max (3 * call.2 + 6) fuel,fun other mem => ?_⟩
    rcases List.mem_cons.mp mem with rfl | mem
    · exact Nat.le_max_left _ _
    · exact Nat.le_trans (enough other mem) (Nat.le_max_right _ _)

theorem index_one {s : Queue Unit V} (capacity : s.capacity = 1) (pos : Word) : s.index pos = 0 := by
  simp [index,mask,capacity]

/-- With one slot, the number that a value leaves behind is the next one that a sender expects. -/
theorem passed_send_one {s : Queue Unit V} (capacity : s.capacity = 1)
    (sequence : (s.slots 0).sequence = s.counter .send) (calls : Nat) (value : V) :
    ∃ s', Passed () calls (.trySend value) s s' .sent ∧ s'.capacity = 1 ∧
      (s'.slots 0).sequence = s'.counter .send := by
  have diff : s.diff .send (s.counter .send) = 0 := by
    simp [Queue.diff,index_one capacity,map,sequence]
  obtain ⟨s',passed,advanced,_⟩ := passed_send (t := ()) calls value diff
  refine ⟨s',passed,advanced.capacity.trans capacity,?_⟩
  simp [advanced.slots,advanced.counter,index_one capacity,map]

theorem runCalls_one (value value' : V) : runCalls 6 [(.trySend value,0),(.trySend value',0)]
    (⟨.idle,0⟩,new (1,fun i => ⟨BitVec.ofNat 64 i,none⟩)) = some [.sent,.sent] := by
  obtain ⟨s₁,first,capacity,sequence⟩ := passed_send_one (V := V)
    (s := new (1,fun i => ⟨BitVec.ofNat 64 i,none⟩)) rfl rfl 1 value
  obtain ⟨s₂,second,_⟩ := passed_send_one capacity sequence 2 value'
  rw [runCalls,prog_call _ (.inl rfl),Option.bind_some,runCall_passed first (by omega),
    Option.bind_some,runCalls,prog_call _ (.inr ⟨_,rfl⟩),Option.bind_some,
    runCall_passed second (by omega)]
  rfl

/-- Every history of calls made one after another, whose exchanges fail spuriously any number of
times, is that of a queue of `2 ^ ⌈log₂ size⌉` values, exactly when the size is not one. -/
theorem sequential_fifo [Nonempty V] {padding size : Nat} {slots : Nat × (Nat → Slot V)}
    (created : createSlots V padding size = some slots) :
    (∀ history : List (Op V × Nat), ∃ fuel, runCalls fuel history (⟨.idle,0⟩,new slots) =
      some (fifo (2 ^ Nat.clog 2 size) [] (history.map Prod.fst))) ↔ 2 ≤ size := by
  obtain ⟨positive,rfl,_⟩ := createSlots_eq_some created
  constructor
  · intro always
    by_contra small
    obtain rfl : size = 1 := by omega
    obtain ⟨value⟩ := ‹Nonempty V›
    obtain ⟨fuel,ran⟩ := always [(.trySend value,0),(.trySend value,0)]
    rw [Nat.clog_one_right,Nat.pow_zero] at ran
    have more := runCalls_mono (runCalls_one value value) fuel
    rw [Nat.add_comm,runCalls_mono ran 6] at more
    simp [fifo,fifoCall] at more
  · intro two history
    obtain ⟨fuel,enough⟩ := exists_fuel history
    exact ⟨fuel,(between_new created two).runCalls history enough⟩

theorem sequential_fifo_two : ∃ fuel, runCalls fuel
    [(.trySend 1,0),(.trySend 2,1),(.trySend 3,0),(.tryRecv,2),(.trySend 4,0)]
      (⟨.idle,0⟩,new (2,fun i => ⟨BitVec.ofNat 64 i,none⟩)) =
    some [.sent,.sent,.full 3,.received 1,.sent] := by
  have : Nat.clog 2 2 = 1 := by decide
  have runs := (sequential_fifo createSlots_two).mpr (Nat.le_refl 2)
    [(.trySend 1,0),(.trySend 2,1),(.trySend 3,0),(.tryRecv,2),(.trySend 4,0)]
  simpa [fifo,fifoCall,this] using runs

/-- A channel of size one does not tell a full slot from a free one. -/
theorem one_not_fifo : ¬ ∀ (size : Nat) (slots : Nat × (Nat → Slot Nat)),
    createSlots Nat 8 size = some slots → ∀ history : List (Op Nat × Nat), ∃ fuel,
      runCalls fuel history (⟨.idle,0⟩,new slots) =
        some (fifo (2 ^ Nat.clog 2 size) [] (history.map Prod.fst)) := by
  intro always
  obtain ⟨fuel,ran⟩ := always 1 (1,fun i => ⟨BitVec.ofNat 64 i,none⟩) (by simp [createSlots])
    [(.trySend 1,0),(.trySend 2,0)]
  have more := runCalls_mono (runCalls_one 1 2) fuel
  rw [Nat.add_comm,runCalls_mono ran 6] at more
  simp [fifo,fifoCall] at more

end XxCore.Sync.Queue
