import XxCore.Sync.Channel.ChannelHandles

/-! What a receiver may conclude from `RecvError::Closed`. The queue is read before the closed
flag, so the conclusion needs that nothing was sent in between. -/
namespace XxCore.Sync

namespace Queue

variable {θ V : Type}

/-- Every value that a receiver has claimed was read, or will be by the claimant. -/
def Accounted (c : Config θ V) : Prop :=
  ∀ k < c.shared.claims .recv, k ∈ c.shared.received.map Prod.fst ∨
    ∃ u pos, (c.locals u).pc = .success .tryRecv pos k

theorem Step.rejected {t : θ} {s s' : Queue θ V} {l l' : Local V} {label : Label V}
    {outcome : Outcome V} (stepped : Step t s l label l' s')
    (phase : l.pc.phase = some (.tryRecv,false)) (failed : l'.pc = .returned outcome) :
    label = .next ∧ ∃ pos stamp, l.pc = .loadSequence .tryRecv pos stamp ∧ s.diff .recv pos < 0 := by
  cases stepped with
  | rejectRecv diff => exact ⟨rfl,_,_,rfl,diff⟩
  | rejectSend | storeSequence => simp [Pc.phase] at phase
  | _ => contradiction

theorem Step.calls {t : θ} {s s' : Queue θ V} {l l' : Local V} {label : Label V}
    (stepped : Step t s l label l' s') (busy : l.pc.phase ≠ none) : l'.calls = l.calls := by
  cases stepped with
  | call free => rcases free with rfl | ⟨_,rfl⟩ <;> exact absurd rfl busy
  | _ => rfl

theorem Step.received {t : θ} {s s' : Queue θ V} {l l' : Local V} {label : Label V}
    (stepped : Step t s l label l' s') {k : Nat} (mem : k ∈ s.received.map Prod.fst) :
    k ∈ s'.received.map Prod.fst := by
  cases stepped with
  | read =>
    simp only [take,setSlot,List.map_append,List.mem_append]
    exact .inl mem
  | _ => exact mem

theorem Accounted.step [DecidableEq θ] {c next : Config θ V} {label : θ × Label V}
    (accounted : Accounted c) (stepped : step c label = some next) : Accounted next := by
  rcases label with ⟨t,label⟩
  obtain ⟨l',s',ran,rfl⟩ := Threads.step_eq_some.mp stepped
  have step := prog_step ran
  intro k lt
  -- a ticket that was claimed before, or the one that this step claims
  have old : k < c.shared.claims .recv ∨ ∃ pos, l'.pc = .success .tryRecv pos k := by
    rcases step.claims with same | ⟨op,pos,stamp,_,claimed,new⟩
    · exact .inl (by simpa [same] using lt)
    · cases op with
      | trySend value => exact .inl (by simpa [new,Op.side] using lt)
      | tryRecv =>
        simp only [new,Op.side,Function.update_self] at lt
        rcases Nat.lt_succ_iff_lt_or_eq.mp lt with lt | rfl
        · exact .inl lt
        · exact .inr ⟨pos,claimed⟩
  rcases old with lt | ⟨pos,claimed⟩
  · rcases accounted k lt with read | ⟨u,pos,at_⟩
    · exact .inl (step.received read)
    · by_cases same : u = t
      · subst same
        generalize here : c.locals u = l at step at_
        cases step with
        | readNone => exact .inr ⟨u,pos,by simpa using at_⟩
        | read =>
          obtain ⟨_,_,rfl⟩ := Pc.success.inj at_
          exact .inl (by simp [take])
        | call free => rcases free with rfl | ⟨_,rfl⟩ <;> contradiction
        | write => simp at at_
        | _ => contradiction
      · exact .inr ⟨u,pos,by simpa [same] using at_⟩
  · exact .inr ⟨t,pos,by simpa using claimed⟩

end Queue

namespace MCChannel

variable {θ ω V : Type}

/-- No sender is left, and every value was claimed. -/
structure Drained (c : Config θ ω V) : Prop where
  closed : (c.shared.waiters .recv).closed = true
  claimed : c.shared.queue.claims .recv = c.shared.queue.claims .send

/-- No receiver takes the queue for empty when its counter was claimed so many times since it
loaded it that the difference of the sequence numbers has the wrong sign. -/
def RejectsInTime (c : Config θ ω V) (label : θ × Label ω V) : Prop :=
  label.2 = .queue .next → ∀ pos stamp,
    (c.locals label.1).queue.pc = .loadSequence .tryRecv pos stamp →
    c.shared.queue.diff .recv pos < 0 →
    c.shared.queue.claims .recv + c.shared.queue.capacity ≤ stamp + 2 ^ 63

/-- A receiver that found the queue empty while a sender was left does not load the closed flag
after the last sender closed the channel and left a value behind. -/
def NotLate (c : Config θ ω V) (label : θ × Label ω V) : Prop :=
  label.2 = .next → ∀ again, (c.locals label.1).main = .loadClosed .tryRecv again false →
    (c.shared.waiters .recv).closed = true →
    c.shared.queue.claims .recv = c.shared.queue.claims .send

structure ReportsInTime (c : Config θ ω V) (label : θ × Label ω V) : Prop where
  claims : ClaimsInTime c label
  rejects : RejectsInTime c label
  notLate : NotLate c label

theorem Base.le {c : Config θ ω V} (base : Base c) :
    c.shared.queue.claims .recv ≤ c.shared.queue.claims .send := by
  obtain ⟨r,holds⟩ := base.queue
  have recv := holds.1.next .recv
  have send := holds.1.next .send
  have le := holds.1.valid.le
  simp only [Queue.next] at recv send
  simp only [queueOf] at recv send
  omega

/-- A slot that a sender has claimed belongs to a task that uses a sender. -/
theorem uses_of_phase {l : Local ω V} (coherent : Coherent l) {op : Op V} {claimed : Bool}
    (phase : l.queue.pc.phase = some (op,claimed)) : l.main.uses = some op.side := by
  have same := coherent.queue.symm.trans phase
  cases main : l.main <;> rw [main] at same <;> simp only [Main.phase] at same <;>
    first | contradiction | (obtain ⟨rfl,_⟩ := Prod.mk.inj (Option.some.inj same); rfl)

theorem phase_of_holds {pc : Queue.Pc V} {side : Side} {k : Nat} (holds : pc.holds = some (side,k)) :
    ∃ op, op.side = side ∧ pc.phase = some (op,true) := by
  cases pc <;> simp only [Queue.Pc.holds,reduceCtorEq,Option.some.injEq,Prod.mk.injEq] at holds
  all_goals exact ⟨_,holds.1,rfl⟩

/-- Once no sender is left, a receiver that finds the queue empty in time knows that every value
was claimed. -/
theorem drained_of_empty {c : Config θ ω V} {t : θ} {pos : Word} {stamp : Nat} (base : Base c)
    (holds : handles.Holds () c) (closed : (c.shared.waiters .recv).closed = true)
    (at_ : (c.locals t).queue.pc = .loadSequence .tryRecv pos stamp)
    (diff : c.shared.queue.diff .recv pos < 0)
    (inTime : c.shared.queue.claims .recv + c.shared.queue.capacity ≤ stamp + 2 ^ 63) :
    Drained c := by
  obtain ⟨r,queue⟩ := base.queue
  have shared : Queue.SharedInv r c.shared.queue := queue.1
  have own := queue.2 t
  obtain rfl : pos = _ := own.position _ stamp (by simp [queueOf,at_,Queue.Pc.position])
  have stamped : stamp ≤ c.shared.queue.claims .recv :=
    own.stamp .recv stamp (by simp [queueOf,at_,Queue.Pc.stamp,Queue.Op.side])
  refine ⟨closed,Nat.le_antisymm base.le ?_⟩
  by_contra more
  have positive : 0 < c.shared.queue.capacity := by have := shared.capacity.bounds; omega
  have tail : r.tail = c.shared.queue.claims .send := shared.next .send
  have head : r.head = c.shared.queue.claims .recv := shared.next .recv
  have size := shared.size
  have lt := Nat.mod_lt stamp positive
  have published (u : θ) : r.stage (stamp % r.size) ≠ .writing stamp u := by
    intro writing
    rw [size] at writing
    obtain ⟨op,side,phase⟩ := phase_of_holds ((queue.2 u).owns _ lt .send stamp writing)
    refine nobody_sends holds (holds.1.closed closed) u ?_
    rw [uses_of_phase (base.coherent u) phase,side]
  have above := shared.valid.sequence_lt (show stamp < r.tail by omega) published
  have below := shared.valid.sequence_le (size ▸ lt)
  rw [size] at above below
  rw [shared.diff,Queue.expected,Word.toInt_sub (by omega) (by omega)] at diff
  omega

variable [DecidableEq θ] [DecidableEq ω]

/-- A drained channel stays so: nothing is sent and nothing received any more. -/
theorem Drained.step {c next : Config θ ω V} {label : θ × Label ω V} (drained : Drained c)
    (base : Base c) (base' : Base next) (holds : handles.Holds () c)
    (stepped : step c label = some next) :
    Drained next ∧ next.shared.queue.claims = c.shared.queue.claims := by
  rcases label with ⟨t,label⟩
  have le := base'.le
  obtain ⟨l',s',ran,rfl⟩ := Threads.step_eq_some.mp stepped
  have step := prog_step ran
  have claims : s'.queue.claims = c.shared.queue.claims := by
    rcases step.claims (base.coherent t) with same | ⟨op,again,main,_,new⟩
    · exact same
    · cases side : op.side with
      | send =>
        have uses : (c.locals t).main.uses = some .send := by rw [main,← side]; rfl
        exact absurd uses (nobody_sends holds (holds.1.closed drained.closed) t)
      | recv =>
        simp only [new,side,drained.claimed,Function.update_self,
          Function.update_of_ne (show Side.send ≠ .recv by decide)] at le
        exact absurd le (Nat.not_succ_le_self _)
  exact ⟨⟨step.stays_closed .recv drained.closed,by simpa [claims] using drained.claimed⟩,claims⟩

/-- Where a task that has the report of the queue comes from. -/
theorem Step.reported {t : θ} {label : Label ω V} {l l' : Local ω V} {s s' : MCChannel θ ω V}
    (step : Step t l s label l' s') {op : Op V} {again seen : Bool}
    (at_ : l'.main = .loadClosed op again seen) :
    seen = (s.waiters op.side).closed ∧ ∃ choice outcome, label = .queue choice ∧
      l.main = .nextSlot op again ∧ l'.queue.pc = .returned outcome ∧
      Queue.prog t choice l.queue s.queue = some (l'.queue,s'.queue) := by
  cases step with
  | reject main ran failed =>
    obtain ⟨rfl,rfl,rfl⟩ := Main.loadClosed.inj at_
    exact ⟨rfl,_,_,rfl,main,failed,ran⟩
  | search main | access main | resume main | sendClosedBlock main =>
    exact absurd (main.symm.trans at_) nofun
  | close main => rcases main with main | main <;> exact absurd (main.symm.trans at_) nofun
  | drop | wake | wait | sendClosedWait =>
    simp only [Local.goto] at at_
    split at at_ <;> contradiction
  | _ => contradiction

/-- Who is told that the channel is closed has seen the flag. -/
theorem Step.told {t : θ} {label : Label ω V} {l l' : Local ω V} {s s' : MCChannel θ ω V}
    (step : Step t l s label l' s') (at_ : l'.main = .returned (.closed .tryRecv)) :
    label = .next ∧ (s.waiters .recv).closed = true ∧
      ∃ again seen, l.main = .loadClosed .tryRecv again seen := by
  cases step with
  | beginClosed _ send =>
    obtain rfl := Returned.closed.inj (Main.returned.inj at_)
    contradiction
  | failClosed main closed =>
    obtain rfl := Returned.closed.inj (Main.returned.inj at_)
    exact ⟨rfl,closed,_,_,main⟩
  | search main | access main | resume main | sendClosedBlock main =>
    cases main.symm.trans at_
  | close main => rcases main with main | main <;> cases main.symm.trans at_
  | wake | wait | sendClosedWait =>
    simp only [Local.goto] at at_
    split at at_ <;> contradiction
  | drop =>
    simp only [Local.goto] at at_
    split at at_
    · contradiction
    · cases Main.returned.inj at_
  | clone | finish | fail | interrupted | isClosed | sendClosedCancelled | closed =>
    cases Main.returned.inj at_
  | _ => contradiction

/-- What the tasks that are told that the channel is closed know. -/
structure Reports (c : Config θ ω V) : Prop where
  base : Base c
  handles : handles.Holds () c
  accounted : Queue.Accounted (queueOf c)
  seen : ∀ t again, (c.locals t).main = .loadClosed .tryRecv again true → Drained c
  told : ∀ t, (c.locals t).main = .returned (.closed .tryRecv) → Drained c

theorem Reports.step {c next : Config θ ω V} {label : θ × Label ω V} (reports : Reports c)
    (inTime : ReportsInTime c label) (stepped : step c label = some next) : Reports next := by
  have base' := reports.base.step inTime.claims stepped
  have stays (drained : Drained c) : Drained next :=
    (drained.step reports.base base' reports.handles stepped).1
  refine ⟨base',handles_step reports.base.coherent reports.handles stepped,?_,?_,?_⟩
  · rcases label with ⟨t,label⟩
    rcases queue_simulates stepped with same | ⟨choice,_,stepped⟩
    · rw [same]; exact reports.accounted
    · exact reports.accounted.step stepped
  all_goals
    rcases label with ⟨t,label⟩
    obtain ⟨l',s',ran,rfl⟩ := Threads.step_eq_some.mp stepped
    have step := prog_step ran
    intro u
    by_cases same : u = t
  · subst same
    intro again at_
    simp only [Function.update_self] at at_
    obtain ⟨closed,choice,outcome,rfl,main,failed,ran⟩ := step.reported at_
    have queue := (reports.base.coherent u).queue
    rw [main] at queue
    obtain ⟨rfl,pos,stamp,here,diff⟩ := (Queue.prog_step ran).rejected queue failed
    exact stays (drained_of_empty reports.base reports.handles closed.symm here diff
      (inTime.rejects rfl pos stamp here diff))
  · intro again at_
    exact stays (reports.seen u again (by simpa [same] using at_))
  · subst same
    intro at_
    simp only [Function.update_self] at at_
    obtain ⟨rfl,closed,again,seen,main⟩ := step.told at_
    refine stays ?_
    cases seen with
    | true => exact reports.seen u again main
    | false => exact ⟨closed,inTime.notLate rfl again main closed⟩
  · intro at_
    exact stays (reports.told u (by simpa [same] using at_))

theorem init_reports {padding size : Nat} {slots : Nat × (Nat → Slot V)}
    (created : createSlots V padding size = some slots) (two : 2 ≤ size) :
    Reports (init slots : Config θ ω V) :=
  ⟨init_base created two,init_handles slots,nofun,nofun,nofun⟩

/-- The task is in no receive that has claimed a value, nor back from one. -/
def TakesNothing (l : Local ω V) : Prop :=
  l.main.phase ≠ some (.tryRecv,true) ∧ ∀ value, l.main ≠ .returned (.finished (.received value))

/-- A task that starts a call after the channel was drained takes nothing. -/
theorem Step.takesNothing {t : θ} {label : Label ω V} {l l' : Local ω V} {s s' : MCChannel θ ω V}
    (step : Step t l s label l' s') (coherent : Coherent l) (calls : Nat)
    (nobody : l.main.uses ≠ some .send) (frozen : s'.queue.claims = s.queue.claims)
    (before : calls < l.queue.calls → TakesNothing l) (after : calls < l'.queue.calls) :
    TakesNothing l' := by
  -- neither a send nor a receive has a slot
  have unclaimed {op} (phase : l.main.phase = some (op,true)) (lt : calls < l.queue.calls) : False := by
    cases op with
    | trySend value =>
      exact nobody (uses_of_phase coherent (coherent.queue.trans phase))
    | tryRecv => exact (before lt).1 phase
  cases step with
  | claim main ran claimed =>
    have queue := coherent.queue
    rw [main] at queue
    exact absurd frozen ((Queue.prog_step ran).claimed queue claimed)
  | startWake main | wake main => exact (unclaimed (by rw [main]; rfl) after).elim
  | @access op _ _ _ _ main ran | @finish op _ _ _ _ _ main ran =>
    have phase : l.main.phase = some (op,true) := by rw [main]; rfl
    refine (unclaimed phase ?_).elim
    rw [← (Queue.prog_step ran).calls (by simp [coherent.queue,phase])]
    exact after
  | search main => exact ⟨by simp [main,Main.phase],by simp [main]⟩
  | resume | sendClosedBlock | close => exact before after
  | @fail op | @interrupted op =>
    refine ⟨by intro phase; contradiction,fun value same => ?_⟩
    cases op <;> cases (Returned.finished.inj (Main.returned.inj same))
  | drop =>
    simp only [Local.goto]
    split <;> exact ⟨by intro phase; contradiction,by intro _ same; cases same⟩
  | wait | sendClosedWait =>
    simp only [Local.goto]
    split <;> exact ⟨by intro phase; contradiction,by intro _ same; cases same⟩
  | _ =>
    constructor
    · intro phase
      cases phase
    · intro _ same
      cases same

/-- What a receiver that is told `Closed` in the state `c` relies on: every value ever sent was
taken, by a receiver that has read it or is about to, and no call after that gets a value. -/
structure Final (allowed : Config θ ω V → θ × Label ω V → Prop) (c : Config θ ω V) : Prop where
  taken : ∀ k e, c.shared.queue.sent[k]? = some e → (k,e.value) ∈ c.shared.queue.received ∨
    ∃ u pos, (c.locals u).queue.pc = .success .tryRecv pos k
  later : ∀ labels d, Transition.Path step allowed c labels d → ∀ u value,
    (c.locals u).queue.calls < (d.locals u).queue.calls →
    (d.locals u).main ≠ .returned (.finished (.received value))

theorem Drained.taken {c : Config θ ω V} (drained : Drained c) (reports : Reports c) {k : Nat}
    {e : Sent θ V} (sent : c.shared.queue.sent[k]? = some e) :
    (k,e.value) ∈ c.shared.queue.received ∨
      ∃ u pos, (c.locals u).queue.pc = .success .tryRecv pos k := by
  obtain ⟨r,queue⟩ := reports.base.queue
  have shared : Queue.SharedInv r c.shared.queue := queue.1
  have lt : k < c.shared.queue.claims .recv := by
    rw [drained.claimed,← shared.length]
    exact (List.getElem?_eq_some_iff.mp sent).1
  refine (reports.accounted k lt).imp_left fun mem => ?_
  obtain ⟨⟨_,v⟩,found,rfl⟩ := List.mem_map.mp mem
  obtain ⟨_,e',sent',rfl⟩ := shared.received _ v found
  obtain rfl := Option.some.inj (sent.symm.trans sent')
  exact found

theorem Drained.later {c d : Config θ ω V} {labels : List (θ × Label ω V)} (drained : Drained c)
    (reports : Reports c) (path : Transition.Path MCChannel.step ReportsInTime c labels d) (u : θ)
    (later : (c.locals u).queue.calls < (d.locals u).queue.calls) : TakesNothing (d.locals u) := by
  have inv := path.invariant
    (fun d => Reports d ∧ Drained d ∧ ∀ u, (c.locals u).queue.calls < (d.locals u).queue.calls →
      TakesNothing (d.locals u)) ?_ ⟨reports,drained,fun _ lt => absurd lt (Nat.lt_irrefl _)⟩
  · exact inv.2.2 u later
  · rintro d ⟨v,label⟩ next ⟨reports,drained,quiet⟩ inTime stepped
    have reports' := reports.step inTime stepped
    obtain ⟨drained',frozen⟩ := drained.step reports.base reports'.base reports.handles stepped
    refine ⟨reports',drained',fun u later => ?_⟩
    obtain ⟨l',s',ran,rfl⟩ := Threads.step_eq_some.mp stepped
    by_cases same : u = v
    · subst same
      simp only [Function.update_self] at later ⊢
      exact (prog_step ran).takesNothing (reports.base.coherent u) _
        (nobody_sends reports.handles (reports.handles.1.closed drained.closed) u) frozen
        (quiet u) later
    · simp only [Function.update_of_ne same] at later ⊢
      exact quiet u later

/-- `RecvError::Closed` is final in every run in which no report of an empty queue comes late. -/
theorem closed_is_final {padding size : Nat} {slots : Nat × (Nat → Slot V)}
    {labels : List (θ × Label ω V)} {c : Config θ ω V} {t : θ}
    (created : createSlots V padding size = some slots) (two : 2 ≤ size)
    (path : Transition.Path step ReportsInTime (init slots) labels c)
    (told : (c.locals t).main = .returned (.closed .tryRecv)) : Final ReportsInTime c := by
  have reports := path.invariant Reports (fun _ _ _ reports inTime stepped =>
    reports.step inTime stepped) (init_reports created two)
  have drained := reports.told t told
  exact ⟨fun _ _ => drained.taken reports,fun _ _ path u value later =>
    (drained.later reports path u later).2 value⟩

/-- The three steps of an attempt, up to the sequence number of its slot. -/
def attempt (t : Nat) : List (Nat × Label Nat Nat) := [(t,.next),(t,.queue .next),(t,.queue .next)]

/-- A `try_send` while nobody waits. -/
def trySend (t value : Nat) : List (Nat × Label Nat Nat) :=
  (t,.call (.op (.trySend value) false)) :: attempt t ++ [(t,.queue (.exchange false)),(t,.next),
    (t,.list .next),(t,.list .next),(t,.list .next),(t,.list .next),(t,.queue .next),(t,.queue .next)]

def tryRecv (t : Nat) : List (Nat × Label Nat Nat) :=
  (t,.call (.op .tryRecv false)) :: attempt t ++ [(t,.queue (.exchange false)),(t,.next),
    (t,.list .next),(t,.list .next),(t,.list .next),(t,.list .next),(t,.queue .next),(t,.queue .next)]

/-- The drop of the last sender while nobody waits. -/
def dropSender (t : Nat) : List (Nat × Label Nat Nat) :=
  [(t,.call (.drop .send)),(t,.next),(t,.list .next),(t,.list .next),(t,.list .next),(t,.list .next),
    (t,.list .next),(t,.list .next)]

def twoSlots : Config Nat Nat Nat := init (2,fun i => ⟨BitVec.ofNat 64 i,none⟩)

def claimsInTime (c : Config θ ω V) (label : θ × Label ω V) : Bool :=
  match label.2, (c.locals label.1).queue.pc with
  | .queue (.exchange false), .exchange op _ stamp =>
    decide (c.shared.queue.claims op.side < stamp + 2 ^ 64)
  | _, _ => true

omit [DecidableEq θ] [DecidableEq ω] in
theorem claimsInTime_sound (c : Config θ ω V) (label : θ × Label ω V)
    (checked : claimsInTime c label = true) : ClaimsInTime c label := by
  rintro choice is exchange op pos stamp at_ _
  obtain rfl : choice = _ := exchange
  simp only [queueOf] at at_
  simpa [claimsInTime,is,at_,queueOf] using checked

def reportsInTime (c : Config θ ω V) (label : θ × Label ω V) : Bool :=
  claimsInTime c label &&
    match label.2, (c.locals label.1).queue.pc, (c.locals label.1).main with
    | .queue .next, .loadSequence _ _ stamp, _ => decide
      (c.shared.queue.claims .recv + c.shared.queue.capacity ≤ stamp + 2 ^ 63)
    | .next, _, .loadClosed _ _ false => !(c.shared.waiters .recv).closed
    | _, _, _ => true

omit [DecidableEq θ] [DecidableEq ω] in
theorem reportsInTime_sound (c : Config θ ω V) (label : θ × Label ω V)
    (checked : reportsInTime c label = true) : ReportsInTime c label := by
  simp only [reportsInTime,Bool.and_eq_true] at checked
  refine ⟨claimsInTime_sound c label checked.1,fun is pos stamp at_ _ => ?_,
    fun is again at_ closed => ?_⟩
  · simpa [is,at_] using checked.2
  · simp [is,at_,closed] at checked

/-- The sender is dropped before the receiver asks. -/
def closedTrace : List (Nat × Label Nat Nat) :=
  dropSender 0 ++ (1,.call (.op .tryRecv false)) :: attempt 1 ++ [(1,.next)]

theorem closed_is_final_dropped : ∃ c, Transition.run step closedTrace twoSlots = some c ∧
    (c.locals 1).main = .returned (.closed .tryRecv) ∧ Final ReportsInTime c := by
  obtain ⟨c,checked,executed,told⟩ : ∃ c, Transition.run
      (fun c l => if reportsInTime c l then step c l else none) closedTrace twoSlots = some c ∧
      Transition.run step closedTrace twoSlots = some c ∧
      (c.locals 1).main = .returned (.closed .tryRecv) := ⟨_,rfl,rfl,rfl⟩
  exact ⟨c,executed,told,closed_is_final Queue.createSlots_two (Nat.le_refl 2)
    (Transition.run_path_checked reportsInTime reportsInTime_sound checked) told⟩

/-- The last sender sends a value and is dropped between the two loads of a receiver. -/
def lateTrace : List (Nat × Label Nat Nat) :=
  (1,.call (.op .tryRecv false)) :: attempt 1 ++ trySend 0 7 ++ dropSender 0 ++ [(1,.next)]

/-- The value that the receiver was told is not there. -/
theorem closed_not_final : ¬ ∀ (labels : List (Nat × Label Nat Nat)) (c : Config Nat Nat Nat) (t : Nat),
    Transition.Path step Transition.anyStep twoSlots labels c →
    (c.locals t).main = .returned (.closed .tryRecv) → Final Transition.anyStep c := by
  intro always
  obtain ⟨c,d,late,told,again,calls,received⟩ : ∃ c d,
      Transition.run step lateTrace twoSlots = some c ∧
      (c.locals 1).main = .returned (.closed .tryRecv) ∧
      Transition.run step (tryRecv 1) c = some d ∧
      (c.locals 1).queue.calls < (d.locals 1).queue.calls ∧
      (d.locals 1).main = .returned (.finished (.received 7)) :=
    ⟨_,_,rfl,rfl,rfl,by decide,rfl⟩
  have final := always _ c 1 (Transition.run_path (fun _ _ _ => trivial) late) told
  exact final.later _ d (Transition.run_path (fun _ _ _ => trivial) again) 1 7 calls received

end MCChannel
end XxCore.Sync
