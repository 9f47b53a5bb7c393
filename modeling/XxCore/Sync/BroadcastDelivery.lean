import XxCore.Sync.BroadcastReceivers

/-! Once all sends have finished, a receiver that finds nothing more has got every value that was
sent since it started, or has been told of it, provided that no send comes to its slot after one
that is a lap ahead. -/
namespace XxCore.Sync.Broadcast

variable {θ V : Type}

/-- No send updates its slot after a send with a later index has. -/
def NotOvertaken (c : Config θ V) (label : θ × Label V) : Prop :=
  ∀ value index receivers f, (c.locals label.1).pc = .update value index receivers →
    c.shared.board.flights label.1 = some f → (c.shared.board.cellOf f.index).number ≤ f.index

/-- The signed differences are exact and no send is overtaken. -/
def Prompt (c : Config θ V) (label : θ × Label V) : Prop := InTime c label ∧ NotOvertaken c label

def prompt (c : Config θ V) (label : θ × Label V) : Bool :=
  match (c.locals label.1).pc, c.shared.board.readers label.1, c.shared.board.flights label.1 with
  | .loadSequence j, some r, _ =>
    decide ((c.shared.board.cells j).number < r.position + 1 + 2 ^ 63 ∧
      r.position + 1 ≤ (c.shared.board.cells j).number + 2 ^ 63)
  | .update _ _ _, _, some f => decide ((c.shared.board.cellOf f.index).number ≤ f.index)
  | _, _, _ => true

theorem prompt_sound (c : Config θ V) (label : θ × Label V) (checked : prompt c label = true) :
    Prompt c label := by
  constructor
  · intro j r pc reader
    simpa [prompt,pc,reader] using checked
  · intro value index receivers f pc flight
    simpa [prompt,pc,flight] using checked

def Pc.isSending : Pc V → Bool
  | .loadReceivers _ _ | .update _ _ _ => true
  | _ => false

def Label.isSend : Label V → Bool
  | .call (.send _) => true
  | _ => false

/-- The receiver found nothing, and is about to say so or has. -/
def Pc.isDrained : Pc V → Bool
  | .unlock _ .behind | .isClosed | .returned .empty | .returned .closed => true
  | _ => false

/-- No send is in progress. -/
def Quiet (c : Config θ V) : Prop := ∀ t, (c.locals t).pc.isSending = false

/-- The value of the index was delivered to the receiver once, or the receiver was told that it
has missed the index or chose to skip it. -/
def Served (r : Board.Reader V) (index : Nat) (value : V) : Prop :=
  Feed.deliveries index r.events = [value] ∨
  Feed.deliveries index r.events = [] ∧ ∃ event ∈ r.events, Feed.Skips index event

theorem Accounts.served {b : Board θ V} {r : Board.Reader V} {pc : Pc V}
    (accounts : Accounts b r pc) {i : Nat} {v : V} (sent : b.sent i = some v) (le : r.start ≤ i)
    (lt : i + pc.taken < r.position) : Served r i v := by
  obtain ⟨q,eq,tiles⟩ := accounts.tiles
  rcases tiles.passed le (by omega) with ⟨w,once,mem⟩ | skipped
  · have := accounts.values i w mem
    rw [sent,Option.some.injEq] at this
    subst this
    exact .inl once
  · exact .inr skipped

theorem Own.quiet {t : θ} {s : Broadcast θ V} {l : Local V} (own : Own t s l)
    (quiet : l.pc.isSending = false) : s.board.flights t = none := by
  have flying := own.flying
  cases pc : l.pc <;> rw [pc] at flying quiet <;> first | exact flying | contradiction

/-- If no send is in progress, a slot whose number is not ahead of a position shows that nothing
is left to receive there. -/
theorem Shared.drained {s : Broadcast θ V} (shared : Shared s) (settled : s.board.Settled)
    (quiet : ∀ t, s.board.flights t = none) {p : Nat}
    (above : (s.board.cells (p % s.capacity)).number < p + 1 + 2 ^ 63)
    (below : p + 1 ≤ (s.board.cells (p % s.capacity)).number + 2 ^ 63)
    (diff : ((s.slots (p % s.capacity)).sequence - (BitVec.ofNat 64 p + 1)).toInt < 0) :
    s.board.claims ≤ p := by
  rw [shared.sequence _ (shared.mod_lt p),show (1 : Word) = BitVec.ofNat 64 1 from rfl,
    ← BitVec.ofNat_add,Word.toInt_sub (by omega) (by omega)] at diff
  apply Nat.le_of_not_lt
  intro lt
  rcases settled p lt with ⟨t,f,flight,_⟩ | number
  · simp [quiet t] at flight
  · rw [Board.cellOf,shared.size] at number
    omega

variable [DecidableEq θ]

theorem Step.settled {t : θ} {l l' : Local V} {s s' : Broadcast θ V} {label : Label V}
    (step : Step t l s label l' s') (own : Own t s l)
    (forward : ∀ value index receivers f, l.pc = .update value index receivers →
      s.board.flights t = some f → (s.board.cellOf f.index).number ≤ f.index)
    (settled : s.board.Settled) : s'.board.Settled := by
  cases step with
  | send free => exact settled.claim (own.free free).1
  | loadReceivers => exact settled.count t
  | update pc unlocked =>
    obtain ⟨k,counted,flight,_⟩ := own.updating pc
    exact settled.publish _ flight (forward _ _ _ _ pc flight)
  | fetchSub => exact settled.take t _
  | _ => exact settled

/-- The numbers of the slots only grow. -/
theorem Step.number_le {t : θ} {l l' : Local V} {s s' : Broadcast θ V} {label : Label V}
    (step : Step t l s label l' s') (own : Own t s l)
    (forward : ∀ value index receivers f, l.pc = .update value index receivers →
      s.board.flights t = some f → (s.board.cellOf f.index).number ≤ f.index) (j : Nat) :
    (s.board.cells j).number ≤ (s'.board.cells j).number := by
  cases step with
  | update pc unlocked =>
    obtain ⟨k,counted,flight,_⟩ := own.updating pc
    exact Board.publish_number _ flight (forward _ _ _ _ pc flight) j
  | fetchSub =>
    rename_i i pos pc receiver
    by_cases same : j = i <;> simp [Broadcast.fetchSub,Board.take,Board.modify,same]
  | _ => exact Nat.le_refl _

/-- A send starts with its call, and only a send claims an index. -/
theorem Step.quiet {t : θ} {l l' : Local V} {s s' : Broadcast θ V} {label : Label V}
    (step : Step t l s label l' s') (not_send : label.isSend = false)
    (quiet : l.pc.isSending = false) :
    l'.pc.isSending = false ∧ s'.board.claims = s.board.claims := by
  cases step with
  | send => contradiction
  | loadReceivers pc => simp [pc,Pc.isSending] at quiet
  | update pc => simp [pc,Pc.isSending] at quiet
  | dropSender => by_cases last : s.txCount = 1 <;> simp [last,Pc.isSending]
  | accessNone => exact ⟨quiet,rfl⟩
  | unlock => rename_i after _; cases after <;> exact ⟨rfl,rfl⟩
  | _ => exact ⟨rfl,rfl⟩

/-- Who says that nothing is left has just found so, or keeps saying it. -/
theorem Step.drained {t : θ} {l l' : Local V} {s s' : Broadcast θ V} {label : Label V}
    (step : Step t l s label l' s') (drained : l'.pc.isDrained = true) :
    s'.board = s.board ∧ (l.pc.isDrained = true ∧ l.pc.isFree = false ∨
      ∃ j pos, l.pc = .loadSequence j ∧ l.receiver = some pos ∧
        ((s.slots j).sequence - (pos + 1)).toInt < 0) := by
  cases step with
  | behind pc receiver diff => exact ⟨rfl,.inr ⟨_,_,pc,receiver,diff⟩⟩
  | accessNone pc => simp [pc,Pc.isDrained] at drained
  | isClosed pc => exact ⟨rfl,.inl (by rw [pc]; exact ⟨rfl,rfl⟩)⟩
  | unlock pc =>
    rename_i j after
    cases after with
    | behind => exact ⟨rfl,.inl (by rw [pc]; exact ⟨rfl,rfl⟩)⟩
    | received | ahead => contradiction
  | dropSender => by_cases last : s.txCount = 1 <;> simp [last,Pc.isDrained] at drained
  | update =>
    rename_i value index receivers _ _
    by_cases none : receivers = 0 <;> simp [none,Pc.isDrained] at drained
  | _ => simp [Pc.isDrained,Broadcast.fetchSub,skip] at drained

/-- Who says that nothing is left has passed every index, if no send was in progress when it
looked. -/
theorem Step.passed {t : θ} {l l' : Local V} {s s' : Broadcast θ V} {label : Label V}
    (step : Step t l s label l' s') (shared : Shared s) (own : Own t s l)
    (settled : s.board.Settled)
    (inTime : ∀ j r, l.pc = .loadSequence j → s.board.readers t = some r →
      (s.board.cells j).number < r.position + 1 + 2 ^ 63 ∧
      r.position + 1 ≤ (s.board.cells j).number + 2 ^ 63)
    (quiet : ∀ j, l.pc = .loadSequence j → ∀ u, s.board.flights u = none)
    (before : l.pc.isDrained = true → l.pc.isFree = false →
      ∃ r, s.board.readers t = some r ∧ s.board.claims ≤ r.position)
    (drained : l'.pc.isDrained = true) :
    ∃ r, s'.board.readers t = some r ∧ s'.board.claims ≤ r.position := by
  obtain ⟨board,⟨found,busy⟩ | ⟨j,pos,pc,receiver,diff⟩⟩ := step.drained drained
  all_goals rw [board]
  · exact before found busy
  · obtain ⟨r,reader,rfl⟩ := own.loading pc
    obtain ⟨r',reader',rfl⟩ := own.reader receiver
    obtain rfl := Option.some.inj (reader'.symm.trans reader)
    obtain ⟨above,below⟩ := inTime _ r' pc reader
    exact ⟨r',reader,shared.drained settled (quiet _ pc) above below diff⟩

structure Followed (c : Config θ V) : Prop where
  holds : outline.Holds () c
  accounted : Accounted c
  settled : c.shared.board.Settled

theorem step_followed {c c' : Config θ V} {label : θ × Label V} (followed : Followed c)
    (prompt : Prompt c label) (stepped : step c label = some c') :
    Followed c' ∧ ∀ j, (c.shared.board.cells j).number ≤ (c'.shared.board.cells j).number := by
  have holds := step_holds followed.holds prompt.1.inLap stepped
  have accounted := step_accounted followed.holds followed.accounted prompt.1 stepped
  obtain ⟨t,choice⟩ := label
  obtain ⟨l,s,ran,rfl⟩ := Threads.step_eq_some.mp stepped
  have step := prog_step ran
  have own := followed.holds.2 t
  exact ⟨⟨holds,accounted,step.settled own prompt.2 followed.settled⟩,step.number_le own prompt.2⟩

theorem init_followed {padding size capacity : Nat} (created : slotCount padding size = some capacity)
    (tx rx : θ) : Followed (init (V := V) capacity tx rx) :=
  ⟨init_holds created tx rx,init_accounted,Board.settled_new⟩

theorem path_followed {c c' : Config θ V} {labels : List (θ × Label V)} (followed : Followed c)
    (path : Transition.Path step Prompt c labels c') :
    Followed c' ∧ ∀ j, (c.shared.board.cells j).number ≤ (c'.shared.board.cells j).number := by
  refine path.invariant (fun d => Followed d ∧
    ∀ j, (c.shared.board.cells j).number ≤ (d.shared.board.cells j).number) ?_
    ⟨followed,fun _ => Nat.le_refl _⟩
  intro d label next kept prompt stepped
  obtain ⟨followed,grows⟩ := step_followed kept.1 prompt stepped
  exact ⟨followed,fun j => Nat.le_trans (kept.2 j) (grows j)⟩

/-- No send is in progress, and the task says that nothing is left only if it has passed every
index. -/
structure Finished (t : θ) (c : Config θ V) : Prop where
  followed : Followed c
  quiet : Quiet c
  drained : (c.locals t).pc.isDrained = true →
    ∃ r, c.shared.board.readers t = some r ∧ c.shared.board.claims ≤ r.position

theorem step_finished {t : θ} {c c' : Config θ V} {label : θ × Label V} (finished : Finished t c)
    (prompt : Prompt c label) (not_send : label.2.isSend = false)
    (stepped : step c label = some c') : Finished t c' := by
  have followed := (step_followed finished.followed prompt stepped).1
  obtain ⟨u,choice⟩ := label
  obtain ⟨l,s,ran,rfl⟩ := Threads.step_eq_some.mp stepped
  have step := prog_step ran
  have shared := finished.followed.holds.1
  have own := finished.followed.holds.2 u
  obtain ⟨quiet,claims⟩ := step.quiet not_send (finished.quiet u)
  refine ⟨followed,fun w => ?_,fun drained => ?_⟩
  · by_cases same : w = u
    · subst same; simpa using quiet
    · simpa [same] using finished.quiet w
  · by_cases same : t = u
    · subst same
      simp only [Function.update_self] at drained
      exact step.passed shared own finished.followed.settled prompt.1
        (fun _ _ w => (finished.followed.holds.2 w).quiet (finished.quiet w))
        (fun found _ => finished.drained found) drained
    · simp only [Function.update_of_ne same] at drained
      simp only [claims,(step.frame shared own same).reader]
      exact finished.drained drained

/-- A `try_recv` that is called while no send is in progress. -/
theorem begun {t : θ} {c c' : Config θ V} (followed : Followed c) (quiet : Quiet c)
    (prompt : Prompt c (t,.call .tryRecv)) (called : step c (t,.call .tryRecv) = some c') :
    Finished t c' := by
  have followed' := (step_followed followed prompt called).1
  obtain ⟨l,s,ran,rfl⟩ := Threads.step_eq_some.mp called
  cases prog_step ran with
  | tryRecv free receiver =>
    refine ⟨followed',fun u => ?_,fun drained => ?_⟩
    · by_cases same : u = t
      · simp [same,Pc.isSending]
      · simpa [same] using quiet u
    · simp [Pc.isDrained] at drained
  | subscribe _ _ _ which => simp at which

/-- From a state on: the number of a slot never goes backwards, and a receiver that is told `Empty`
or `Closed` by a `try_recv` that it calls after all sends have finished was served all values that
were sent since it started. -/
structure Delivers (c : Config θ V) (labels : List (θ × Label V)) (c' : Config θ V) : Prop where
  numbers : ∀ j < c.shared.capacity,
    (c.shared.slots j).sequence = BitVec.ofNat 64 (c.shared.board.cells j).number ∧
    (c.shared.board.cells j).number ≤ (c'.shared.board.cells j).number
  served : ∀ t rest, labels = (t,.call .tryRecv) :: rest → Quiet c →
    (∀ label ∈ rest, label.2.isSend = false) →
    (c'.locals t).pc = .returned .empty ∨ (c'.locals t).pc = .returned .closed →
    ∃ r, c'.shared.board.readers t = some r ∧
      ∀ i v, r.start ≤ i → c'.shared.board.sent i = some v → Served r i v

/-- In every run in which no send updates a slot that shows a later index, no value is lost. -/
theorem values_served {padding size capacity : Nat} {tx rx : θ} {labels more : List (θ × Label V)}
    {c c' : Config θ V} (created : slotCount padding size = some capacity)
    (path : Transition.Path step Prompt (init capacity tx rx) labels c)
    (after : Transition.Path step Prompt c more c') : Delivers c more c' := by
  have followed := (path_followed (init_followed created tx rx) path).1
  obtain ⟨followed',grows⟩ := path_followed followed after
  refine ⟨fun j lt => ⟨followed.holds.1.sequence j lt,grows j⟩,?_⟩
  rintro t rest rfl quiet no_sends result
  cases after with
  | cons prompt called rest_path =>
    rename_i c₁
    have started : Finished t c₁ := begun followed quiet prompt called
    have finished := (rest_path.restrict no_sends).invariant (Finished t)
      (fun _ _ _ finished ok stepped => step_finished finished ok.1 ok.2 stepped) started
    have drained : (c'.locals t).pc.isDrained = true := by
      rcases result with result | result <;> rw [result] <;> rfl
    obtain ⟨r,reader,passed⟩ := finished.drained drained
    refine ⟨r,reader,fun i v le sent => ?_⟩
    have taken : (c'.locals t).pc.taken = 0 := by
      rcases result with result | result <;> rw [result] <;> rfl
    have lt := followed'.holds.1.valid.sent i v sent
    exact (followed'.accounted t r reader).served sent le (by omega)

theorem slotCount_two : slotCount 0 2 = some 2 := by
  have : Nat.clog 2 2 = 1 := by decide
  simp [slotCount,this]

/-- Two slots, two senders and a receiver: the values 10, 11 and 12 are sent, and the receiver is
told that it has missed one. -/
def lagTrace : List (Fin 3 × Label Nat) :=
  [(2,.call .cloneSender),(0,.call (.send 10)),(0,.next),(0,.next),(2,.call (.send 11)),(2,.next),
    (2,.next),(2,.call (.send 12)),(2,.next),(2,.next),(1,.call .tryRecv),(1,.next),(1,.next),
    (1,.next),(1,.call .tryRecv),(1,.next),(1,.next),(1,.next),(1,.next),(1,.call .tryRecv),
    (1,.next),(1,.next),(1,.next),(1,.next)]

theorem values_served_lagged : ∃ c c', Transition.run step lagTrace (init 2 0 1) = some c ∧
    Transition.run step [(1,.call .tryRecv),(1,.next),(1,.next),(1,.next)] c = some c' ∧
    c'.shared.board.readers 1 = some ⟨0,3,[.lagged 0 1,.delivered 1 11,.delivered 2 12]⟩ ∧
    Delivers c [(1,.call .tryRecv),(1,.next),(1,.next),(1,.next)] c' := by
  obtain ⟨c,c',checked,checked',executed,executed',reader⟩ : ∃ c c', Transition.run
      (fun c l => if prompt c l then step c l else none) lagTrace (init 2 0 1) = some c ∧
      Transition.run (fun c l => if prompt c l then step c l else none)
        [(1,.call .tryRecv),(1,.next),(1,.next),(1,.next)] c = some c' ∧
      Transition.run step lagTrace (init 2 0 1) = some c ∧
      Transition.run step [(1,.call .tryRecv),(1,.next),(1,.next),(1,.next)] c = some c' ∧
      c'.shared.board.readers 1 = some ⟨0,3,[.lagged 0 1,.delivered 1 11,.delivered 2 12]⟩ :=
    ⟨_,_,rfl,rfl,rfl,rfl,rfl⟩
  exact ⟨c,c',executed,executed',reader,values_served slotCount_two
    (Transition.run_path_checked prompt prompt_sound checked)
    (Transition.run_path_checked prompt prompt_sound checked')⟩

/-- Task 0 takes index 0 and waits for its slot while task 2 sends 11 and 12. The receiver is told
that it has missed one, and gets 11. Then task 0 updates its slot, which showed index 2. -/
def overtakeTrace : List (Fin 3 × Label Nat) :=
  [(2,.call .cloneSender),(0,.call (.send 10)),(0,.next),(2,.call (.send 11)),(2,.next),(2,.next),
    (2,.call (.send 12)),(2,.next),(2,.next),(1,.call .tryRecv),(1,.next),(1,.next),(1,.next),
    (1,.call .tryRecv),(1,.next),(1,.next),(1,.next),(1,.next),(0,.next)]

/-- The value 12 is neither delivered nor counted. -/
theorem values_not_always_served : ¬ ∀ (labels more : List (Fin 3 × Label Nat))
    (c c' : Config (Fin 3) Nat), Transition.Path step Transition.anyStep (init 2 0 1) labels c →
      Transition.Path step Transition.anyStep c more c' → Delivers c more c' := by
  intro always
  obtain ⟨c,c',executed,executed',quiet,result,reader,sent⟩ : ∃ c c',
      Transition.run step overtakeTrace (init 2 0 1) = some c ∧
      Transition.run step [(1,.call .tryRecv),(1,.next),(1,.next),(1,.next)] c = some c' ∧
      Quiet c ∧ (c'.locals 1).pc = .returned .empty ∧
      c'.shared.board.readers 1 = some ⟨0,2,[.lagged 0 1,.delivered 1 11]⟩ ∧
      c'.shared.board.sent 2 = some 12 :=
    ⟨_,_,rfl,rfl,fun t => by match t with | 0 | 1 | 2 => rfl,rfl,rfl,rfl⟩
  have delivers := always _ _ c c' (Transition.run_path (fun _ _ _ => trivial) executed)
    (Transition.run_path (fun _ _ _ => trivial) executed')
  obtain ⟨r,reader',served⟩ := delivers.served 1 _ rfl quiet (by decide) (.inl result)
  rw [reader,Option.some.injEq] at reader'
  subst reader'
  rcases served 2 12 (Nat.zero_le _) sent with once | ⟨_,event,mem,skips⟩
  · simp at once
  · simp only [List.mem_cons,List.not_mem_nil,or_false] at mem
    rcases mem with rfl | rfl
    · simp [Feed.Skips] at skips
    · exact skips

end XxCore.Sync.Broadcast
