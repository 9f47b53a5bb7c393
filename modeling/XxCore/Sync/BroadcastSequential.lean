import XxCore.Sync.BroadcastDelivery
import XxCore.Sync.BroadcastMoves

/-! Sequential histories of the broadcast channel: a call starts when no other call is in progress.
Then neither of the races is possible, and the channel does what it promises. -/
namespace XxCore.Sync.Broadcast

open Feed (Event)

variable {θ V : Type}

/-- A call starts only when all other tasks are between two calls. -/
def OneAtATime (c : Config θ V) (label : θ × Label V) : Prop :=
  ∀ op, label.2 = .call op → ∀ u, u ≠ label.1 → (c.locals u).pc.isFree = true

/-- Whoever calls `try_recv` is at most `2 ^ 63` indices behind the tail. -/
def Near (c : Config θ V) (label : θ × Label V) : Prop :=
  label.2 = .call .tryRecv → ∀ r, c.shared.board.readers label.1 = some r →
    c.shared.board.claims ≤ r.position + 2 ^ 63

def Sequential (c : Config θ V) (label : θ × Label V) : Prop := OneAtATime c label ∧ Near c label

/-- What holds while at most one call is in progress. -/
structure Serial (c : Config θ V) : Prop where
  followed : Followed c
  intact : Intact c
  alone : ∀ t u, u ≠ t → (c.locals t).pc.isFree = false → (c.locals u).pc.isFree = true
  last : ∀ t f, c.shared.board.flights t = some f → f.index + 1 = c.shared.board.claims
  near : ∀ t j r, (c.locals t).pc = .loadSequence j → c.shared.board.readers t = some r →
    c.shared.board.claims ≤ r.position + 2 ^ 63
  drained : ∀ t, (c.locals t).pc.isDrained = true → (c.locals t).pc.isFree = false →
    ∃ r, c.shared.board.readers t = some r ∧ c.shared.board.claims ≤ r.position
  counted : ∀ t value index receivers, (c.locals t).pc = .update value index receivers →
    receivers = c.shared.rxCount

/-- No number of a slot is beyond the tail, nor a lap below a position. -/
theorem Shared.number_le {s : Broadcast θ V} (shared : Shared s) {p : Nat} (le : p ≤ s.board.claims) :
    (s.board.cells (p % s.capacity)).number ≤ s.board.claims := by
  have := Nat.mod_le p s.capacity
  rcases shared.valid.cell (p % s.capacity) (by rw [shared.size]; exact shared.mod_lt p) with
    ⟨number,_⟩ | ⟨k,_,number,lt⟩ <;> omega

theorem Shared.le_number {s : Broadcast θ V} (shared : Shared s) (settled : s.board.Settled)
    (quiet : ∀ t, s.board.flights t = none) {p : Nat} (le : p ≤ s.board.claims) :
    p + 1 ≤ (s.board.cells (p % s.capacity)).number + s.capacity := by
  have positive := shared.positive
  rcases Nat.lt_or_ge p s.capacity with first | later
  · omega
  · rcases settled (p - s.capacity) (by omega) with ⟨t,f,flight,_⟩ | number
    · simp [quiet t] at flight
    · rw [Board.cellOf,shared.size,← Nat.mod_eq_sub_mod later] at number
      omega

theorem Shared.capacity_le {s : Broadcast θ V} (shared : Shared s) : s.capacity ≤ 2 ^ 63 := by
  obtain ⟨k,le,capacity⟩ := shared.capacity
  rw [capacity]
  exact Nat.pow_le_pow_right (by omega) le

/-- At most one call is in progress. -/
def Alone (c : Config θ V) : Prop :=
  ∀ t u, u ≠ t → (c.locals t).pc.isFree = false → (c.locals u).pc.isFree = true

theorem Alone.quiet {c : Config θ V} (alone : Alone c) (holds : outline.Holds () c) {t : θ}
    (busy : (c.locals t).pc.isFree = false) (idle : (c.locals t).pc.isSending = false) :
    ∀ u, c.shared.board.flights u = none := by
  intro u
  by_cases same : u = t
  · subst same
    exact (holds.2 u).quiet idle
  · exact ((holds.2 u).free (alone t u same busy)).1

theorem Alone.noRace {c : Config θ V} (alone : Alone c) (label : θ × Label V) : NoRace c label := by
  intro j pc u ne at_
  have free := alone label.1 u ne (by rw [pc]; rfl)
  cases other : (c.locals u).pc <;> rw [other] at at_ free <;> contradiction

/-- The send with the last index comes to its slot after all others. -/
theorem notOvertaken_of_last {c : Config θ V} (holds : outline.Holds () c)
    (last : ∀ t f, c.shared.board.flights t = some f → f.index + 1 = c.shared.board.claims)
    (label : θ × Label V) : NotOvertaken c label := by
  intro value index receivers f pc flight
  have shared := holds.1
  have last := last label.1 f flight
  -- any other index that its slot shows is smaller
  obtain ⟨_,fresh,_⟩ := shared.valid.flight label.1 f flight
  rw [Board.Shows,Board.cellOf] at fresh
  rw [Board.cellOf]
  have := Nat.mod_le f.index c.shared.board.size
  rcases shared.valid.cell _ (Nat.mod_lt f.index shared.valid.pos) with ⟨number,_⟩ | ⟨k,_,number,lt⟩
  all_goals omega

theorem Serial.quiet {c : Config θ V} (serial : Serial c) {t : θ} (busy : (c.locals t).pc.isFree = false)
    (idle : (c.locals t).pc.isSending = false) : ∀ u, c.shared.board.flights u = none :=
  Alone.quiet serial.alone serial.followed.holds busy idle

/-- One call at a time meets the conditions of the concurrent case. -/
theorem Serial.prompt {c : Config θ V} (serial : Serial c) (label : θ × Label V) :
    Prompt c label ∧ NoRace c label := by
  have shared := serial.followed.holds.1
  refine ⟨⟨fun j r pc reader => ?_,notOvertaken_of_last serial.followed.holds serial.last label⟩,
    Alone.noRace serial.alone label⟩
  obtain ⟨r',reader',rfl⟩ := (serial.followed.holds.2 label.1).loading pc
  obtain rfl := Option.some.inj (reader'.symm.trans reader)
  have behind := (serial.followed.accounted label.1 r' reader).behind
  have near := serial.near label.1 _ r' pc reader
  have above := shared.number_le behind
  have below := shared.le_number serial.followed.settled
    (serial.quiet (by rw [pc]; rfl) (by rw [pc]; rfl)) behind
  have := shared.capacity_le
  omega

variable [DecidableEq θ]

/-- Whoever is between two calls can only start one. -/
theorem Step.of_free {t : θ} {l l' : Local V} {s s' : Broadcast θ V} {label : Label V}
    (step : Step t l s label l' s') (free : l.pc.isFree = true) : ∃ op, label = .call op := by
  cases step with
  | send | cloneSender | dropSender | subscribe | synchronize | tryRecv | dropReceiver => exact ⟨_,rfl⟩
  | _ => simp_all [Pc.isFree]

/-- While a task takes its step, all others are between two calls. -/
theorem Alone.others {c c' : Config θ V} (alone : Alone c) {t : θ} {choice : Label V}
    (sequential : OneAtATime c (t,choice)) (stepped : step c (t,choice) = some c') :
    ∀ u, u ≠ t → (c.locals u).pc.isFree = true := by
  intro u ne
  cases busy : (c.locals t).pc.isFree with
  | false => exact alone t u ne busy
  | true =>
    obtain ⟨l,s,ran,rfl⟩ := Threads.step_eq_some.mp stepped
    obtain ⟨op,rfl⟩ := (prog_step ran).of_free busy
    exact sequential op rfl u ne

theorem Alone.step {c c' : Config θ V} (alone : Alone c) {label : θ × Label V}
    (sequential : OneAtATime c label) (stepped : step c label = some c') : Alone c' := by
  obtain ⟨t,choice⟩ := label
  have others := alone.others sequential stepped
  obtain ⟨l,s,_,rfl⟩ := Threads.step_eq_some.mp stepped
  intro u w ne busy
  by_cases same : u = t
  · subst same
    simpa [ne] using others w ne
  · simp [same,others u same] at busy

/-- The index of a send in progress is the last one. -/
theorem Step.last {t : θ} {l l' : Local V} {s s' : Broadcast θ V} {label : Label V}
    (step : Step t l s label l' s') (own : Own t s l)
    (last : ∀ f, s.board.flights t = some f → f.index + 1 = s.board.claims) :
    ∀ f, s'.board.flights t = some f → f.index + 1 = s'.board.claims := by
  intro f after
  cases step with
  | send =>
    simp only [Board.claim,Function.update_self,Option.some.injEq] at after
    rw [← after]
    rfl
  | loadReceivers =>
    simp only [Board.count,Function.update_self,Option.map_eq_some_iff] at after
    obtain ⟨g,flight,rfl⟩ := after
    exact last g flight
  | update pc unlocked =>
    obtain ⟨k,counted,flight,_⟩ := own.updating pc
    simp [put,Board.publish_eq _ flight] at after
  | _ => exact last f after

theorem step_last {c c' : Config θ V} {label : θ × Label V} (holds : outline.Holds () c)
    (alone : Alone c) (last : ∀ t f, c.shared.board.flights t = some f → f.index + 1 = c.shared.board.claims)
    (sequential : OneAtATime c label) (stepped : step c label = some c') :
    ∀ t f, c'.shared.board.flights t = some f → f.index + 1 = c'.shared.board.claims := by
  obtain ⟨t,choice⟩ := label
  have others := alone.others sequential stepped
  obtain ⟨l,s,ran,rfl⟩ := Threads.step_eq_some.mp stepped
  have step := prog_step ran
  intro u f flight
  by_cases same : u = t
  · subst same
    exact step.last (holds.2 u) (last u) f flight
  · rw [(step.frame holds.1 (holds.2 t) same).flight] at flight
    simp [((holds.2 u).free (others u same)).1] at flight

theorem Step.loads {t : θ} {l l' : Local V} {s s' : Broadcast θ V} {label : Label V}
    (step : Step t l s label l' s') {j : Nat} (pc : l'.pc = .loadSequence j) :
    label = .call .tryRecv ∧ s'.board = s.board := by
  cases step with
  | tryRecv => exact ⟨rfl,rfl⟩
  | accessNone at_ => simp [at_] at pc
  | dropSender => by_cases last : s.txCount = 1 <;> simp [last] at pc
  | unlock => rename_i after _; cases after <;> simp [afterUnlock] at pc
  | _ => simp [Broadcast.fetchSub,skip] at pc

theorem Step.counts {t : θ} {l l' : Local V} {s s' : Broadcast θ V} {label : Label V}
    (step : Step t l s label l' s') {value : V} {index : Word} {receivers : Nat}
    (pc : l'.pc = .update value index receivers) : receivers = s'.rxCount := by
  cases step with
  | loadReceivers =>
    simp only [goto_pc,Pc.update.injEq] at pc
    exact pc.2.2.symm
  | accessNone at_ => simp [at_] at pc
  | dropSender => by_cases last : s.txCount = 1 <;> simp [last] at pc
  | unlock => rename_i after _; cases after <;> simp [afterUnlock] at pc
  | _ => simp [Broadcast.fetchSub,skip] at pc

theorem step_serial {c c' : Config θ V} {label : θ × Label V} (serial : Serial c)
    (sequential : Sequential c label) (stepped : step c label = some c') : Serial c' := by
  obtain ⟨prompt,noRace⟩ := serial.prompt label
  have followed := (step_followed serial.followed prompt stepped).1
  have intact := step_intact serial.followed.holds serial.intact prompt.1.inLap noRace stepped
  obtain ⟨t,choice⟩ := label
  have others := Alone.others serial.alone sequential.1 stepped
  have alone := Alone.step serial.alone sequential.1 stepped
  have last := step_last serial.followed.holds serial.alone serial.last sequential.1 stepped
  obtain ⟨l,s,ran,rfl⟩ := Threads.step_eq_some.mp stepped
  have step := prog_step ran
  have shared := serial.followed.holds.1
  have own := serial.followed.holds.2 t
  -- a task that is not free now is the one that took the step
  have mine {u : θ} (busy : (Function.update c.locals t l u).pc.isFree = false) : u = t := by
    by_contra ne
    rw [Function.update_of_ne ne,others u ne] at busy
    contradiction
  refine ⟨followed,intact,alone,last,fun u j r pc reader => ?_,fun u drained busy => ?_,
    fun u value index receivers pc => ?_⟩
  · obtain rfl := mine (by simp only at pc; rw [pc]; rfl)
    simp only [Function.update_self] at pc
    obtain ⟨rfl,board⟩ := step.loads pc
    simp only [board] at reader ⊢
    exact sequential.2 rfl r reader
  · obtain rfl := mine busy
    simp only [Function.update_self] at drained
    refine step.passed shared own serial.followed.settled prompt.1 (fun j pc => ?_)
      (serial.drained u) drained
    exact serial.quiet (by rw [pc]; rfl) (by rw [pc]; rfl)
  · obtain rfl := mine (by simp only at pc; rw [pc]; rfl)
    simp only [Function.update_self] at pc
    exact step.counts pc

theorem init_serial {padding size capacity : Nat} (created : slotCount padding size = some capacity)
    (tx rx : θ) : Serial (init (V := V) capacity tx rx) :=
  ⟨init_followed created tx rx,init_intact,nofun,nofun,nofun,nofun,nofun⟩

/-- What a sequential history promises: the values of every receiver, in the order in which it got
them, with the counts it was told; the results `Empty`, `Closed` and `Err(value)`; and that the
values it reads are there. -/
structure Sound (c : Config θ V) : Prop where
  increasing : ∀ t r, c.shared.board.readers t = some r →
    (r.events.filterMap Event.index?).Pairwise (· < ·) ∧
    ∀ i ∈ r.events.filterMap Event.index?, r.start ≤ i
  values : ∀ t r, c.shared.board.readers t = some r → ∀ i v, .delivered i v ∈ r.events →
    c.shared.board.sent i = some v
  between : ∀ t r, c.shared.board.readers t = some r → ∀ before i v events j w after,
    r.events = before ++ .delivered i v :: events ++ .delivered j w :: after →
    events.filterMap Event.index? = [] →
    j = i + 1 + (events.map Event.missed).sum + (events.map Event.jumped).sum
  results : ∀ t r, c.shared.board.readers t = some r → (c.locals t).pc.Reports r.events
  caughtUp : ∀ t c', step c (t,.next) = some c' →
    (c'.locals t).pc = .returned .empty ∨ (c'.locals t).pc = .returned .closed →
    ∃ r, c'.shared.board.readers t = some r ∧ r.position = c'.shared.board.claims
  sends : ∀ t value index receivers, (c.locals t).pc = .update value index receivers →
    ∃ c', step c (t,.next) = some c' ∧
      ((∀ u, (c.locals u).receiver = none) ∧ (c'.locals t).pc = .returned (.sendError value) ∨
        (∃ u, (c.locals u).receiver ≠ none) ∧ (c'.locals t).pc = .returned .sent)
  intact : Intact c

theorem Serial.caughtUp {c c' : Config θ V} (serial : Serial c) {t : θ}
    (stepped : step c (t,.next) = some c')
    (result : (c'.locals t).pc = .returned .empty ∨ (c'.locals t).pc = .returned .closed) :
    ∃ r, c'.shared.board.readers t = some r ∧ r.position = c'.shared.board.claims := by
  have prompt := (serial.prompt (t,.next)).1
  have followed := (step_followed serial.followed prompt stepped).1
  have shared := serial.followed.holds.1
  obtain ⟨r,reader,passed⟩ : ∃ r, c'.shared.board.readers t = some r ∧
      c'.shared.board.claims ≤ r.position := by
    obtain ⟨l,s,ran,rfl⟩ := Threads.step_eq_some.mp stepped
    simp only [Function.update_self] at result
    refine (prog_step ran).passed shared (serial.followed.holds.2 t) serial.followed.settled prompt.1
      (fun j pc => serial.quiet (by rw [pc]; rfl) (by rw [pc]; rfl)) (serial.drained t) ?_
    rcases result with result | result <;> rw [result] <;> rfl
  exact ⟨r,reader,Nat.le_antisymm (followed.accounted t r reader).behind passed⟩

/-- The slot of a send is free, and the count of receivers is still right. -/
theorem Serial.sends {c : Config θ V} (serial : Serial c) {t : θ} {value : V} {index : Word}
    {receivers : Nat} (pc : (c.locals t).pc = .update value index receivers) :
    ∃ c', step c (t,.next) = some c' ∧
      ((∀ u, (c.locals u).receiver = none) ∧ (c'.locals t).pc = .returned (.sendError value) ∨
        (∃ u, (c.locals u).receiver ≠ none) ∧ (c'.locals t).pc = .returned .sent) := by
  have holds := serial.followed.holds
  have others (u : θ) (ne : u ≠ t) : (c.locals u).pc.isFree = true :=
    serial.alone t u ne (by rw [pc]; rfl)
  have unlocked : (c.shared.slots (c.shared.masked index)).guards = [] := by
    apply List.eq_nil_iff_forall_not_mem.mpr
    intro u mem
    by_cases same : u = t
    · subst same
      simp [(holds.2 u).guards,pc,Pc.slot] at mem
    · exact ((holds.2 u).free (others u same)).2.1 _ mem
  have registered (u : θ) : u ∈ c.shared.board.registered ↔ (c.locals u).receiver ≠ none := by
    rw [(holds.2 u).registered,Option.isSome_iff_ne_none,or_iff_left]
    intro tail
    by_cases same : u = t
    · subst same
      rw [pc] at tail
      contradiction
    · have := others u same
      rw [tail] at this
      contradiction
  have count := serial.counted t value index receivers pc
  rw [holds.1.rxCount] at count
  refine ⟨_,Threads.step_eq_some.mpr ⟨_,_,by simp [prog,pc,unlocked]; exact ⟨rfl,rfl⟩,rfl⟩,?_⟩
  simp only [Function.update_self,goto_pc]
  by_cases none : receivers = 0
  · rw [if_pos none]
    rw [none] at count
    have nobody := List.length_eq_zero_iff.mp count.symm
    refine .inl ⟨fun u => ?_,rfl⟩
    by_contra some_
    simpa [nobody] using (registered u).mpr some_
  · rw [if_neg none]
    obtain ⟨u,mem⟩ := List.exists_mem_of_length_pos (by omega : 0 < c.shared.board.registered.length)
    exact .inr ⟨⟨u,(registered u).mp mem⟩,rfl⟩

theorem Serial.sound {c : Config θ V} (serial : Serial c) : Sound c where
  increasing := fun t r reader => by
    obtain ⟨_,_,tiles⟩ := (serial.followed.accounted t r reader).tiles
    exact ⟨tiles.increasing,tiles.indices_ge⟩
  values := fun t r reader => (serial.followed.accounted t r reader).values
  between := fun t r reader before i v events j w after eq none => by
    obtain ⟨_,_,tiles⟩ := (serial.followed.accounted t r reader).tiles
    rw [eq] at tiles
    exact tiles.between none
  results := fun t r reader => (serial.followed.accounted t r reader).reports
  caughtUp := fun _ _ stepped result => serial.caughtUp stepped result
  sends := fun _ _ _ _ pc => serial.sends pc
  intact := serial.intact

/-- Every sequential history is sound in which each `try_recv` is called by a receiver at most
`2 ^ 63` indices behind the tail. -/
theorem sequential_sound {padding size capacity : Nat} {tx rx : θ} {labels : List (θ × Label V)}
    {c : Config θ V} (created : slotCount padding size = some capacity)
    (path : Transition.Path step Sequential (init capacity tx rx) labels c) : Sound c :=
  (path.invariant Serial (fun _ _ _ serial ok stepped => step_serial serial ok stepped)
    (init_serial created tx rx)).sound

def sequential (c : Config (Fin 3) V) (label : Fin 3 × Label V) : Bool :=
  match label.2 with
  | .call .tryRecv =>
    decide (∀ u, u ≠ label.1 → (c.locals u).pc.isFree = true) &&
      match c.shared.board.readers label.1 with
      | some r => decide (c.shared.board.claims ≤ r.position + 2 ^ 63)
      | none => true
  | .call _ => decide (∀ u, u ≠ label.1 → (c.locals u).pc.isFree = true)
  | .next => true

theorem sequential_check (c : Config (Fin 3) V) (label : Fin 3 × Label V)
    (checked : sequential c label = true) : Sequential c label := by
  obtain ⟨t,choice⟩ := label
  constructor
  · rintro op rfl
    cases op <;> simp_all [sequential]
  · rintro rfl r reader
    simp_all [sequential]

/-- The receiver of `lagTrace` is told that it has missed one value and gets the other two. -/
theorem sequential_sound_lagged : ∃ c, Transition.run step lagTrace (init 2 0 1) = some c ∧
    (c.locals 1).pc = .returned (.received 12) ∧ Sound c := by
  obtain ⟨c,checked,executed,received⟩ : ∃ c, Transition.run
      (fun c l => if sequential c l then step c l else none) lagTrace (init 2 0 1) = some c ∧
      Transition.run step lagTrace (init 2 0 1) = some c ∧
      (c.locals 1).pc = .returned (.received 12) := ⟨_,rfl,rfl,rfl⟩
  exact ⟨c,executed,received,sequential_sound slotCount_two
    (Transition.run_path_checked sequential sequential_check checked)⟩

/-- A channel of one slot through which `k` values were sent while its receiver did nothing. -/
structure Sleeps (k : Nat) (c : Config Bool Unit) : Prop where
  capacity : c.shared.capacity = 1
  tail : c.shared.tail = BitVec.ofNat 64 k
  sequence : (c.shared.slots 0).sequence = BitVec.ofNat 64 k
  guards : (c.shared.slots 0).guards = []
  claims : c.shared.board.claims = k
  reader : c.shared.board.readers false = some ⟨0,0,[]⟩
  sender : (c.locals true).sender = true
  receiver : (c.locals false).receiver = some 0
  free : ∀ t, (c.locals t).pc.isFree = true

theorem Sleeps.masked {k : Nat} {c : Config Bool Unit} (sleeps : Sleeps k c) (pos : Word) :
    c.shared.masked pos = 0 := by
  simp [Broadcast.masked,mask,sleeps.capacity]

theorem step_of_prog {c : Config θ V} {t : θ} {label : Label V} {l : Local V} {s : Broadcast θ V}
    (ran : prog t label (c.locals t) c.shared = some (l,s)) :
    step c (t,label) = some ⟨s,Function.update c.locals t l⟩ :=
  Threads.step_eq_some.mpr ⟨l,s,ran,rfl⟩

theorem prog_call {t : θ} {l : Local V} {s : Broadcast θ V} (free : l.pc.isFree = true)
    (op : Call V) : prog t (.call op) l s = start t l s op := by
  unfold prog
  cases pc : l.pc <;> simp_all [Pc.isFree]

/-- One more send. -/
theorem Sleeps.next {k : Nat} {c : Config Bool Unit} (sleeps : Sleeps k c) : ∃ labels c',
    Transition.Path step OneAtATime c labels c' ∧ Sleeps (k + 1) c' := by
  let s := c.shared
  let s₁ : Broadcast Bool Unit := { s with tail := s.tail + 1, board := s.board.claim true }
  let s₂ : Broadcast Bool Unit := { s₁ with board := s₁.board.count true }
  let s₃ := put true s₂ () s.tail s.rxCount
  let l₃ := (c.locals true).goto (.returned (if s.rxCount = 0 then .sendError () else .sent))
  have masked (pos : Word) : s₂.masked pos = 0 := sleeps.masked pos
  have called : step c (true,.call (.send ())) = some
      ⟨s₁,Function.update c.locals true ((c.locals true).goto (.loadReceivers () s.tail))⟩ :=
    step_of_prog (by rw [prog_call (sleeps.free true)]; simp [start,sleeps.sender,s₁,s])
  have counted : step ⟨s₁,Function.update c.locals true
      ((c.locals true).goto (.loadReceivers () s.tail))⟩ (true,.next) = some
      ⟨s₂,Function.update c.locals true ((c.locals true).goto (.update () s.tail s.rxCount))⟩ :=
    Threads.step_update c.locals rfl
  have updated : step ⟨s₂,Function.update c.locals true
      ((c.locals true).goto (.update () s.tail s.rxCount))⟩ (true,.next) = some
      ⟨s₃,Function.update c.locals true l₃⟩ := by
    apply Threads.step_update c.locals
    have unlocked : (s₂.slots 0).guards = [] := sleeps.guards
    simp [prog,masked,unlocked,s₃,l₃,Local.goto]
  have alone (d : Config Bool Unit) : OneAtATime d (true,.next) := by
    intro _ same
    cases same
  refine ⟨_,_,.cons (fun _ _ u ne => sleeps.free u) called (.cons (alone _) counted
    (.cons (alone _) updated .nil)),?_⟩
  have tail : s.tail + 1 = BitVec.ofNat 64 (k + 1) := by
    rw [show s.tail = BitVec.ofNat 64 k from sleeps.tail]
    exact (BitVec.ofNat_add k 1).symm
  refine ⟨sleeps.capacity,tail,?_,?_,?_,?_,?_,?_,fun t => ?_⟩
  · simpa [s₃,put,masked] using tail
  · simpa [s₃,put,masked] using sleeps.guards
  · simp [s₃,put,s₂,s₁,s,Board.count,Board.claim,sleeps.claims]
  · simpa [s₃,put,s₂,s₁,s,Board.count,Board.claim] using sleeps.reader
  · simpa [l₃,Local.goto] using sleeps.sender
  · simpa using sleeps.receiver
  · cases t with
    | false => simpa using sleeps.free false
    | true => simp [l₃,Pc.isFree]

theorem sleeps_reached (k : Nat) : ∃ labels c,
    Transition.Path step OneAtATime (init 1 true false) labels c ∧ Sleeps k c := by
  induction k with
  | zero => exact ⟨_,_,.nil,rfl,rfl,rfl,rfl,rfl,rfl,rfl,rfl,fun _ => rfl⟩
  | succ k before =>
    obtain ⟨_,c,path,sleeps⟩ := before
    obtain ⟨_,c',more,sleeps'⟩ := sleeps.next
    exact ⟨_,c',path.append more,sleeps'⟩

/-- After `2 ^ 63 + 1` sends the difference is negative, and the receiver is told `Empty`. -/
theorem sequential_not_always_sound : ¬ ∀ (labels : List (Bool × Label Unit))
    (c : Config Bool Unit), Transition.Path step OneAtATime (init 1 true false) labels c →
      Sound c := by
  intro always
  obtain ⟨labels,c,path,sleeps⟩ := sleeps_reached (2 ^ 63 + 1)
  let s := c.shared
  let l := c.locals false
  let s₁ := s.setSlot 0 { s.slots 0 with guards := [false] }
  let s₂ := s₁.setSlot 0 { s₁.slots 0 with guards := [] }
  have called : step c (false,.call .tryRecv) =
      some ⟨s₁,Function.update c.locals false (l.goto (.loadSequence 0))⟩ :=
    step_of_prog (by
      rw [prog_call (sleeps.free false)]
      simp [start,sleeps.receiver,sleeps.masked,sleeps.guards,s₁,s,l])
  have behind : step ⟨s₁,Function.update c.locals false (l.goto (.loadSequence 0))⟩ (false,.next) =
      some ⟨s₁,Function.update c.locals false (l.goto (.unlock 0 .behind))⟩ := by
    apply Threads.step_update c.locals
    have receiver : l.receiver = some 0 := sleeps.receiver
    have sequence : (s₁.slots 0).sequence = BitVec.ofNat 64 (2 ^ 63 + 1) := by
      simpa [s₁] using sleeps.sequence
    have diff : ((s₁.slots 0).sequence - (0 + 1)).toInt = -2 ^ 63 := by rw [sequence]; decide
    simp only [prog,goto_pc,goto_receiver,receiver,Option.map_some,compare,diff]
    rfl
  have unlocked : step ⟨s₁,Function.update c.locals false (l.goto (.unlock 0 .behind))⟩
      (false,.next) = some ⟨s₂,Function.update c.locals false (l.goto .isClosed)⟩ := by
    apply Threads.step_update c.locals
    simp [prog,s₂,s₁,afterUnlock,Local.goto]
  have returned : step ⟨s₂,Function.update c.locals false (l.goto .isClosed)⟩ (false,.next) =
      some ⟨s₂,Function.update c.locals false
        (l.goto (.returned (if s₂.closed then .closed else .empty)))⟩ :=
    Threads.step_update c.locals rfl
  have alone (d : Config Bool Unit) : OneAtATime d (false,.next) := by
    intro _ same
    cases same
  have sound := always _ _ (path.append (.cons (fun _ _ u ne => sleeps.free u) called
    (.cons (alone _) behind (.cons (alone _) unlocked .nil))))
  obtain ⟨r,reader,eq⟩ := sound.caughtUp false _ returned (by
    simp only [Function.update_self,goto_pc]
    cases s₂.closed
    · exact .inl rfl
    · exact .inr rfl)
  have asleep : s₂.board.readers false = some ⟨0,0,[]⟩ := sleeps.reader
  have claims : s₂.board.claims = 2 ^ 63 + 1 := sleeps.claims
  rw [asleep,Option.some.injEq] at reader
  subst reader
  rw [claims] at eq
  contradiction

end XxCore.Sync.Broadcast
