import XxCore.Sync.BroadcastSequential

/-! Sequential histories of any length. No code reads the board, and the machine words of a receiver
that has slept for `2 ^ 64` indices are those of one that has skipped them, so that its position on
the board may be moved on. -/
namespace XxCore.Sync.Broadcast

variable {θ V : Type}

/-- The channel with another history. -/
def retold (s : Broadcast θ V) (board : Board θ V) : Broadcast θ V := { s with board }

def told (c : Config θ V) (board : Board θ V) : Config θ V := ⟨c.shared.retold board,c.locals⟩

@[simp] theorem told_locals {c : Config θ V} {board : Board θ V} :
    (told c board).locals = c.locals := rfl

@[simp] theorem told_board {c : Config θ V} {board : Board θ V} :
    (told c board).shared.board = board := rfl

/-- What holds while at most one call is in progress, however far a receiver is behind. A slot that
waits for nobody holds no value, but for the one that its last receiver is about to move out. -/
structure Steady (c : Config θ V) : Prop where
  holds : outline.Holds () c
  intact : Intact c
  settled : c.shared.board.Settled
  alone : Alone c
  last : ∀ t f, c.shared.board.flights t = some f → f.index + 1 = c.shared.board.claims
  trails : ∀ t r, c.shared.board.readers t = some r → Trails c.shared.board r (c.locals t).pc
  emptied : ∀ j < c.shared.capacity, (∀ t, (c.locals t).pc ≠ .access j true) →
    (c.shared.board.cells j).expected = [] → (c.shared.slots j).holds = false

/-- The sign of `diff` tells that the slot is ahead, and equal words mean equal positions. -/
def Abreast (c : Config θ V) (label : θ × Label V) : Prop :=
  ∀ j r, (c.locals label.1).pc = .loadSequence j → c.shared.board.readers label.1 = some r →
    (c.shared.board.cells j).number < r.position + 1 + 2 ^ 64 ∧
    r.position + 1 ≤ (c.shared.board.cells j).number + 2 ^ 63

theorem Abreast.inLap {c : Config θ V} {label : θ × Label V} (abreast : Abreast c label) :
    InLap c label := by
  intro j r pc reader
  have := abreast j r pc reader
  omega

variable [DecidableEq θ]

theorem start_retold {t : θ} {l l' : Local V} {s s' : Broadcast θ V} {call : Call V}
    (started : start t l s call = some (l',s')) (board : Board θ V) :
    ∃ board', start t l (s.retold board) call = some (l',s'.retold board') := by
  cases call with
  | send | cloneSender | dropSender =>
    simp only [start] at started ⊢
    split at started
    next may =>
      obtain ⟨rfl,rfl⟩ := Prod.mk.inj (Option.some.inj started)
      exact ⟨_,if_pos may⟩
    next => contradiction
  | subscribe | resubscribe =>
    simp only [start,subscribe] at started ⊢
    split at started
    next may =>
      split at started
      next room =>
        obtain ⟨rfl,rfl⟩ := Prod.mk.inj (Option.some.inj started)
        exact ⟨_,(if_pos may).trans (if_pos room)⟩
      next => contradiction
    next => contradiction
  | synchronize | tryRecv | dropReceiver =>
    obtain ⟨pos,receiver,eq⟩ := Option.map_eq_some_iff.mp started
    obtain ⟨rfl,rfl⟩ := Prod.mk.inj eq
    exact ⟨_,Option.map_eq_some_iff.mpr ⟨pos,receiver,rfl⟩⟩

/-- The history has no part in what a task does. -/
theorem prog_retold {t : θ} {label : Label V} {l l' : Local V} {s s' : Broadcast θ V}
    (ran : prog t label l s = some (l',s')) (board : Board θ V) :
    ∃ board', prog t label l (s.retold board) = some (l',s'.retold board') := by
  unfold prog at ran ⊢
  split at ran
  case h_1 | h_2 => exact start_retold ran board
  case h_4 =>
    split at ran
    next unlocked =>
      obtain ⟨rfl,rfl⟩ := Prod.mk.inj (Option.some.inj ran)
      exact ⟨_,if_pos unlocked⟩
    next => contradiction
  case h_9 j last _ =>
    simp only [access,Option.some.injEq] at ran
    cases data : (s.slots j).data with
    | none =>
      simp only [data,Prod.mk.injEq] at ran
      obtain ⟨rfl,rfl⟩ := ran
      exact ⟨board,by simp only [access,retold,data]⟩
    | some value =>
      simp only [data,Prod.mk.injEq] at ran
      obtain ⟨rfl,rfl⟩ := ran
      exact ⟨_,by simp only [access,retold,data]; rfl⟩
  case h_7 | h_8 | h_12 =>
    obtain ⟨pos,receiver,eq⟩ := Option.map_eq_some_iff.mp ran
    obtain ⟨rfl,rfl⟩ := Prod.mk.inj eq
    exact ⟨_,Option.map_eq_some_iff.mpr ⟨pos,receiver,rfl⟩⟩
  case h_13 => contradiction
  all_goals
    obtain ⟨rfl,rfl⟩ := Prod.mk.inj (Option.some.inj ran)
    exact ⟨_,rfl⟩

theorem step_told {c c' : Config θ V} {label : θ × Label V} (stepped : step c label = some c')
    (board : Board θ V) : ∃ board', step (told c board) label = some (told c' board') := by
  obtain ⟨t,choice⟩ := label
  obtain ⟨l,s,ran,rfl⟩ := Threads.step_eq_some.mp stepped
  obtain ⟨board',ran⟩ := prog_retold ran board
  exact ⟨board',Threads.step_eq_some.mpr ⟨l,_,ran,rfl⟩⟩

/-- The position of a receiver is moved on by whole turns of the machine words. -/
def wound (b : Board θ V) (t : θ) (turns : Nat) : Board θ V :=
  b.modify t fun r => { r with position := r.position + 2 ^ 64 * turns }

theorem wound_readers {b : Board θ V} {t : θ} {r : Board.Reader V} (turns : Nat)
    (reader : b.readers t = some r) :
    (wound b t turns).readers t = some { r with position := r.position + 2 ^ 64 * turns } := by
  simp [wound,Board.modify,reader]

theorem wound_other {b : Board θ V} {t u : θ} (turns : Nat) (ne : u ≠ t) :
    (wound b t turns).readers u = b.readers u := by
  simp [wound,Board.modify,ne]

theorem Steady.wound {c : Config θ V} (steady : Steady c) {t : θ} {j : Nat} {r : Board.Reader V}
    (pc : (c.locals t).pc = .loadSequence j) (reader : c.shared.board.readers t = some r)
    (turns : Nat) (le : r.position + 2 ^ 64 * turns ≤ c.shared.board.claims) :
    Steady (told c (wound c.shared.board t turns)) := by
  have shared := steady.holds.1
  have own := steady.holds.2 t
  have after := wound_readers turns reader
  refine ⟨⟨shared.modify t fun _ _ => .inl (Nat.le_add_right _ _),fun u => ?_⟩,
    ⟨steady.intact.values,steady.intact.fault⟩,steady.settled,steady.alone,steady.last,
    fun u q place => ?_,steady.emptied⟩
  · by_cases same : u = t
    · subst same
      refine ⟨?_,own.registered,own.guards,own.flying,?_⟩
      · have word : BitVec.ofNat 64 (r.position + 2 ^ 64 * turns) = BitVec.ofNat 64 r.position := by
          rw [Word.ofNat_eq_iff,Nat.add_mul_mod_self_left]
        have receiver := own.receiver
        rw [reader] at receiver
        rw [told_board,after]
        exact receiver.trans (congrArg some word.symm)
      · obtain ⟨q,place,rfl⟩ := own.loading pc
        obtain rfl := Option.some.inj (reader.symm.trans place)
        rw [told_locals,told_board,pc]
        refine ⟨_,after,?_⟩
        -- a turn is a multiple of the number of slots
        obtain ⟨k,small,capacity⟩ := shared.capacity
        have laps : c.shared.capacity ∣ 2 ^ 64 * turns := by
          rw [capacity]
          exact (Nat.pow_dvd_pow 2 (by omega)).trans (Nat.dvd_mul_right _ _)
        obtain ⟨laps,eq⟩ := laps
        change r.position % c.shared.capacity = (r.position + 2 ^ 64 * turns) % c.shared.capacity
        rw [eq,Nat.add_mul_mod_self_left]
    · exact (steady.holds.2 u).frame
        (.board (fun _ => id) rfl rfl (wound_other turns same) rfl .rfl)
  · by_cases same : u = t
    · subst same
      obtain rfl := Option.some.inj (after.symm.trans place)
      exact ⟨le,fun ahead => by rw [told_locals,pc] at ahead; contradiction⟩
    · have trails := steady.trails u q ((wound_other turns same).symm.trans place)
      exact ⟨trails.behind,trails.ahead⟩

/-- A receiver that loads the number of its slot may be taken to be less than a turn behind. -/
theorem Steady.abreast {c : Config θ V} (steady : Steady c) (label : θ × Label V) :
    ∃ board, Steady (told c board) ∧ Abreast (told c board) label := by
  obtain ⟨t,choice⟩ := label
  by_cases loads : ∃ j r, (c.locals t).pc = .loadSequence j ∧ c.shared.board.readers t = some r
  · obtain ⟨j,r,pc,reader⟩ := loads
    have behind := (steady.trails t r reader).behind
    let turns := (c.shared.board.claims - r.position) / 2 ^ 64
    have turn := Nat.div_add_mod (c.shared.board.claims - r.position) (2 ^ 64)
    have rest := Nat.mod_lt (c.shared.board.claims - r.position) (Nat.two_pow_pos 64)
    have moved := steady.wound pc reader turns (by omega)
    refine ⟨_,moved,fun i q pc' reader' => ?_⟩
    obtain ⟨q',place,rfl⟩ := (moved.holds.2 t).loading pc'
    obtain rfl := Option.some.inj (place.symm.trans reader')
    have shared := moved.holds.1
    have behind := (moved.trails t q' reader').behind
    have above := shared.number_le behind
    have below := shared.le_number moved.settled
      (moved.alone.quiet moved.holds (by rw [pc']; rfl) (by rw [pc']; rfl)) behind
    have capacity := shared.capacity_le
    obtain rfl := Option.some.inj ((wound_readers turns reader).symm.trans reader')
    change (Board.cells _ _).number ≤ c.shared.board.claims at above
    simp only at above below ⊢
    omega
  · exact ⟨c.shared.board,steady,fun j r pc reader => absurd ⟨j,r,pc,reader⟩ loads⟩

/-- A slot loses what it waits for and its value in one step, or in the two of its last receiver. -/
theorem Step.emptied {t : θ} {l l' : Local V} {s s' : Broadcast θ V} {label : Label V}
    (step : Step t l s label l' s') (shared : Shared s) (own : Own t s l) {j : Nat}
    (lt : j < s.capacity) (before : l.pc ≠ .access j true → (s.board.cells j).expected = [] →
      (s.slots j).holds = false) (other : l'.pc ≠ .access j true)
    (nobody : (s'.board.cells j).expected = []) : (s'.slots j).holds = false := by
  have guards (i : Nat) (guards : List θ) (empty : (s.slots j).holds = false) :
      ((s.setSlot i { s.slots i with guards }).slots j).holds = false := by
    by_cases same : j = i
    · subst same
      rw [setSlot_self]
      exact empty
    · rwa [setSlot_ne same]
  cases step with
  | send free | cloneSender free | dropSender free | subscribe free | synchronize free
    | dropReceiver free =>
    exact before (fun at_ => by rw [at_] at free; contradiction) nobody
  | loadReceivers pc | close pc | loadTail pc | ready pc | behind pc | ahead pc | isClosed pc
    | loadHead pc =>
    exact before (fun at_ => by rw [at_] at pc; contradiction) nobody
  | accessNone => exact before other nobody
  | tryRecv free => exact guards _ _ (before (fun at_ => by rw [at_] at free; contradiction) nobody)
  | unlock pc => exact guards _ _ (before (fun at_ => by rw [at_] at pc; contradiction) nobody)
  | update pc unlocked =>
    obtain ⟨k,counted,flight,rfl,rfl,_⟩ := own.updating pc
    have idle : l.pc ≠ .access j true := by simp [pc]
    simp only [put,Board.publish_eq _ flight,shared.size] at nobody
    by_cases same : j = k % s.capacity
    · -- nobody was counted: the value is given back, and the one before is taken out
      subst same
      simp only [Function.update_self] at nobody
      subst nobody
      by_cases waits : (s.board.cells (k % s.capacity)).expected = []
      · have empty := before idle waits
        simp only [Slot.holds,put,shared.masked,setSlot_self] at empty ⊢
        simp only [List.length_nil,if_true,decide_true,Bool.true_and]
        cases data : (s.slots (k % s.capacity)).data with
        | none => rfl
        | some value =>
          simp only [data,Option.isSome_some,Bool.true_and,Bool.not_eq_false'] at empty
          simp [empty]
      · have previous : (s.slots (k % s.capacity)).remaining ≠ 0#64 :=
          fun zero => waits ((shared.remaining_eq_zero lt).mp zero)
        simp [Slot.holds,put,shared.masked,previous]
    · rw [Function.update_of_ne same] at nobody
      simp only [put,shared.masked]
      rw [setSlot_ne same]
      exact before idle nobody
  | fetchSub pc has =>
    obtain ⟨r,reader,rfl,shows_⟩ := own.taking pc
    have mem := shared.expects reader shows_
    by_cases same : j = r.position % s.capacity
    · -- it is the last one that the slot waits for
      subst same
      refine absurd (congrArg (Pc.access _) (decide_eq_true ?_)) other
      apply (shared.remaining_eq (n := 1) lt (by omega)).mpr
      simp only [Broadcast.fetchSub,Board.take,Function.update_self] at nobody
      have length := List.length_erase_of_mem mem
      have positive := List.length_pos_of_mem mem
      rw [nobody,List.length_nil] at length
      omega
    · simp only [Broadcast.fetchSub,setSlot_ne same]
      refine before (by simp [pc]) ?_
      simpa [Broadcast.fetchSub,Board.take,same] using nobody
  | access pc data =>
    rename_i i last value
    by_cases same : j = i
    · subst same
      cases last with
      | true => simp [Slot.holds,readOut]
      | false =>
        have empty := before (by simp [pc]) nobody
        simpa [Slot.holds,readOut] using empty
    · simp only [readOut,setSlot_ne same]
      refine before (fun at_ => ?_) nobody
      rw [pc] at at_
      injection at_ with eq
      exact same eq.symm

theorem Steady.step {c c' : Config θ V} {label : θ × Label V} (steady : Steady c)
    (abreast : Abreast c label) (sequential : OneAtATime c label) (stepped : step c label = some c') :
    Steady c' := by
  have holds := step_holds steady.holds abreast.inLap stepped
  have intact := step_intact steady.holds steady.intact abreast.inLap (steady.alone.noRace label) stepped
  have alone := steady.alone.step sequential stepped
  have last := step_last steady.holds steady.alone steady.last sequential stepped
  have forward := notOvertaken_of_last steady.holds steady.last label
  obtain ⟨t,choice⟩ := label
  have others := steady.alone.others sequential stepped
  obtain ⟨l,s,ran,rfl⟩ := Threads.step_eq_some.mp stepped
  have step := prog_step ran
  have shared := steady.holds.1
  have own := steady.holds.2 t
  refine ⟨holds,intact,step.settled own forward steady.settled,alone,last,fun u r reader => ?_,
    fun j lt idle nobody => ?_⟩
  · by_cases same : u = t
    · subst same
      simpa using step.trails shared own (fun j r pc reader => (abreast j r pc reader).2)
        (steady.trails u) r reader
    · simp only [Function.update_of_ne same]
      exact (steady.trails u r ((step.frame shared own same).reader ▸ reader)).grow
        (step.grows shared own) id
  · have capacity : s.capacity = c.shared.capacity :=
      holds.1.size.symm.trans ((step.grows shared own).size.trans shared.size)
    refine step.emptied shared own (by simpa only [capacity] using lt) (fun mine => ?_)
      (by simpa using idle t) nobody
    refine steady.emptied j (by simpa only [capacity] using lt) fun u at_ => ?_
    by_cases same : u = t
    · exact mine (same ▸ at_)
    · have free := others u same
      rw [at_] at free
      contradiction

theorem init_steady {padding size capacity : Nat} (created : slotCount padding size = some capacity)
    (tx rx : θ) : Steady (init (V := V) capacity tx rx) where
  holds := init_holds created tx rx
  intact := init_intact
  settled := Board.settled_new
  alone := nofun
  last := nofun
  trails := fun t r reader =>
    have account := init_accounted t r reader
    ⟨account.behind,account.ahead⟩
  emptied := fun _ _ _ _ => rfl

/-- A sequential history, however far a receiver is behind. -/
theorem path_steady {padding size capacity : Nat} {tx rx : θ} {labels : List (θ × Label V)}
    {c : Config θ V} (created : slotCount padding size = some capacity)
    (path : Transition.Path step OneAtATime (init capacity tx rx) labels c) :
    ∃ board, Steady (told c board) := by
  refine path.invariant (fun c => ∃ board, Steady (told c board)) ?_ ⟨_,init_steady created tx rx⟩
  rintro c label next ⟨board,steady⟩ sequential stepped
  obtain ⟨board,steady,abreast⟩ := steady.abreast label
  obtain ⟨board',stepped⟩ := step_told stepped board
  exact ⟨board',steady.step abreast sequential stepped⟩

/-- Between the calls a slot waits for a receiver exactly if it holds a value. -/
theorem Steady.waits_iff {c : Config θ V} (steady : Steady c)
    (free : ∀ t, (c.locals t).pc.isFree = true) {j : Nat} (lt : j < c.shared.capacity) :
    (c.shared.slots j).remaining ≠ 0 ↔ (c.shared.slots j).holds = true := by
  have shared := steady.holds.1
  constructor
  · intro waits
    have waits : (c.shared.board.cells j).expected ≠ [] :=
      fun nobody => waits ((shared.remaining_eq_zero lt).mpr nobody)
    obtain ⟨k,v,rfl,shows_,sent⟩ := shared.waits lt waits
    have data := shared.data k v shows_ sent
    have unmoved := shared.unmoved _ lt waits
    simp [Slot.holds,data,unmoved]
  · intro holds none
    have empty := steady.emptied j lt (fun t at_ => by
      have free := free t
      rw [at_] at free
      contradiction) ((shared.remaining_eq_zero lt).mp none)
    rw [holds] at empty
    contradiction

end XxCore.Sync.Broadcast
