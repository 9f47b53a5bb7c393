import XxCore.Sync.BroadcastInvariant

/-! What a receiver accounts for: the values it got and the counts it was told pass every index
from where it started to where it is, as long as the signed differences are exact. -/
namespace XxCore.Sync.Broadcast

open Feed (Tiles)

variable {θ V : Type}

/-- The number of the slot that a `try_recv` loads is so near that the sign of `diff` tells which
of the two is ahead. -/
def InTime (c : Config θ V) (label : θ × Label V) : Prop :=
  ∀ j r, (c.locals label.1).pc = .loadSequence j → c.shared.board.readers label.1 = some r →
    (c.shared.board.cells j).number < r.position + 1 + 2 ^ 63 ∧
    r.position + 1 ≤ (c.shared.board.cells j).number + 2 ^ 63

theorem InTime.inLap {c : Config θ V} {label : θ × Label V} (inTime : InTime c label) :
    InLap c label := by
  intro j r pc reader
  have := inTime j r pc reader
  omega

/-- The index that the receiver has passed, but whose value it has yet to return. -/
def Pc.taken : Pc V → Nat
  | .access _ _ => 1
  | _ => 0

/-- The receiver found that its slot shows a later index. -/
def Pc.isAhead : Pc V → Bool
  | .unlock _ .ahead | .loadHead => true
  | _ => false

/-- The last event is the result that the task returns or is about to return. -/
def Pc.Reports : Pc V → List (Feed.Event V) → Prop
  | .unlock _ (.received v), events | .returned (.received v), events =>
    ∃ i, events.getLast? = some (.delivered i v)
  | .returned (.lagged missed), events => ∃ p, events.getLast? = some (.lagged p missed.toNat)
  | _, _ => True

/-- How far a receiver is. -/
structure Trails (b : Board θ V) (r : Board.Reader V) (pc : Pc V) : Prop where
  behind : r.position ≤ b.claims
  ahead : pc.isAhead = true → r.position + b.size ≤ b.claims

/-- What is known of the receiver of a task. -/
structure Accounts (b : Board θ V) (r : Board.Reader V) (pc : Pc V) : Prop where
  behind : r.position ≤ b.claims
  tiles : ∃ q, r.position = q + pc.taken ∧ Tiles r.start r.events q
  values : ∀ i v, .delivered i v ∈ r.events → b.sent i = some v
  ahead : pc.isAhead = true → r.position + b.size ≤ b.claims
  reports : pc.Reports r.events

theorem Accounts.trails {b : Board θ V} {r : Board.Reader V} {pc : Pc V} (accounts : Accounts b r pc) :
    Trails b r pc := ⟨accounts.behind,accounts.ahead⟩

/-- What every step does to the board. -/
structure Grows (b b' : Board θ V) : Prop where
  size : b'.size = b.size
  claims : b.claims ≤ b'.claims
  sent : ∀ k v, b.sent k = some v → b'.sent k = some v

theorem Trails.grow {b b' : Board θ V} {r : Board.Reader V} {pc pc' : Pc V} (trails : Trails b r pc)
    (grows : Grows b b') (ahead : pc'.isAhead = true → pc.isAhead = true) : Trails b' r pc' where
  behind := Nat.le_trans trails.behind grows.claims
  ahead := fun is_ahead => by
    rw [grows.size]
    exact Nat.le_trans (trails.ahead (ahead is_ahead)) grows.claims

theorem Accounts.grow {b b' : Board θ V} {r : Board.Reader V} {pc pc' : Pc V}
    (accounts : Accounts b r pc) (grows : Grows b b') (taken : pc'.taken = pc.taken)
    (ahead : pc'.isAhead = true → pc.isAhead = true)
    (reports : ∀ events, pc.Reports events → pc'.Reports events) : Accounts b' r pc' where
  behind := (accounts.trails.grow grows ahead).behind
  tiles := by rw [taken]; exact accounts.tiles
  values := fun i v mem => grows.sent i v (accounts.values i v mem)
  ahead := (accounts.trails.grow grows ahead).ahead
  reports := reports _ accounts.reports

/-- A slot whose number is ahead of a position is at least a lap ahead. -/
theorem Shared.lap {s : Broadcast θ V} (shared : Shared s) {p : Nat}
    (below : p + 1 ≤ (s.board.cells (p % s.capacity)).number + 2 ^ 63)
    (diff : 0 < ((s.slots (p % s.capacity)).sequence - (BitVec.ofNat 64 p + 1)).toInt) :
    p + s.board.size ≤ s.board.claims := by
  have later : p + 1 < (s.board.cells (p % s.capacity)).number := by
    by_contra near
    rw [shared.sequence _ (shared.mod_lt p),show (1 : Word) = BitVec.ofNat 64 1 from rfl,
      ← BitVec.ofNat_add,Word.toInt_sub (by omega) (by omega)] at diff
    omega
  rw [shared.size]
  have le := Nat.mod_le p s.capacity
  rcases shared.valid.cell (p % s.capacity) (by rw [shared.size]; exact shared.mod_lt p) with
    ⟨number,_⟩ | ⟨k,same,number,lt⟩
  · omega
  · rw [shared.size] at same
    -- two indices of one slot are whole laps apart
    have : k = p ∨ p + s.capacity ≤ k := by
      by_contra near
      rw [not_or] at near
      exact near.1 (Nat.ModEq.eq_of_abs_lt same (by rw [abs_lt]; omega))
    omega

/-- A receiver that skips what it has missed does not pass the next index. -/
theorem Shared.lag_le {s : Broadcast θ V} (shared : Shared s) {p : Nat}
    (ahead : p + s.board.size ≤ s.board.claims) :
    p + (s.tail - BitVec.ofNat 64 s.capacity - BitVec.ofNat 64 p).toNat ≤ s.board.claims := by
  rw [shared.size] at ahead
  rw [shared.tail,Word.ofNat_sub (by omega),Word.ofNat_sub (by omega),BitVec.toNat_ofNat]
  have := Nat.mod_le (s.board.claims - s.capacity - p) (2 ^ 64)
  omega

variable [DecidableEq θ]

theorem Step.grows {t : θ} {l l' : Local V} {s s' : Broadcast θ V} {label : Label V}
    (step : Step t l s label l' s') (shared : Shared s) (own : Own t s l) :
    Grows s.board s'.board := by
  cases step with
  | send => exact ⟨rfl,Nat.le_succ _,fun _ _ => id⟩
  | update pc unlocked =>
    obtain ⟨k,counted,flight,rfl,_,_⟩ := own.updating pc
    have fresh := (shared.valid.flight t _ flight).2.2
    refine ⟨?_,?_,fun i v sent => ?_⟩
    all_goals simp only [put,Board.publish_eq _ flight]
    · exact Nat.le_refl _
    · have ne : i ≠ k := by
        rintro rfl
        simp [fresh] at sent
      split
      · exact sent
      · simpa [ne] using sent
  | _ => exact ⟨rfl,Nat.le_refl _,fun _ _ => id⟩

/-- A step leaves its own receiver behind the next index. -/
theorem Step.trails {t : θ} {l l' : Local V} {s s' : Broadcast θ V} {label : Label V}
    (step : Step t l s label l' s') (shared : Shared s) (own : Own t s l)
    (below : ∀ j r, l.pc = .loadSequence j → s.board.readers t = some r →
      r.position + 1 ≤ (s.board.cells j).number + 2 ^ 63)
    (before : ∀ r, s.board.readers t = some r → Trails s.board r l.pc) :
    ∀ r, s'.board.readers t = some r → Trails s'.board r l'.pc := by
  have grows := step.grows shared own
  have same (reader : s'.board.readers t = s.board.readers t)
      (ahead : l'.pc.isAhead = true → l.pc.isAhead = true) :
      ∀ r, s'.board.readers t = some r → Trails s'.board r l'.pc := by
    intro r after
    rw [reader] at after
    exact (before r after).grow grows ahead
  cases step with
  | send | cloneSender | subscribe | tryRecv | loadReceivers | close | isClosed | ready | behind =>
    exact same rfl (by intros; contradiction)
  | accessNone => exact same rfl id
  | dropSender =>
    apply same rfl
    dsimp only
    split <;> (intros; contradiction)
  | dropReceiver =>
    intro r after
    simp [Board.leave] at after
  | update pc =>
    obtain ⟨k,counted,flight,rfl,_,_⟩ := own.updating pc
    exact same (by simp [put,Board.publish_eq _ flight]) (by intros; contradiction)
  | unlock pc =>
    rename_i j after
    apply same rfl
    rw [pc]
    cases after <;> exact id
  | loadTail =>
    intro r after
    simp only [Board.enter,Function.update_self,Option.some.injEq] at after
    subst after
    exact ⟨Nat.le_refl _,by intros; contradiction⟩
  | ahead pc has diff =>
    intro r reader
    refine ⟨(before r reader).behind,fun _ => ?_⟩
    obtain ⟨r',reader',rfl⟩ := own.loading pc
    obtain rfl := Option.some.inj (reader'.symm.trans reader)
    have below := below _ r' pc reader
    obtain ⟨r'',reader'',rfl⟩ := own.reader has
    obtain rfl := Option.some.inj (reader''.symm.trans reader)
    exact shared.lap below diff
  | synchronize free has =>
    intro r after
    obtain ⟨r',reader,_⟩ := own.reader has
    simp only [Board.synchronize,Board.modify,Function.update_self,reader,Option.map_some,
      Option.some.injEq] at after
    subst after
    exact ⟨Nat.le_refl _,by intros; contradiction⟩
  | fetchSub pc has =>
    obtain ⟨r',reader,rfl,shows_⟩ := own.taking pc
    intro r after
    simp only [Broadcast.fetchSub,Board.take,Board.modify,Function.update_self,reader,
      Option.map_some,Option.some.injEq] at after
    subst after
    exact ⟨shared.valid.shows_lt shows_,by intros; contradiction⟩
  | access pc data =>
    obtain ⟨r',_,_,reader,_⟩ := own.using_ pc
    intro r after
    simp only [readOut,Board.deliver,Board.modify,Function.update_self,reader,
      Option.map_some,Option.some.injEq] at after
    subst after
    exact ⟨(before r' reader).behind,by intros; contradiction⟩
  | loadHead pc has =>
    obtain ⟨r',reader,rfl⟩ := own.reader has
    intro r after
    simp only [skip,Board.lag,Board.modify,Function.update_self,reader,Option.map_some,
      Option.some.injEq] at after
    subst after
    have ahead := (before r' reader).ahead (by rw [pc]; rfl)
    exact ⟨shared.lag_le ahead,by intros; contradiction⟩

theorem free_taken {pc : Pc V} (free : pc.isFree = true) : pc.taken = 0 := by
  cases pc <;> simp_all [Pc.isFree,Pc.taken]

/-- A step keeps the account of its own receiver. -/
theorem Step.accounts {t : θ} {l l' : Local V} {s s' : Broadcast θ V} {label : Label V}
    (step : Step t l s label l' s') (shared : Shared s) (own : Own t s l)
    (inTime : ∀ j r, l.pc = .loadSequence j → s.board.readers t = some r →
      (s.board.cells j).number < r.position + 1 + 2 ^ 63 ∧
      r.position + 1 ≤ (s.board.cells j).number + 2 ^ 63)
    (before : ∀ r, s.board.readers t = some r → Accounts s.board r l.pc) :
    ∀ r, s'.board.readers t = some r → Accounts s'.board r l'.pc := by
  have grows := step.grows shared own
  have trails := step.trails shared own (fun j r pc reader => (inTime j r pc reader).2)
    fun r reader => (before r reader).trails
  have same (reader : s'.board.readers t = s.board.readers t) (taken : l'.pc.taken = l.pc.taken)
      (reports : ∀ events, l.pc.Reports events → l'.pc.Reports events) :
      ∀ r, s'.board.readers t = some r → Accounts s'.board r l'.pc := by
    intro r after
    obtain ⟨behind,ahead⟩ := trails r after
    rw [reader] at after
    have account := before r after
    exact ⟨behind,by rw [taken]; exact account.tiles,
      fun i v mem => grows.sent i v (account.values i v mem),ahead,reports _ account.reports⟩
  cases step with
  | send free => exact same rfl (free_taken free).symm fun _ _ => trivial
  | cloneSender free => exact same rfl (free_taken free).symm fun _ _ => trivial
  | dropSender free =>
    apply same rfl
    · rw [free_taken free]; dsimp only; split <;> rfl
    · intro _ _; dsimp only; split <;> trivial
  | subscribe free => exact same rfl (free_taken free).symm fun _ _ => trivial
  | tryRecv free => exact same rfl (free_taken free).symm fun _ _ => trivial
  | dropReceiver free =>
    intro r after
    simp [Board.leave] at after
  | loadReceivers pc => exact same rfl (by rw [pc]; rfl) fun _ _ => trivial
  | update pc =>
    obtain ⟨k,counted,flight,rfl,_,_⟩ := own.updating pc
    refine same (by simp [put,Board.publish_eq _ flight]) (by rw [pc]; rfl) fun _ _ => ?_
    rw [goto_pc]
    split <;> trivial
  | close pc => exact same rfl (by rw [pc]; rfl) fun _ _ => trivial
  | isClosed pc =>
    refine same rfl (by rw [pc]; rfl) fun _ _ => ?_
    rw [goto_pc]
    split <;> trivial
  | ready pc => exact same rfl (by rw [pc]; rfl) fun _ _ => trivial
  | behind pc => exact same rfl (by rw [pc]; rfl) fun _ _ => trivial
  | ahead pc => exact same rfl (by rw [pc]; rfl) fun _ _ => trivial
  | accessNone pc => exact same rfl rfl fun _ => id
  | unlock pc =>
    rename_i j after
    apply same rfl
    · rw [pc]; cases after <;> rfl
    · rw [pc]; intro _; cases after <;> exact id
  | loadTail pc =>
    intro r after
    simp only [Board.enter,Function.update_self,Option.some.injEq] at after
    subst after
    exact ⟨Nat.le_refl _,⟨_,rfl,rfl⟩,by simp,by intros; contradiction,trivial⟩
  | synchronize free has =>
    intro r after
    obtain ⟨behind,ahead⟩ := trails r after
    obtain ⟨r',reader,_⟩ := own.reader has
    simp only [Board.synchronize,Board.modify,Function.update_self,reader,Option.map_some,
      Option.some.injEq] at after
    subst after
    have account := before r' reader
    obtain ⟨q,eq,tiles⟩ := account.tiles
    rw [free_taken free] at eq
    obtain rfl : q = r'.position := eq.symm
    exact ⟨behind,⟨_,rfl,tiles.snoc (.synchronized r'.position s.board.claims) account.behind⟩,
      fun i v mem => account.values i v (by simpa using mem),ahead,trivial⟩
  | fetchSub pc has =>
    obtain ⟨r',reader,rfl,shows_⟩ := own.taking pc
    intro r after
    obtain ⟨behind,ahead⟩ := trails r after
    simp only [Broadcast.fetchSub,Board.take,Board.modify,Function.update_self,reader,
      Option.map_some,Option.some.injEq] at after
    subst after
    have account := before r' reader
    obtain ⟨q,eq,tiles⟩ := account.tiles
    rw [pc] at eq
    exact ⟨behind,⟨q,congrArg (· + 1) eq,tiles⟩,account.values,ahead,trivial⟩
  | access pc data =>
    obtain ⟨r',k,v,reader,eq,rfl,shows_,sent,_⟩ := own.using_ pc
    have number := shows_
    intro r after
    obtain ⟨behind,ahead⟩ := trails r after
    simp only [readOut,Board.deliver,Board.modify,Function.update_self,reader,
      Option.map_some,Option.some.injEq] at after
    subst after
    have account := before r' reader
    obtain ⟨q,eq',tiles⟩ := account.tiles
    rw [pc] at eq'
    obtain rfl : q = k := Nat.succ.inj (eq'.symm.trans eq)
    rw [Board.Shows,Board.cellOf,shared.size] at number
    have index : (s.board.cells (q % s.capacity)).number - 1 = q := by omega
    rw [shared.data q v shows_ sent,Option.some.injEq] at data
    subst data
    rw [index]
    refine ⟨behind,⟨_,eq,tiles.snoc (.delivered q v) (Nat.le_succ q)⟩,fun i w mem => ?_,ahead,
      ⟨q,by simp⟩⟩
    rcases List.mem_append.mp mem with old | new
    · exact account.values i w old
    · cases List.mem_singleton.mp new
      exact sent
  | loadHead pc has =>
    obtain ⟨r',reader,rfl⟩ := own.reader has
    intro r after
    obtain ⟨behind,ahead⟩ := trails r after
    simp only [skip,Board.lag,Board.modify,Function.update_self,reader,Option.map_some,
      Option.some.injEq] at after
    subst after
    have account := before r' reader
    obtain ⟨q,eq,tiles⟩ := account.tiles
    rw [pc] at eq
    obtain rfl : q = r'.position := eq.symm
    exact ⟨behind,⟨_,rfl,tiles.snoc (.lagged r'.position _) (Nat.le_add_right _ _)⟩,
      fun i v mem => account.values i v (by simpa using mem),ahead,⟨r'.position,by simp⟩⟩

/-- The account of every receiver. -/
def Accounted (c : Config θ V) : Prop :=
  ∀ t r, c.shared.board.readers t = some r → Accounts c.shared.board r (c.locals t).pc

theorem step_accounted {c c' : Config θ V} {label : θ × Label V} (holds : outline.Holds () c)
    (accounted : Accounted c) (inTime : InTime c label) (stepped : step c label = some c') :
    Accounted c' := by
  obtain ⟨t,choice⟩ := label
  obtain ⟨l,s,ran,rfl⟩ := Threads.step_eq_some.mp stepped
  have step := prog_step ran
  intro u r reader
  by_cases same : u = t
  · subst same
    simpa using step.accounts holds.1 (holds.2 u) inTime (accounted u) r reader
  · have kept := (step.frame holds.1 (holds.2 t) same).reader
    simp only [Function.update_of_ne same]
    exact (accounted u r (kept ▸ reader)).grow (step.grows holds.1 (holds.2 t)) rfl id fun _ => id

theorem init_accounted {capacity : Nat} {tx rx : θ} :
    Accounted (init (V := V) capacity tx rx) := by
  intro t r reader
  by_cases same : t = rx
  · simp only [init,channel,Board.new,same,Function.update_self,Option.some.injEq] at reader
    subst reader
    exact ⟨Nat.le_refl _,⟨0,rfl,rfl⟩,by simp,by intros; contradiction,trivial⟩
  · simp [init,channel,Board.new,same] at reader

end XxCore.Sync.Broadcast
