import XxCore.Sync.Channel.OneshotSteps

/-! Where the value of a oneshot channel is. The auxiliary value is its location, and each end is
at program points that go with the location. -/
namespace XxCore.Sync.Oneshot

variable {θ ρ V : Type}

inductive Location where
  | unsent
  | sending
  | written
  /-- `sent` is set, and the sender has not checked yet that the receiver is there -/
  | published
  /-- `sent` is set, and `send` returns `Ok` -/
  | handed
  /-- `try_consume_value` found `sent` set on this side -/
  | claimed (side : Side)
  | held (side : Side)
  | received
  | returned
  | dropped
  deriving DecidableEq

/-- The receiver has not taken the value. -/
def Location.free : Location → Bool
  | .claimed .recv | .held .recv | .dropped => false
  | _ => true

def Location.taken : Location → Bool
  | .claimed .recv | .held .recv | .received | .dropped => true
  | _ => false

theorem Location.free_of_taken {a : Location} (taken : a.taken = false) : a.free = true := by
  cases a with
  | claimed side => cases side <;> simp_all [Location.taken,Location.free]
  | held side => cases side <;> simp_all [Location.taken,Location.free]
  | dropped => simp [Location.taken] at taken
  | _ => rfl

/-- The value that a list of results delivers. -/
def oks (results : List (Except RecvError V)) : List V := results.filterMap Except.toOption

@[simp] theorem oks_ok (results : List (Except RecvError V)) (v : V) :
    oks (results ++ [.ok v]) = oks results ++ [v] := by
  simp [oks,Except.toOption]

@[simp] theorem oks_error (results : List (Except RecvError V)) (error : RecvError) :
    oks (results ++ [.error error]) = oks results := by
  rw [oks,List.filterMap_append]
  exact List.append_nil _

structure SharedInv (a : Location) (s : Oneshot ρ V) : Prop where
  passed : s.passed = none ↔ a = .unsent
  sent : s.sent = true ↔ a = .published ∨ a = .handed
  value : a = .written ∨ a = .published ∨ a = .handed ∨ (∃ side, a = .claimed side) →
    s.value = s.passed
  results : oks s.results = if a = .received then s.passed.toList else []
  dropped : s.dropped = if a = .dropped then s.passed.toList else []
  returned : ∀ v, s.returned = some (.error v) ↔ a = .returned ∧ s.passed = some v
  closed : s.closed = true → TxClosed s
  rechecked : s.rechecked = true → s.closed = true ∧ a ≠ .handed
  fault : s.fault = false

/-- The result of the sender goes with where the value is. -/
def Finishes (a : Location) (s : Oneshot ρ V) : Option (Except V Unit) → Prop
  | none => a = .unsent
  | some (.ok ()) => a = .handed ∨ a.taken = true
  | some (.error v) => a = .held .send ∧ s.passed = some v

/-- What holds of the sender and of the receiver at each program point. -/
def Main.Ok (a : Location) (s : Oneshot ρ V) : Side → Main ρ V → Prop
  | .send, .idle | .send, .checkInterrupt _ | .send, .suspend _ _ | .send, .parked _ _
  | .send, .loadClosed .isClosed => a = .unsent ∧ s.returned = none
  | .send, .write v => a = .sending ∧ s.passed = some v ∧ s.returned = none
  | .send, .storeSent => a = .written ∧ s.returned = none
  | .send, .close .sendRx | .send, .loadClosed .send | .send, .swap .send =>
    (a = .published ∨ a.taken = true) ∧ s.returned = none
  | .send, .read .send => a = .claimed .send ∧ s.returned = none
  | .send, .close (.dropTx result) | .send, .close (.dropRx result) =>
    Finishes a s result ∧ s.returned = none
  | .send, .gone => a = .unsent ∧ s.returned = none ∨
    (a = .handed ∨ a.taken = true) ∧ s.returned = some (.ok ()) ∨ a = .returned
  | .recv, .idle | .recv, .checkInterrupt _ | .recv, .suspend _ _ | .recv, .parked _ _
  | .recv, .swap (.tryRecv _) | .recv, .close .closeTx | .recv, .close .dropReceiver =>
    a.free = true
  | .recv, .close .closeRx | .recv, .swap .drop => a.free = true ∧ TxClosed s
  | .recv, .loadClosed (.tryRecv _) => a.free = true ∧ (s.closed = true → a ≠ .handed)
  | .recv, .read (.tryRecv _) => a = .claimed .recv
  | .recv, .read .drop => a = .claimed .recv ∧ TxClosed s
  | .recv, .close (.received _ v) => a = .held .recv ∧ s.passed = some v
  | .recv, .gone => TxClosed s ∧ a ≠ .handed ∧ a ≠ .claimed .recv ∧ a ≠ .held .recv
  | _, _ => False

/-- A close that is running has stored its mark, or is about to. -/
def Local.Closes (s : Oneshot ρ V) (l : Local ρ V) : Prop :=
  ∀ closing, l.main = .close closing → AtomicWaiter.Closes (s.waiters closing.side) l.waiter

structure ThreadInv (a : Location) (agent : Agent θ) (s : Oneshot ρ V) (l : Local ρ V) : Prop where
  ok : ∀ side, agent = .user side → l.main.Ok a s side
  closes : l.Closes s
  sound : Sound agent l

def outline : Threads.Outline Location (Agent θ) (Oneshot ρ V) (Local ρ V) := ⟨SharedInv,ThreadInv⟩

theorem ok_calm_send {a : Location} {s : Oneshot ρ V} {main : Main ρ V}
    (calm : main.calm .send = true) : main.Ok a s .send ↔ a = .unsent ∧ s.returned = none := by
  cases main with
  | loadClosed check => cases check <;> simp_all [Main.calm,Main.Ok]
  | swap consumer => cases consumer <;> simp_all [Main.calm]
  | _ => simp_all [Main.calm,Main.Ok]

theorem ok_calm_recv {a : Location} {s : Oneshot ρ V} {main : Main ρ V}
    (calm : main.calm .recv = true) : main.Ok a s .recv ↔ a.free = true := by
  cases main with
  | loadClosed check => cases check <;> simp_all [Main.calm]
  | swap consumer => cases consumer <;> simp_all [Main.calm,Main.Ok]
  | _ => simp_all [Main.calm,Main.Ok]

theorem calm_closes {s : Oneshot ρ V} {l : Local ρ V} {side : Side}
    (calm : l.main.calm side = true) : l.Closes s := by
  intro closing main
  rw [main] at calm
  cases side <;> simp [Main.calm] at calm

theorem goto_closes {s : Oneshot ρ V} {main : Main ρ V} (other : ∀ closing, main ≠ .close closing) :
    (goto main).Closes s :=
  fun closing main => absurd main (other closing)

theorem startClose_closes (s : Oneshot ρ V) (closing : Closing V) :
    (startClose closing : Local ρ V).Closes s := by
  intro closing main
  trivial

theorem SharedInv.waits {a : Location} {s s' : Oneshot ρ V} (inv : SharedInv a s)
    {closing : Option Side} (waits : Waits closing s s') : SharedInv a s' := by
  obtain ⟨waiters,rfl,stays,_⟩ := waits
  exact ⟨inv.passed,inv.sent,inv.value,inv.results,inv.dropped,inv.returned,
    fun closed => stays .send (inv.closed closed),inv.rechecked,inv.fault⟩

/-- The value has reached its one destination. -/
def Location.settled : Location → Bool
  | .received | .returned | .dropped => true
  | _ => false

/-- Until the value has a destination, the history of results does not change. -/
theorem SharedInv.relocate {a a' : Location} {s : Oneshot ρ V} {sent : Bool} {value passed : Option V}
    (inv : SharedInv a s) (open_ : a.settled = false) (still : a'.settled = false)
    (passed' : passed = none ↔ a' = .unsent)
    (sent' : sent = true ↔ a' = .published ∨ a' = .handed)
    (value' : a' = .written ∨ a' = .published ∨ a' = .handed ∨ (∃ side, a' = .claimed side) →
      value = passed)
    (handed : a' = .handed → s.rechecked = false) :
    SharedInv a' { s with sent, value, passed } := by
  have away (goal : Location) (settled : goal.settled = true) : a ≠ goal ∧ a' ≠ goal := by
    constructor <;> rintro rfl <;> simp_all
  obtain ⟨received,received'⟩ := away .received rfl
  obtain ⟨returned,returned'⟩ := away .returned rfl
  obtain ⟨dropped,dropped'⟩ := away .dropped rfl
  refine ⟨passed',sent',value',?_,?_,fun v => ?_,inv.closed,fun rechecked => ?_,inv.fault⟩
  · simpa [received,received'] using inv.results
  · simpa [dropped,dropped'] using inv.dropped
  · simpa [returned,returned'] using inv.returned v
  · refine ⟨(inv.rechecked rechecked).1,fun same => ?_⟩
    simp [handed same] at rechecked

/-- What a step of the sender does, as far as the receiver can tell. -/
structure SendMoves (a : Location) (s : Oneshot ρ V) (a' : Location) (s' : Oneshot ρ V) : Prop where
  tx : TxClosed s → TxClosed s'
  closed : s'.closed = s.closed
  rechecked : s'.rechecked = s.rechecked
  results : s'.results = s.results
  dropped : s'.dropped = s.dropped
  moves : a' = a ∧ s'.passed = s.passed ∨
    a.taken = false ∧ a'.taken = false ∧ (a' = .handed → ¬ TxClosed s)

theorem SendMoves.ok {a a' : Location} {s s' : Oneshot ρ V} {main : Main ρ V}
    (moves : SendMoves a s a' s') (inv : SharedInv a s) (ok : main.Ok a s .recv) :
    main.Ok a' s' .recv := by
  obtain ⟨tx,closed,-,-,-,⟨rfl,passed⟩ | ⟨free,free',handed⟩⟩ := moves
  · cases main with
    | swap consumer => cases consumer <;> simp_all [Main.Ok]
    | read consumer => cases consumer <;> simp_all [Main.Ok]
    | loadClosed check => cases check <;> simp_all [Main.Ok]
    | close closing => cases closing <;> simp_all [Main.Ok]
    | _ => simp_all [Main.Ok]
  · have flag := inv.closed
    have free := Location.free_of_taken free
    have free' := Location.free_of_taken free'
    have other (before : Location) (no : before.free = false) : a' ≠ before := by
      rintro rfl
      simp [free'] at no
    cases main with
    | swap consumer => cases consumer <;> simp_all [Main.Ok]
    | read consumer => cases consumer <;> simp_all [Main.Ok,Location.free]
    | loadClosed check =>
      cases check with
      | tryRecv call => exact ⟨free',fun closed' at_ => handed at_ (flag (closed ▸ closed'))⟩
      | _ => exact ok.elim
    | close closing => cases closing <;> simp_all [Main.Ok,Location.free]
    | gone =>
      simp only [Main.Ok] at ok ⊢
      exact ⟨tx ok.1,fun same => handed same ok.1,other _ rfl,other _ rfl⟩
    | _ => simp_all [Main.Ok]

/-- What a step of the receiver does, as far as the sender can tell. -/
structure RecvMoves (a : Location) (s : Oneshot ρ V) (a' : Location) (s' : Oneshot ρ V) : Prop where
  passed : s'.passed = s.passed
  returned : s'.returned = s.returned
  moves : a' = a ∨ (a = .published ∨ a = .handed ∨ a.taken = true) ∧ a ≠ .received ∧ a'.taken = true

theorem RecvMoves.ok {a a' : Location} {s s' : Oneshot ρ V} {main : Main ρ V}
    (moves : RecvMoves a s a' s') (ok : main.Ok a s .send) : main.Ok a' s' .send := by
  obtain ⟨passed,returned,rfl | ⟨from_,-,taken⟩⟩ := moves
  · cases main with
    | swap consumer => cases consumer <;> simp_all [Main.Ok]
    | read consumer => cases consumer <;> simp_all [Main.Ok]
    | loadClosed check => cases check <;> simp_all [Main.Ok]
    | close closing => cases closing <;> simp_all [Main.Ok,Finishes]
    | _ => simp_all [Main.Ok]
  · have other {before : Location} (untaken : before.taken = false) (unsent : before ≠ .published)
        (sent : before ≠ .handed) : a ≠ before := by
      rintro rfl
      simp_all
    have unsent : a ≠ .unsent := other rfl nofun nofun
    have sending : a ≠ .sending := other rfl nofun nofun
    have written : a ≠ .written := other rfl nofun nofun
    have claimed : a ≠ .claimed .send := other rfl nofun nofun
    have held : a ≠ .held .send := other rfl nofun nofun
    have back : a ≠ .returned := other rfl nofun nofun
    have finishes (result : Option (Except V Unit)) (old : Finishes a s result) :
        Finishes a' s' result := by
      rcases result with _ | _ | _ <;> simp_all [Finishes]
    cases main with
    | swap consumer => cases consumer <;> simp_all [Main.Ok]
    | read consumer => cases consumer <;> simp_all [Main.Ok]
    | loadClosed check => cases check <;> simp_all [Main.Ok]
    | close closing =>
      cases closing with
      | dropTx result => exact ⟨finishes result ok.1,returned.trans ok.2⟩
      | dropRx result => exact ⟨finishes result ok.1,returned.trans ok.2⟩
      | sendRx => exact ⟨.inr taken,returned.trans ok.2⟩
      | _ => exact ok.elim
    | gone => simp_all [Main.Ok]
    | _ => simp_all [Main.Ok]

theorem Waits.tx {s s' : Oneshot ρ V} {closing : Option Side} (waits : Waits closing s s') (closed : TxClosed s) : TxClosed s' := by
  obtain ⟨waiters,rfl,stays,_⟩ := waits
  exact stays .send closed

/-- A step of an agent: the location moves, and its own program point goes with it. -/
structure Moves (side : Side) (a : Location) (s : Oneshot ρ V) (a' : Location) (s' : Oneshot ρ V)
    (l' : Local ρ V) : Prop where
  shared : SharedInv a' s'
  ok : l'.main.Ok a' s' side
  closes : l'.Closes s'
  send : side = .send → SendMoves a s a' s'
  recv : side = .recv → RecvMoves a s a' s'

theorem Waits.moves {a : Location} {s s' : Oneshot ρ V} {side : Side} {l' : Local ρ V}
    (inv : SharedInv a s) {closing : Option Side} (waits : Waits closing s s') (ok : l'.main.Ok a s' side) (closes : l'.Closes s') :
    Moves side a s a s' l' := by
  have shared := inv.waits waits
  obtain ⟨waiters,rfl,stays,_⟩ := waits
  exact ⟨shared,ok,closes,fun _ => ⟨stays .send,rfl,rfl,rfl,rfl,.inl ⟨rfl,rfl⟩⟩,fun _ => ⟨rfl,rfl,.inl rfl⟩⟩

/-- What a step of a waiter does, and then the rest of the step. -/
theorem Waits.trans {a a' : Location} {s s' s'' : Oneshot ρ V} {side : Side} {l' : Local ρ V}
    {closing : Option Side} (waits : Waits closing s s') (moves : Moves side a s' a' s'' l') : Moves side a s a' s'' l' := by
  obtain ⟨waiters,rfl,stays,_⟩ := waits
  obtain ⟨shared,ok,closes,send,recv⟩ := moves
  refine ⟨shared,ok,closes,fun same => ?_,fun same => ?_⟩
  · obtain ⟨tx,closed,rechecked,results,dropped,moves⟩ := send same
    refine ⟨fun before => tx (stays .send before),closed,rechecked,results,dropped,?_⟩
    rcases moves with stay | ⟨free,free',handed⟩
    · exact .inl stay
    · exact .inr ⟨free,free',fun at_ before => handed at_ (stays .send before)⟩
  · obtain ⟨passed,returned,moves⟩ := recv same
    exact ⟨passed,returned,moves⟩

theorem Waits.ok {a : Location} {s s' : Oneshot ρ V} {side : Side} {main : Main ρ V}
    (inv : SharedInv a s) {closing : Option Side} (waits : Waits closing s s') (ok : main.Ok a s side) : main.Ok a s' side := by
  obtain ⟨waiters,rfl,stays,_⟩ := waits
  cases side with
  | send => exact RecvMoves.ok (s := s) ⟨rfl,rfl,.inl rfl⟩ ok
  | recv => exact SendMoves.ok ⟨stays .send,rfl,rfl,rfl,rfl,.inl ⟨rfl,rfl⟩⟩ inv ok

theorem send_step {a : Location} {s s' : Oneshot ρ V} {l l' : Local ρ V} {label : Label ρ V}
    (inv : SharedInv a s) (own : ThreadInv a (.user .send : Agent θ) s l)
    (stepped : Step s (.user .send : Agent θ) l label l' s') : ∃ a', Moves .send a s a' s' l' := by
  have ok := own.ok .send rfl
  cases stepped with
  | waits calm still waits =>
    refine ⟨a,waits.moves inv ?_ (calm_closes still)⟩
    rw [ok_calm_send still]
    obtain ⟨waiters,rfl,stays,_⟩ := waits
    exact (ok_calm_send (s := s) calm).mp ok
  | @send _ v =>
    obtain ⟨rfl,returned⟩ := ok
    refine ⟨.sending,inv.relocate rfl rfl (by simp) ?_ (by simp) nofun,⟨rfl,rfl,returned⟩,
      goto_closes (by simp),fun _ => ⟨id,rfl,rfl,rfl,rfl,.inr ⟨rfl,rfl,nofun⟩⟩,nofun⟩
    simpa using inv.sent
  | dropSender =>
    exact ⟨a,inv,ok,startClose_closes s _,fun _ => ⟨id,rfl,rfl,rfl,rfl,.inl ⟨rfl,rfl⟩⟩,nofun⟩
  | @write v =>
    obtain ⟨rfl,passed,returned⟩ := ok
    refine ⟨.written,inv.relocate rfl rfl (by simp [passed]) ?_ (fun _ => passed.symm) nofun,
      ⟨rfl,returned⟩,goto_closes (by simp),fun _ => ⟨id,rfl,rfl,rfl,rfl,.inr ⟨rfl,rfl,nofun⟩⟩,nofun⟩
    simpa using inv.sent
  | storeSent =>
    obtain ⟨rfl,returned⟩ := ok
    refine ⟨.published,inv.relocate rfl rfl ?_ (by simp) (fun _ => inv.value (.inl rfl)) nofun,
      ⟨.inl rfl,returned⟩,startClose_closes _ _,fun _ => ⟨id,rfl,rfl,rfl,rfl,.inr ⟨rfl,rfl,nofun⟩⟩,nofun⟩
    simpa using inv.passed
  | swapSome sent =>
    rename_i consumer pc
    cases consumer with
    | send =>
      obtain ⟨at_,returned⟩ := ok
      obtain rfl : a = .published := by
        rcases at_ with rfl | taken
        · rfl
        · rcases inv.sent.mp sent with rfl | rfl <;> simp [Location.taken] at taken
      refine ⟨.claimed .send,inv.relocate rfl rfl ?_ (by simp) ?_ nofun,⟨rfl,returned⟩,
        goto_closes (by simp),fun _ => ⟨id,rfl,rfl,rfl,rfl,.inr ⟨rfl,rfl,nofun⟩⟩,nofun⟩
      · simpa using inv.passed
      · exact fun _ => inv.value (by simp)
    | _ => exact ok.elim
  | swapNone sent =>
    rename_i consumer pc
    cases consumer with
    | send =>
      obtain ⟨rfl | taken,returned⟩ := ok
      · simp [inv.sent.mpr (.inl rfl)] at sent
      · exact ⟨a,inv,⟨.inr taken,returned⟩,startClose_closes s _,
          fun _ => ⟨id,rfl,rfl,rfl,rfl,.inl ⟨rfl,rfl⟩⟩,nofun⟩
    | _ => exact ok.elim
  | readNone value =>
    rename_i consumer pc
    cases consumer with
    | send =>
      obtain ⟨rfl,returned⟩ := ok
      have passed := inv.value (.inr (.inr (.inr ⟨.send,rfl⟩)))
      exact absurd (inv.passed.mp (passed.symm.trans value)) nofun
    | _ => exact ok.elim
  | read value =>
    rename_i v consumer pc
    cases consumer with
    | send =>
      obtain ⟨rfl,returned⟩ := ok
      have passed := (inv.value (.inr (.inr (.inr ⟨.send,rfl⟩)))).symm.trans value
      refine ⟨.held .send,inv.relocate rfl rfl ?_ ?_ (by simp) nofun,⟨⟨rfl,passed⟩,returned⟩,
        startClose_closes _ _,fun _ => ⟨id,rfl,rfl,rfl,rfl,.inr ⟨rfl,rfl,nofun⟩⟩,nofun⟩
      · simpa using inv.passed
      · simpa using inv.sent
    | _ => exact ok.elim
  | loadTryRecv load => exact ok.elim
  | loadSend load =>
    exact ⟨a,inv,ok,goto_closes (by simp),fun _ => ⟨id,rfl,rfl,rfl,rfl,.inl ⟨rfl,rfl⟩⟩,nofun⟩
  | loadSendOpen load =>
    obtain ⟨rfl | taken,returned⟩ := ok
    · refine ⟨.handed,inv.relocate rfl rfl ?_ ?_ ?_ ?_,⟨.inl rfl,returned⟩,startClose_closes s _,
        fun _ => ⟨id,rfl,rfl,rfl,rfl,.inr ⟨rfl,rfl,fun _ => load⟩⟩,nofun⟩
      · simpa using inv.passed
      · simpa using inv.sent
      · exact fun _ => inv.value (.inr (.inl rfl))
      · intro _
        by_contra rechecked
        exact load (inv.closed (inv.rechecked (by simpa using rechecked)).1)
    · exact ⟨a,inv,⟨.inr taken,returned⟩,startClose_closes s _,
        fun _ => ⟨id,rfl,rfl,rfl,rfl,.inl ⟨rfl,rfl⟩⟩,nofun⟩
  | closing waits closes =>
    rename_i closing _ _
    refine ⟨a,waits.moves inv (waits.ok inv ok) ?_⟩
    rintro _ ⟨⟩
    exact closes (own.closes closing rfl)
  | closed waits closed =>
    rename_i middle closing _
    have shared := inv.waits waits
    have ok := waits.ok inv ok
    have stays : SendMoves a middle a middle := ⟨id,rfl,rfl,rfl,rfl,.inl ⟨rfl,rfl⟩⟩
    suffices moves : ∃ a', Moves .send a middle a' (afterClose middle closing).2
        (afterClose middle closing).1 from moves.imp fun _ => waits.trans
    cases closing with
    | sendRx => exact ⟨a,shared,ok,goto_closes (by simp),fun _ => stays,nofun⟩
    | dropTx result => exact ⟨a,shared,ok,startClose_closes _ _,fun _ => stays,nofun⟩
    | dropRx result =>
      obtain ⟨finishes,returned⟩ := ok
      rcases result with _ | v | _
      · have same : { middle with returned := none } = middle := by rw [← returned]
        refine ⟨a,?_,.inl ⟨finishes,rfl⟩,goto_closes (by simp),fun _ => ⟨id,rfl,rfl,rfl,rfl,.inl ⟨rfl,rfl⟩⟩,nofun⟩
        exact same ▸ shared
      · obtain ⟨rfl,passed⟩ := finishes
        refine ⟨.returned,⟨?_,?_,by simp,?_,?_,?_,shared.closed,?_,shared.fault⟩,.inr (.inr rfl),
          goto_closes (by simp),fun _ => ⟨id,rfl,rfl,rfl,rfl,.inr ⟨rfl,rfl,nofun⟩⟩,nofun⟩
        · simpa [afterClose] using shared.passed
        · simpa [afterClose] using shared.sent
        · simpa [afterClose] using shared.results
        · simpa [afterClose] using shared.dropped
        · simp [afterClose,passed]
        · exact fun rechecked => ⟨(shared.rechecked rechecked).1,nofun⟩
      · refine ⟨a,⟨shared.passed,shared.sent,shared.value,shared.results,shared.dropped,fun v => ?_,
          shared.closed,shared.rechecked,shared.fault⟩,.inr (.inl ⟨finishes,rfl⟩),
          goto_closes (by simp),fun _ => ⟨id,rfl,rfl,rfl,rfl,.inl ⟨rfl,rfl⟩⟩,nofun⟩
        have away : a ≠ .returned := by
          rintro rfl
          simp [Finishes,Location.taken] at finishes
        simp [afterClose,away]
    | _ => exact ok.elim

theorem recv_step {a : Location} {s s' : Oneshot ρ V} {l l' : Local ρ V} {label : Label ρ V}
    (inv : SharedInv a s) (own : ThreadInv a (.user .recv : Agent θ) s l)
    (stepped : Step s (.user .recv : Agent θ) l label l' s') : ∃ a', Moves .recv a s a' s' l' := by
  have ok := own.ok .recv rfl
  have stays (s : Oneshot ρ V) : RecvMoves a s a s := ⟨rfl,rfl,.inl rfl⟩
  cases stepped with
  | waits calm still waits =>
    refine ⟨a,waits.moves inv ?_ (calm_closes still)⟩
    rw [ok_calm_recv still]
    exact (ok_calm_recv (s := s) calm).mp ok
  | close => exact ⟨a,inv,ok,startClose_closes s _,nofun,fun _ => stays s⟩
  | dropReceiver => exact ⟨a,inv,ok,startClose_closes s _,nofun,fun _ => stays s⟩
  | write => exact ok.elim
  | storeSent => exact ok.elim
  | swapSome sent =>
    rename_i consumer pc
    have published := inv.sent.mp sent
    have shared : SharedInv (.claimed .recv) { s with sent := false } := by
      apply inv.relocate
      · rcases published with rfl | rfl <;> rfl
      · rfl
      · rcases published with rfl | rfl <;> simpa using inv.passed
      · simp
      · exact fun _ => inv.value (by rcases published with rfl | rfl <;> simp)
      · nofun
    have moves : RecvMoves a s (.claimed .recv) { s with sent := false } := by
      refine ⟨rfl,rfl,.inr ⟨?_,?_,rfl⟩⟩
      all_goals rcases published with rfl | rfl <;> simp
    cases consumer with
    | tryRecv call => exact ⟨_,shared,rfl,goto_closes (by simp),nofun,fun _ => moves⟩
    | drop => exact ⟨_,shared,⟨rfl,ok.2⟩,goto_closes (by simp),nofun,fun _ => moves⟩
    | send => exact ok.elim
  | swapNone sent =>
    rename_i consumer pc
    have away : a ≠ .handed := by
      rintro rfl
      simp [inv.sent.mpr (.inr rfl)] at sent
    cases consumer with
    | tryRecv call => exact ⟨a,inv,⟨ok,fun _ => away⟩,goto_closes (by simp),nofun,fun _ => stays s⟩
    | drop =>
      refine ⟨a,inv,⟨ok.2,away,?_,?_⟩,goto_closes (by simp),nofun,fun _ => stays s⟩
      · rintro rfl
        exact absurd ok.1 nofun
      · rintro rfl
        exact absurd ok.1 nofun
    | send => exact ok.elim
  | readNone value =>
    rename_i consumer pc
    have claimed : a = .claimed .recv := by
      cases consumer with
      | tryRecv call => exact ok
      | drop => exact ok.1
      | send => exact ok.elim
    subst claimed
    have passed := inv.value (by simp)
    exact absurd (inv.passed.mp (passed.symm.trans value)) nofun
  | read value =>
    rename_i v consumer pc
    cases consumer with
    | tryRecv call =>
      obtain rfl : a = .claimed .recv := ok
      have passed := (inv.value (by simp)).symm.trans value
      refine ⟨.held .recv,inv.relocate rfl rfl ?_ ?_ (by simp) nofun,⟨rfl,passed⟩,
        startClose_closes _ _,nofun,fun _ => ⟨rfl,rfl,.inr ⟨.inr (.inr rfl),nofun,rfl⟩⟩⟩
      · simpa using inv.passed
      · simpa using inv.sent
    | drop =>
      obtain ⟨rfl,tx⟩ := ok
      have passed := (inv.value (by simp)).symm.trans value
      refine ⟨.dropped,⟨?_,?_,by simp,?_,?_,?_,inv.closed,?_,inv.fault⟩,⟨tx,nofun,nofun,nofun⟩,
        goto_closes (by simp),nofun,fun _ => ⟨rfl,rfl,.inr ⟨.inr (.inr rfl),nofun,rfl⟩⟩⟩
      · simpa [afterSome] using inv.passed
      · simpa [afterSome] using inv.sent
      · simpa [afterSome] using inv.results
      · simpa [afterSome,passed] using inv.dropped
      · simpa [afterSome] using inv.returned
      · exact fun rechecked => ⟨(inv.rechecked rechecked).1,nofun⟩
    | send => exact ok.elim
  | loadTryRecv load =>
    rename_i error call pc
    refine ⟨a,⟨inv.passed,inv.sent,inv.value,?_,inv.dropped,inv.returned,inv.closed,?_,inv.fault⟩,
      ok.1,goto_closes (by simp),nofun,fun _ => ⟨rfl,rfl,.inl rfl⟩⟩
    · simpa [finishRecv] using inv.results
    · intro rechecked
      simp only [finishRecv,Bool.or_eq_true,Bool.and_eq_true] at rechecked
      rcases rechecked with before | ⟨_,closed⟩
      · exact inv.rechecked before
      · exact ⟨closed,ok.2 closed⟩
  | loadSend load => exact ok.elim
  | loadSendOpen load => exact ok.elim
  | closing waits closes =>
    rename_i closing _ _
    refine ⟨a,waits.moves inv (waits.ok inv ok) ?_⟩
    rintro _ ⟨⟩
    exact closes (own.closes closing rfl)
  | closed waits closed =>
    rename_i middle closing _
    have closed := closed (own.closes closing rfl)
    have shared := inv.waits waits
    have ok := waits.ok inv ok
    suffices moves : ∃ a', Moves .recv a middle a' (afterClose middle closing).2
        (afterClose middle closing).1 from moves.imp fun _ => waits.trans
    cases closing with
    | received call v =>
      obtain ⟨rfl,passed⟩ := ok
      refine ⟨.received,⟨?_,?_,by simp,?_,?_,?_,shared.closed,?_,shared.fault⟩,rfl,
        goto_closes (by simp),nofun,fun _ => ⟨rfl,rfl,.inr ⟨.inr (.inr rfl),nofun,rfl⟩⟩⟩
      · simpa [afterClose,finishRecv] using shared.passed
      · simpa [afterClose,finishRecv] using shared.sent
      · simpa [afterClose,finishRecv,passed] using shared.results
      · simpa [afterClose,finishRecv] using shared.dropped
      · simpa [afterClose,finishRecv] using shared.returned
      · intro rechecked
        simp only [afterClose,finishRecv,Bool.or_eq_true,Bool.and_eq_true] at rechecked
        rcases rechecked with before | ⟨_,closed⟩
        · exact ⟨(shared.rechecked before).1,nofun⟩
        · exact ⟨closed,nofun⟩
    | closeTx => exact ⟨a,shared,⟨ok,closed⟩,startClose_closes _ _,nofun,fun _ => stays middle⟩
    | closeRx =>
      exact ⟨a,⟨shared.passed,shared.sent,shared.value,shared.results,shared.dropped,
        shared.returned,fun _ => ok.2,fun rechecked => ⟨rfl,(shared.rechecked rechecked).2⟩,
        shared.fault⟩,ok.1,goto_closes (by simp),nofun,fun _ => ⟨rfl,rfl,.inl rfl⟩⟩
    | dropReceiver =>
      exact ⟨a,shared,⟨ok,closed⟩,goto_closes (by simp),nofun,fun _ => stays middle⟩
    | _ => exact ok.elim

/-- The marks of other closes do not disturb a close. -/
theorem Local.Closes.keep {s s' : Oneshot ρ V} {l : Local ρ V} (closes : l.Closes s)
    (marks : ∀ side, (s.waiters side).waiter = .closed → (s'.waiters side).waiter = .closed) :
    l.Closes s' := by
  intro closing main
  have before := closes closing main
  rcases l with ⟨_,pc⟩
  cases pc with
  | wake prev value => exact marks _ before
  | load update => rcases update with r | ⟨value,_ | _⟩ <;> exact before
  | exchange update prev => rcases update with r | ⟨value,_ | _⟩ <;> exact before
  | _ => exact before

theorem init_holds : outline.Holds .unsent (init : Config θ ρ V) := by
  refine ⟨?_,fun agent => ?_⟩
  · constructor <;> simp [init,new,oks]
  · refine ⟨fun side same => ?_,goto_closes (by simp),goto_sound ?_ rfl⟩
    · cases side with
      | send => exact ⟨rfl,rfl⟩
      | recv => rfl
    · cases agent <;> trivial

theorem keeps_of_moves {a a' : Location} {c : Config θ ρ V} {side : Side} {s' : Oneshot ρ V}
    {l l' : Local ρ V} {label : Label ρ V} (holds : outline.Holds a c)
    (stepped : Step c.shared (.user side : Agent θ) l label l' s')
    (moves : Moves side a c.shared a' s' l') (sound : Sound (.user side : Agent θ) l') :
    outline.Keeps a a' (.user side) s' l' c := by
  refine ⟨moves.shared,⟨?_,moves.closes,sound⟩,fun other ne => ?_⟩
  · rintro _ ⟨⟩
    exact moves.ok
  · have before := holds.2 other
    refine ⟨fun otherSide same => ?_,before.closes.keep stepped.marks,before.sound⟩
    subst same
    have ok := before.ok otherSide rfl
    cases side <;> cases otherSide
    · exact absurd rfl ne
    · exact (moves.send rfl).ok holds.1 ok
    · exact (moves.recv rfl).ok ok
    · exact absurd rfl ne

variable [DecidableEq θ] [DecidableEq ρ]

/-- One step: what its agent does, and where the value is afterwards. -/
theorem step_moves {a : Location} {c : Config θ ρ V} {agent : Agent θ} {label : Label ρ V}
    {l' : Local ρ V} {s' : Oneshot ρ V} (holds : outline.Holds a c)
    (ran : prog agent label (c.locals agent) c.shared = some (l',s')) :
    Step c.shared agent (c.locals agent) label l' s' ∧
      ∃ a', outline.Holds a' ⟨s',Function.update c.locals agent l'⟩ ∧
        (∀ side, agent = .user side → Moves side a c.shared a' s' l') ∧
        ((∃ t, agent = .other t) → a' = a ∧ Waits none c.shared s') := by
  have own := holds.2 agent
  obtain ⟨stepped,sound⟩ := prog_step own.sound ran
  refine ⟨stepped,?_⟩
  cases agent with
  | user side =>
    obtain ⟨a',moves⟩ : ∃ a', Moves side a c.shared a' s' l' := by
      cases side with
      | send => exact send_step holds.1 own stepped
      | recv => exact recv_step holds.1 own stepped
    refine ⟨a',(keeps_of_moves holds stepped moves sound).holds,?_,nofun⟩
    rintro _ ⟨⟩
    exact moves
  | other t =>
    obtain ⟨waits,main⟩ := stepped.other_waits (fits_other own.sound.fits)
    refine ⟨a,Threads.Outline.Keeps.holds (a := a)
      ⟨holds.1.waits waits,⟨nofun,?_,sound⟩,fun other ne => ?_⟩,nofun,fun _ => ⟨rfl,waits⟩⟩
    · intro closing at_
      rcases main with idle | ⟨side,cancel⟩
      · exact absurd (at_.symm.trans idle) nofun
      · exact absurd (at_.symm.trans cancel) nofun
    · have before := holds.2 other
      exact ⟨fun side same => waits.ok holds.1 (before.ok side same),
        before.closes.keep stepped.marks,before.sound⟩

end XxCore.Sync.Oneshot
