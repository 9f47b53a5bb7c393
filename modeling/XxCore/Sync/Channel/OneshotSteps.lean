import XxCore.Sync.AtomicWaiterResolve
import XxCore.Sync.Channel.Oneshot

/-! The steps of the oneshot channel as a relation. The steps of a waiter are seen only through
the mark that it is closed. -/
namespace XxCore.Sync.Oneshot

variable {θ ρ V : Type}

def TxClosed (s : Oneshot ρ V) : Prop := (s.waiters .send).waiter = .closed

/-- Only the waiters change. Those that are closed stay so, and none but `closing` gets closed. -/
def Waits (closing : Option Side) (s s' : Oneshot ρ V) : Prop :=
  ∃ waiters, s' = { s with waiters } ∧
    (∀ side, (s.waiters side).waiter = .closed → (waiters side).waiter = .closed) ∧
    ∀ side, closing ≠ some side → (waiters side).waiter = .closed → (s.waiters side).waiter = .closed

theorem Waits.refl (s : Oneshot ρ V) : Waits none s s := ⟨s.waiters,rfl,fun _ => id,fun _ _ => id⟩

/-- The program points of a handle that is used neither for a value nor for a close. -/
def Main.calm : Side → Main ρ V → Bool
  | _, .idle | _, .checkInterrupt _ | _, .suspend _ _ | _, .parked _ _ => true
  | .send, .loadClosed .isClosed => true
  | .recv, .swap (.tryRecv _) => true
  | _, _ => false

theorem setWaiter_waits {s : Oneshot ρ V} {side : Side} {waiter : AtomicWaiter ρ Unit}
    {closing : Option Side} (stays : (s.waiters side).waiter = .closed → waiter.waiter = .closed)
    (opened : closing ≠ some side → waiter.waiter = .closed → (s.waiters side).waiter = .closed) :
    Waits closing s (s.setWaiter side waiter) := by
  refine ⟨_,rfl,fun other closed => ?_,fun other none closed => ?_⟩
  all_goals by_cases same : other = side
  · subst same
    simpa using stays closed
  · simpa [same] using closed
  · subst same
    exact opened none (by simpa using closed)
  · simpa [same] using closed

/-- Everything an agent can do in one step. -/
inductive Step (s : Oneshot ρ V) :
    Agent θ → Local ρ V → Label ρ V → Local ρ V → Oneshot ρ V → Prop where
  | waits (calm : l.main.calm side = true) (still : l'.main.calm side = true) (waits : Waits none s s') :
    Step s (.user side) l label l' s'
  | other (waits : Waits none s s') (main : l'.main = .idle ∨ ∃ side, l'.main = .cancel side) :
    Step s (.other t) l label l' s'
  | close : Step s (.user .recv) ⟨.idle,pc⟩ (.call .close) (startClose .closeTx) s
  | dropReceiver : Step s (.user .recv) ⟨.idle,pc⟩ label (startClose .dropReceiver) s
  | send : Step s (.user .send) ⟨.idle,pc⟩ label (goto (.write v)) { s with passed := some v }
  | dropSender : Step s (.user .send) ⟨.idle,pc⟩ label (startClose (.dropTx none)) s
  | write : Step s agent ⟨.write v,pc⟩ label (goto .storeSent) { s with value := some v }
  | storeSent : Step s agent ⟨.storeSent,pc⟩ label (startClose .sendRx) { s with sent := true }
  | swapSome (sent : s.sent = true) :
    Step s agent ⟨.swap consumer,pc⟩ label (goto (.read consumer)) { s with sent := false }
  | swapNone (sent : s.sent = false) : Step s agent ⟨.swap consumer,pc⟩ label (afterNone consumer) s
  | readNone (value : s.value = none) :
    Step s agent ⟨.read consumer,pc⟩ label ⟨.read consumer,pc⟩ { s with fault := true }
  | read (value : s.value = some v) : Step s agent ⟨.read consumer,pc⟩ label
      (afterSome { s with value := none } v consumer).1
      (afterSome { s with value := none } v consumer).2
  | loadTryRecv (load : error = .closed ↔ TxClosed s) : Step s agent
      ⟨.loadClosed (.tryRecv call),pc⟩ label (goto .idle) (s.finishRecv call (.error error))
  | loadSend (load : TxClosed s) :
    Step s agent ⟨.loadClosed .send,pc⟩ label (goto (.swap .send)) s
  | loadSendOpen (load : ¬ TxClosed s) :
    Step s agent ⟨.loadClosed .send,pc⟩ label (startClose (.dropTx (some (.ok ())))) s
  | closing {s' : Oneshot ρ V} {closing : Closing V} {pc pc' : AtomicWaiter.Pc ρ Unit}
      (waits : Waits (some closing.side) s s') (closes : AtomicWaiter.Closes (s.waiters closing.side) pc →
      AtomicWaiter.Closes (s'.waiters closing.side) pc') :
    Step s agent ⟨.close closing,pc⟩ label ⟨.close closing,pc'⟩ s'
  | closed {s' : Oneshot ρ V} {closing : Closing V} {pc : AtomicWaiter.Pc ρ Unit}
      (waits : Waits (some closing.side) s s') (closed : AtomicWaiter.Closes (s.waiters closing.side) pc →
      (s'.waiters closing.side).waiter = .closed) :
    Step s agent ⟨.close closing,pc⟩ label (afterClose s' closing).1 (afterClose s' closing).2

/-- Nothing reopens a waiter. -/
theorem Step.marks {s s' : Oneshot ρ V} {agent : Agent θ} {l l' : Local ρ V} {label : Label ρ V}
    (stepped : Step s agent l label l' s') (side : Side)
    (closed : (s.waiters side).waiter = .closed) : (s'.waiters side).waiter = .closed := by
  cases stepped with
  | waits _ _ waits => obtain ⟨_,rfl,stays,_⟩ := waits; exact stays side closed
  | other waits => obtain ⟨_,rfl,stays,_⟩ := waits; exact stays side closed
  | closing waits => obtain ⟨_,rfl,stays,_⟩ := waits; exact stays side closed
  | closed waits =>
    rename_i closing _ _
    obtain ⟨_,rfl,stays,_⟩ := waits
    cases closing <;> exact stays side closed
  | read value =>
    rename_i consumer _
    cases consumer <;> exact closed
  | _ => exact closed

/-- The program points that `start` and the waits lead to, for each agent. -/
def Main.fits : Agent θ → Main ρ V → Prop
  | .user side, .checkInterrupt other | .user side, .suspend other _
  | .user side, .parked other _ => side = other
  | .user side, .loadClosed .isClosed => side = .send
  | .user _, .cancel _ => False
  | .user _, _ => True
  | .other _, .idle | .other _, .cancel _ => True
  | .other _, _ => False

def Main.waiting : Main ρ V → Bool
  | .suspend _ _ | .cancel _ => true
  | _ => false

/-- The sub-call of a local state goes with its program point. -/
structure Sound (agent : Agent θ) (l : Local ρ V) : Prop where
  opened : l.waiter.Opened
  fits : l.main.fits agent
  quiet : l.main.waiting = true → l.waiter.quiet = true

theorem fits_other {t : θ} {main : Main ρ V} (fits : main.fits (.other t)) :
    main = .idle ∨ ∃ side, main = .cancel side := by
  cases main <;> simp_all [Main.fits]

/-- A thread that interrupts a task only runs its cancel. -/
theorem Step.other_waits {s s' : Oneshot ρ V} {t : θ} {l l' : Local ρ V} {label : Label ρ V}
    (stepped : Step s (.other t) l label l' s') (fits : l.main = .idle ∨ ∃ side, l.main = .cancel side) :
    Waits none s s' ∧ (l'.main = .idle ∨ ∃ side, l'.main = .cancel side) := by
  cases stepped with
  | other waits main => exact ⟨waits,main⟩
  | _ => simp at fits

theorem calm_afterWait (side : Side) : (afterWait side : Main ρ V).calm side = true := by
  cases side <;> rfl

theorem fits_afterWait (side : Side) : (afterWait side : Main ρ V).fits (.user side : Agent θ) := by
  cases side <;> trivial

theorem goto_sound {agent : Agent θ} {main : Main ρ V} (fits : main.fits agent)
    (still : main.waiting = false) : Sound agent (goto main) :=
  ⟨by simp [goto,AtomicWaiter.Pc.Opened],fits,by simp [goto,still]⟩

theorem startClose_sound (side : Side) (closing : Closing V) :
    Sound (.user side : Agent θ) (startClose closing : Local ρ V) :=
  ⟨by simp [startClose,AtomicWaiter.Pc.Opened],trivial,nofun⟩

theorem afterWait_sound (side : Side) :
    Sound (.user side : Agent θ) (goto (afterWait side) : Local ρ V) :=
  goto_sound (fits_afterWait side) (by cases side <;> rfl)

variable [DecidableEq ρ]

theorem startSuspend_waits {s s' : Oneshot ρ V} {side : Side} {request : ρ} {l' : Local ρ V}
    (started : startSuspend s side request = some (l',s')) :
    Waits none s s' ∧ l'.main = .suspend side request ∧ Sound (.user side : Agent θ) l' := by
  obtain ⟨p,begun,eq⟩ := Option.map_eq_some_iff.mp started
  obtain ⟨rfl,rfl⟩ := Prod.mk.inj eq
  rw [AtomicWaiter.start,Option.ite_none_left_eq_some] at begun
  obtain rfl := Option.some.inj begun.2
  exact ⟨setWaiter_waits id fun _ => id,rfl,by simp [AtomicWaiter.Pc.Opened],rfl,fun _ => rfl⟩

theorem runWaiter_step {s s' : Oneshot ρ V} {agent : Agent θ} {side : Side}
    {label : AtomicWaiter.Label ρ Unit} {l l' : Local ρ V}
    (ran : runWaiter agent side label l s = some (l',s')) :
    l'.main = l.main ∧ s' = s.setWaiter side (s'.waiters side) ∧
      AtomicWaiter.Step (s.waiters side) l.waiter label l'.waiter (s'.waiters side) := by
  obtain ⟨p,begun,eq⟩ := Option.map_eq_some_iff.mp ran
  obtain ⟨rfl,rfl⟩ := Prod.mk.inj eq
  refine ⟨rfl,by simp [setWaiter],?_⟩
  simpa [setWaiter] using AtomicWaiter.prog_step begun

/-- A step of `suspend` or of a cancel. -/
theorem runWaiter_quiet {s s' : Oneshot ρ V} {agent : Agent θ} {side : Side}
    {label : AtomicWaiter.Label ρ Unit} {l l' : Local ρ V} (opened : l.waiter.Opened)
    (quiet : l.waiter.quiet = true) (ran : runWaiter agent side label l s = some (l',s')) :
    Waits none s s' ∧ l'.main = l.main ∧ l'.waiter.Opened ∧
      (l'.waiter.quiet = true ∨ ∃ value, l'.waiter = .returned value) := by
  obtain ⟨main,eq,stepped⟩ := runWaiter_step ran
  have waits : Waits none s (s.setWaiter side (s'.waiters side)) :=
    setWaiter_waits (AtomicWaiter.step_closed stepped opened) fun _ => (stepped.quiet quiet).2
  rw [← eq] at waits
  exact ⟨waits,main,stepped.opened,(stepped.quiet quiet).1⟩

theorem start_step {s s' : Oneshot ρ V} {agent : Agent θ} {call : Call ρ V} {l' : Local ρ V}
    {pc : AtomicWaiter.Pc ρ Unit} (started : start s agent call = some (l',s')) :
    Step s agent ⟨.idle,pc⟩ (.call call) l' s' ∧ Sound agent l' := by
  unfold start at started
  split at started
  case h_3 request =>
    obtain ⟨waits,main,sound⟩ := startSuspend_waits started
    exact ⟨.waits rfl (by rw [main]; rfl) waits,sound⟩
  case h_10 side request =>
    obtain ⟨p,begun,eq⟩ := Option.map_eq_some_iff.mp started
    obtain ⟨rfl,rfl⟩ := Prod.mk.inj eq
    rw [AtomicWaiter.start,Option.ite_none_right_eq_some] at begun
    obtain rfl := Option.some.inj begun.2
    exact ⟨.other (setWaiter_waits id fun _ => id) (.inr ⟨side,rfl⟩),by simp [AtomicWaiter.Pc.Opened],trivial,
      fun _ => rfl⟩
  case h_11 => contradiction
  all_goals obtain ⟨rfl,rfl⟩ := Prod.mk.inj (Option.some.inj started)
  · exact ⟨.waits rfl rfl (.refl s),goto_sound trivial rfl⟩
  · exact ⟨.waits rfl rfl (.refl s),goto_sound rfl rfl⟩
  · exact ⟨.close,startClose_sound ..⟩
  · exact ⟨.dropReceiver,startClose_sound ..⟩
  · exact ⟨.send,goto_sound trivial rfl⟩
  · exact ⟨.waits rfl rfl (.refl s),goto_sound rfl rfl⟩
  · exact ⟨.waits rfl rfl (.refl s),goto_sound rfl rfl⟩
  · exact ⟨.dropSender,startClose_sound ..⟩

/-- The steps of `suspend`. -/
theorem suspend_step {s s' : Oneshot ρ V} {agent : Agent θ} {side : Side} {request : ρ}
    {label : AtomicWaiter.Label ρ Unit} {l l' : Local ρ V} (sound : Sound agent l)
    (main : l.main = .suspend side request)
    (stepped : (runWaiter agent side label l s).map (fun p =>
      match p.1.waiter with
      | .returned .pending => (goto (.parked side request),p.2)
      | .returned _ => (goto (afterWait side),p.2)
      | _ => p) = some (l',s')) :
    Step s agent l (.waiter label) l' s' ∧ Sound agent l' := by
  obtain ⟨p,ran,eq⟩ := Option.map_eq_some_iff.mp stepped
  obtain ⟨waits,same,opened,quiet⟩ :=
    runWaiter_quiet sound.opened (sound.quiet (by rw [main]; rfl)) ran
  have fits := sound.fits
  rw [main] at fits same
  cases agent with
  | other t => exact fits.elim
  | user own =>
    obtain rfl : own = side := fits
    split at eq
    · obtain ⟨rfl,rfl⟩ := Prod.mk.inj eq
      exact ⟨.waits (by rw [main]; rfl) rfl waits,goto_sound rfl rfl⟩
    · obtain ⟨rfl,rfl⟩ := Prod.mk.inj eq
      exact ⟨.waits (by rw [main]; rfl) (calm_afterWait own) waits,afterWait_sound own⟩
    · rename_i running
      obtain ⟨rfl,rfl⟩ := Prod.mk.inj eq
      refine ⟨.waits (by rw [main]; rfl) (by rw [same]; rfl) waits,opened,by rw [same]; rfl,fun _ => ?_⟩
      rcases quiet with quiet | ⟨value,returned⟩
      · exact quiet
      · exact absurd returned (running value)

/-- The steps of a cancel. -/
theorem cancel_step {s s' : Oneshot ρ V} {agent : Agent θ} {side : Side}
    {label : AtomicWaiter.Label ρ Unit} {l l' : Local ρ V} (sound : Sound agent l)
    (main : l.main = .cancel side)
    (stepped : (runWaiter agent side label l s).map (fun p =>
      match p.1.waiter with
      | .returned _ => (goto .idle,p.2)
      | _ => p) = some (l',s')) :
    Step s agent l (.waiter label) l' s' ∧ Sound agent l' := by
  obtain ⟨p,ran,eq⟩ := Option.map_eq_some_iff.mp stepped
  obtain ⟨waits,same,opened,quiet⟩ :=
    runWaiter_quiet sound.opened (sound.quiet (by rw [main]; rfl)) ran
  have fits := sound.fits
  rw [main] at fits same
  cases agent with
  | user own => exact fits.elim
  | other t =>
    split at eq
    · obtain ⟨rfl,rfl⟩ := Prod.mk.inj eq
      exact ⟨.other waits (.inl rfl),goto_sound trivial rfl⟩
    · rename_i running
      obtain ⟨rfl,rfl⟩ := Prod.mk.inj eq
      refine ⟨.other waits (.inr ⟨side,same⟩),opened,by rw [same]; trivial,fun _ => ?_⟩
      rcases quiet with quiet | ⟨value,returned⟩
      · exact quiet
      · exact absurd returned (running value)

/-- The steps of a close. -/
theorem close_step {s s' : Oneshot ρ V} {side : Side} {closing : Closing V}
    {label : AtomicWaiter.Label ρ Unit} {pc : AtomicWaiter.Pc ρ Unit} {l' : Local ρ V}
    (opened : pc.Opened)
    (stepped : (runWaiter (.user side : Agent θ) closing.side label ⟨.close closing,pc⟩ s).map
      (fun p =>
        match p.1.waiter with
        | .returned _ => afterClose p.2 closing
        | _ => p) = some (l',s')) :
    Step s (.user side : Agent θ) ⟨.close closing,pc⟩ (.waiter label) l' s' ∧
      Sound (.user side : Agent θ) l' := by
  obtain ⟨⟨⟨main,pc'⟩,middle⟩,ran,eq⟩ := Option.map_eq_some_iff.mp stepped
  obtain ⟨same,changed,moved⟩ := runWaiter_step ran
  obtain rfl : main = _ := same
  have waits : Waits (some closing.side) s (s.setWaiter closing.side (middle.waiters closing.side)) :=
    setWaiter_waits (AtomicWaiter.step_closed moved opened) fun ne => absurd rfl ne
  rw [← changed] at waits
  split at eq
  · rename_i value returned
    obtain rfl : pc' = _ := returned
    obtain rfl : l' = _ := (congrArg Prod.fst eq).symm
    obtain rfl : s' = _ := (congrArg Prod.snd eq).symm
    refine ⟨.closed waits fun closes => ?_,?_⟩
    · rcases moved.closes closes with running | ⟨_,closed⟩
      · exact running.elim
      · exact closed
    · cases closing with
      | closeTx => exact startClose_sound ..
      | dropTx result => exact startClose_sound ..
      | _ => exact goto_sound trivial rfl
  · rename_i running
    obtain ⟨rfl,rfl⟩ := Prod.mk.inj eq
    refine ⟨.closing waits fun closes => ?_,moved.opened,trivial,nofun⟩
    rcases moved.closes closes with running | ⟨⟨value,returned⟩,_⟩
    · exact running
    · exact absurd returned (running value)

theorem load_step {s s' : Oneshot ρ V} {side : Side} {check : Check} {label : Label ρ V}
    {pc : AtomicWaiter.Pc ρ Unit} {l' : Local ρ V}
    (fits : (.loadClosed check : Main ρ V).fits (.user side : Agent θ))
    (stepped : afterLoad s (decide ((s.waiters .send).waiter = .closed)) check = (l',s')) :
    Step s (.user side : Agent θ) ⟨.loadClosed check,pc⟩ label l' s' ∧
      Sound (.user side : Agent θ) l' := by
  cases check with
  | tryRecv call =>
    obtain ⟨rfl,rfl⟩ := Prod.mk.inj stepped
    refine ⟨.loadTryRecv ?_,goto_sound trivial rfl⟩
    simp [RecvError.new,TxClosed]
  | send =>
    rw [afterLoad] at stepped
    split at stepped
    all_goals
      rename_i load
      rw [decide_eq_true_eq] at load
      obtain ⟨rfl,rfl⟩ := Prod.mk.inj stepped
    · exact ⟨.loadSend load,goto_sound trivial rfl⟩
    · exact ⟨.loadSendOpen load,startClose_sound ..⟩
  | isClosed =>
    obtain rfl : side = .send := fits
    obtain ⟨rfl,rfl⟩ := Prod.mk.inj stepped
    exact ⟨.waits rfl rfl (.refl s),goto_sound trivial rfl⟩

theorem prog_step {s s' : Oneshot ρ V} {agent : Agent θ} {label : Label ρ V} {l l' : Local ρ V}
    (sound : Sound agent l) (stepped : prog agent label l s = some (l',s')) :
    Step s agent l label l' s' ∧ Sound agent l' := by
  rcases l with ⟨main,pc⟩
  unfold prog at stepped
  split at stepped
  case h_1 => rename_i at_; obtain rfl : main = _ := at_; exact start_step stepped
  case h_4 => contradiction
  case h_5 => rename_i at_; exact suspend_step sound at_ stepped
  case h_7 => rename_i at_; exact cancel_step sound at_ stepped
  case h_14 => contradiction
  all_goals
    rename_i at_
    obtain rfl : main = _ := at_
    cases agent with
    | other t => exact sound.fits.elim
    | user own => ?_
  · obtain rfl : own = _ := sound.fits
    obtain ⟨rfl,rfl⟩ := Prod.mk.inj (Option.some.inj stepped)
    exact ⟨.waits rfl (calm_afterWait own) (.refl s),afterWait_sound own⟩
  · obtain rfl : own = _ := sound.fits
    obtain ⟨waits,main,sound⟩ := startSuspend_waits stepped
    exact ⟨.waits rfl (by rw [main]; rfl) waits,sound⟩
  · obtain rfl : own = _ := sound.fits
    rw [Option.ite_none_left_eq_some] at stepped
    obtain ⟨rfl,rfl⟩ := Prod.mk.inj (Option.some.inj stepped.2)
    exact ⟨.waits rfl (calm_afterWait own) (setWaiter_waits id fun _ => id),afterWait_sound own⟩
  · obtain ⟨rfl,rfl⟩ := Prod.mk.inj (Option.some.inj stepped)
    exact ⟨.write,goto_sound trivial rfl⟩
  · obtain ⟨rfl,rfl⟩ := Prod.mk.inj (Option.some.inj stepped)
    exact ⟨.storeSent,startClose_sound ..⟩
  · rename_i consumer
    obtain ⟨rfl,rfl⟩ := Prod.mk.inj (Option.some.inj stepped)
    cases sent : s.sent with
    | true => exact ⟨.swapSome sent,goto_sound trivial rfl⟩
    | false =>
      have same : { s with sent := false } = s := by rw [← sent]
      rw [same]
      refine ⟨.swapNone sent,?_⟩
      cases consumer with
      | send => exact startClose_sound ..
      | _ => exact goto_sound trivial rfl
  · rename_i consumer
    split at stepped
    all_goals rename_i value
    · obtain ⟨rfl,rfl⟩ := Prod.mk.inj (Option.some.inj stepped)
      exact ⟨.readNone value,sound⟩
    · have eq := Option.some.inj stepped
      obtain rfl : l' = _ := (congrArg Prod.fst eq).symm
      obtain rfl : s' = _ := (congrArg Prod.snd eq).symm
      refine ⟨.read value,?_⟩
      cases consumer with
      | drop => exact goto_sound trivial rfl
      | _ => exact startClose_sound ..
  · exact load_step sound.fits (Option.some.inj stepped)
  · exact close_step sound.opened stepped

end XxCore.Sync.Oneshot
