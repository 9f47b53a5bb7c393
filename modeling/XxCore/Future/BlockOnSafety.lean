import XxCore.Future.BlockOn

/-! When `block_on_sync` may read the output: its state is `Done` once a wait of `notify` has
returned true, but not once `thread::park` has returned. -/
namespace XxCore.Future

open Os Transition

variable {α : Type} {s next : State α} {os : Bool}

/-- The callback has stored the value that the future was completed with. -/
def Stored (s : State α) : Prop := ∃ value, s.block = .done value ∧ s.completed = some value

/-- `output` is reached with the value stored, never in state `Pending`, and what is returned is
what the future was completed with. -/
structure Sound (s : State α) : Prop where
  output : s.blocker = .output → Stored s
  defined : s.blocker ≠ .undefined
  returned : ∀ value, s.blocker = .returned value → s.completed = some value

/-- The state is the callback's: it is `Pending` before the callback and `Done` after. -/
structure Completes (s : State α) : Prop where
  pending : s.callback = .idle → s.block = .pending
  stored : s.callback ≠ .idle → Stored s
  none : s.callback = .idle → (∀ value, s.blocker ≠ .returned value) → s.completed = none

/-- `notify` between the steps of the two parties: the blocking thread only waits on it, a mark is
stored only by the callback, and the calls are where their parties are. -/
structure Notifies (s : State α) : Prop where
  reached : ∃ labels, Path (Futex.step .blocker) anyStep Futex.init labels s.notify
  waits : ∀ cancel, s.blocker = .waiting cancel → (s.notify.locals .blocker).waits = true
  marked : ∀ u, .notified u ∈ s.notify.shared.log → Stored s

/-- A step of one party on `notify`. -/
theorem Notifies.advance {notify : Futex.Config Party} {party : Party} {label : Futex.Label}
    (notifies : Notifies s) (stepped : Futex.step .blocker s.notify (party,label) = some notify)
    (own : party = .blocker → s.notify.locals .blocker ≠ .swapNotified)
    (stored : party = .callback → Stored s) :
    (∃ labels, Path (Futex.step .blocker) anyStep Futex.init labels notify) ∧
      ∀ u, .notified u ∈ notify.shared.log → Stored s := by
  obtain ⟨labels,path⟩ := notifies.reached
  refine ⟨⟨_,path.append (.cons trivial stepped .nil)⟩,fun u marked => ?_⟩
  obtain ⟨pc',s',ran,rfl⟩ := Threads.step_eq_some.mp stepped
  rcases (Futex.prog_step ran).marks marked with before | at_
  · exact notifies.marked u before
  · cases party with
    | blocker => exact absurd at_ (own rfl)
    | callback => exact stored rfl

/-- The blocking thread goes on without having returned before. -/
theorem Completes.move {blocker : Blocker α} {notify : Futex.Config Party} {token : Bool}
    (completes : Completes s) (before : ∀ value, s.blocker ≠ .returned value) :
    Completes { s with blocker, notify, token } :=
  ⟨completes.pending,completes.stored,fun idle _ => completes.none idle before⟩

/-- A place of the blocking thread that needs nothing. -/
theorem Sound.elsewhere (output : s.blocker ≠ .output) (defined : s.blocker ≠ .undefined)
    (returned : ∀ value, s.blocker ≠ .returned value) : Sound s :=
  ⟨fun at_ => absurd at_ output,defined,fun value at_ => absurd at_ (returned value)⟩

/-- What every step keeps in the configuration with `os`. -/
structure OsInv (s : State α) : Prop where
  completes : Completes s
  sound : Sound s
  notifies : Notifies s

theorem OsInv.enter {cancel : Bool} (inv : OsInv s) (before : ∀ value, s.blocker ≠ .returned value)
    (entered : enter true s cancel = some next) : OsInv next := by
  obtain ⟨notify,called,done⟩ := Option.bind_eq_some_iff.mp entered
  obtain rfl := Option.some.inj done
  have free : s.notify.locals .blocker ≠ .swapNotified ∧ (notify.locals .blocker).waits = true := by
    obtain ⟨pc',s',ran,rfl⟩ := Threads.step_eq_some.mp called
    have moved := Futex.prog_step ran
    simp only [Function.update_self]
    generalize s.notify.locals .blocker = pc at moved
    cases moved with
    | wait free => exact ⟨fun at_ => by simp [at_,Futex.Pc.isFree] at free,rfl⟩
  obtain ⟨reached,marked⟩ := inv.notifies.advance called (fun _ => free.1) (by simp)
  exact ⟨inv.completes.move before,.elsewhere (by simp) (by simp) (by simp),
    ⟨reached,fun _ _ => free.2,marked⟩⟩

/-- A wait that has returned true has seen the mark of the callback. -/
theorem OsInv.wait {label : Futex.Label} {notify : Futex.Config Party} {cancel : Bool} (inv : OsInv s)
    (waiting : s.blocker = .waiting cancel)
    (stepped : Futex.step .blocker s.notify (.blocker,label) = some notify)
    (went : afterWait { s with notify } cancel = some next) : OsInv next := by
  have before : ∀ value, s.blocker ≠ .returned value := by simp [waiting]
  have waits := inv.notifies.waits cancel waiting
  obtain ⟨reached,marked⟩ := inv.notifies.advance stepped
    (fun _ at_ => by simp [at_,Futex.Pc.waits] at waits) (by simp)
  obtain ⟨stays,ended⟩ : ((notify.locals .blocker).waits = true ∨
      ∃ result, notify.locals .blocker = .returned (.waited result)) ∧
      ∀ result, notify.locals .blocker = .returned (.waited result) →
        notify.shared.log = .waited result :: s.notify.shared.log := by
    obtain ⟨pc',s',ran,rfl⟩ := Threads.step_eq_some.mp stepped
    have moved := Futex.prog_step ran
    simp only [Function.update_self]
    exact ⟨moved.stays waits,fun result => moved.waited⟩
  unfold afterWait at went
  split at went
  next at_ =>
    obtain rfl := Option.some.inj went
    have stored : Stored s := by
      obtain ⟨labels,path⟩ := reached
      obtain ⟨u,since,earlier,shape,_⟩ :=
        (Futex.notify_exact path).invented [] _ (ended _ at_)
      exact inv.notifies.marked u (by simp [shape])
    exact ⟨inv.completes.move before,⟨fun _ => stored,by simp,by simp⟩,
      ⟨reached,by simp,marked⟩⟩
  next at_ =>
    have again : OsInv { s with notify, blocker := .shouldCancel } :=
      ⟨inv.completes.move before,.elsewhere (by simp) (by simp) (by simp),
        ⟨reached,by simp,marked⟩⟩
    split at went
    · obtain rfl := Option.some.inj went
      exact again
    · exact again.enter (s := { s with notify, blocker := .shouldCancel }) (by simp) went
  next =>
    obtain rfl := Option.some.inj went
    exact ⟨inv.completes.move before,.elsewhere (by simp) (by simp) (by simp),
      ⟨reached,by simp,marked⟩⟩
  next first second third =>
    obtain rfl := Option.some.inj went
    have still : (notify.locals .blocker).waits = true := by
      rcases stays with still | ⟨result,at_⟩
      · exact still
      · cases result with
        | ok woken =>
          cases woken with
          | true => exact absurd at_ first
          | false => exact absurd at_ second
        | error error => exact absurd at_ (third error)
    exact ⟨inv.completes.move before,.elsewhere (by simp [waiting]) (by simp [waiting]) before,
      ⟨reached,fun _ _ => still,marked⟩⟩

/-- Where the parts of a state are that the callback does not change. -/
theorem Sound.complete {value : α} {callback : Callback} {notify : Futex.Config Party}
    (sound : Sound s) (open_ : s.completed = none) :
    Sound { s with block := .done value, completed := some value, callback, notify } := by
  refine ⟨fun _ => ⟨value,rfl,rfl⟩,sound.defined,fun other at_ => ?_⟩
  have done := sound.returned other at_
  simp [open_] at done

theorem OsInv.complete {value : α} (inv : OsInv s) (open_ : s.completed = none)
    (ran : complete true s value = some next) : OsInv next := by
  obtain ⟨notify,called,done⟩ := Option.bind_eq_some_iff.mp ran
  obtain rfl := Option.some.inj done
  have same : notify.locals .blocker = s.notify.locals .blocker := by
    obtain ⟨pc',s',_,rfl⟩ := Threads.step_eq_some.mp called
    rfl
  obtain ⟨labels,path⟩ := inv.notifies.reached
  refine ⟨⟨nofun,fun _ => ⟨value,rfl,rfl⟩,nofun⟩,inv.sound.complete open_,
    ⟨⟨_,path.append (.cons trivial called .nil)⟩,?_,fun _ _ => ⟨value,rfl,rfl⟩⟩⟩
  exact fun cancel waiting => same ▸ inv.notifies.waits cancel waiting

/-- The callback notifies, after it has stored the value. -/
theorem OsInv.notify {label : Futex.Label} {notify : Futex.Config Party} (inv : OsInv s)
    (resuming : s.callback = .resuming)
    (stepped : Futex.step .blocker s.notify (.callback,label) = some notify) :
    OsInv (afterNotify { s with notify }) := by
  have stored : Stored s := inv.completes.stored (by simp [resuming])
  obtain ⟨reached,marked⟩ := inv.notifies.advance stepped nofun fun _ => stored
  have same : notify.locals .blocker = s.notify.locals .blocker := by
    obtain ⟨pc',s',ran,rfl⟩ := Threads.step_eq_some.mp stepped
    rfl
  have kept : ∀ callback, callback ≠ .idle → OsInv { s with notify, callback } :=
    fun callback busy => ⟨⟨fun idle => absurd idle busy,fun _ => stored,fun idle => absurd idle busy⟩,
      ⟨inv.sound.output,inv.sound.defined,inv.sound.returned⟩,
      ⟨reached,fun cancel waiting => same ▸ inv.notifies.waits cancel waiting,marked⟩⟩
  unfold afterNotify
  split
  · exact kept .finished nofun
  · exact kept .aborted nofun
  · have still := kept .resuming nofun
    rwa [← resuming] at still

/-- A step of the blocking thread to a place where it does not wait. -/
structure Goes (s next : State α) : Prop where
  completes : Completes next
  sound : Sound next
  notify : next.notify = s.notify
  away : ∀ cancel, next.blocker ≠ .waiting cancel
  stored : Stored s → Stored next

theorem run_goes {progress : Progress α} (completes : Completes s)
    (ran : step os s (.run progress) = some next) : Goes s next := by
  simp only [step] at ran
  split at ran
  next running =>
    obtain rfl := Option.some.inj ran
    exact ⟨completes.move (by simp [running]),.elsewhere nofun nofun nofun,rfl,nofun,id⟩
  next value running =>
    obtain ⟨open_,ran⟩ := Option.ite_none_right_eq_some.mp ran
    obtain rfl := Option.some.inj ran
    have none : s.completed = none := by simpa using open_
    have never : ¬ Stored s := by
      rintro ⟨_,_,completed⟩
      simp [none] at completed
    refine ⟨⟨completes.pending,fun busy => absurd (completes.stored busy) never,?_⟩,
      ⟨nofun,nofun,?_⟩,rfl,nofun,fun stored => absurd stored never⟩
    · exact fun _ never => absurd rfl (never value)
    · rintro _ ⟨⟩
      rfl
  · contradiction

/-- After `should_cancel` the thread cancels the future or waits. -/
theorem shouldCancel_goes {cancel : Bool} (completes : Completes s)
    (ran : step os s (.shouldCancel cancel) = some next) :
    Goes s next ∨ (∀ value, s.blocker ≠ .returned value) ∧ enter os s true = some next := by
  simp only [step] at ran
  split at ran
  next at_ =>
    have before : ∀ value, s.blocker ≠ .returned value := by simp [at_]
    split at ran
    · obtain rfl := Option.some.inj ran
      exact .inl ⟨completes.move before,.elsewhere nofun nofun nofun,rfl,nofun,id⟩
    · exact .inr ⟨before,ran⟩
  · contradiction

/-- A cancel that returns is followed by a wait. -/
theorem cancelled_goes {unwinds : Bool} (completes : Completes s)
    (ran : step os s (.cancelled unwinds) = some next) :
    Goes s next ∨ (∀ value, s.blocker ≠ .returned value) ∧ enter os s false = some next := by
  simp only [step] at ran
  split at ran
  next at_ =>
    have before : ∀ value, s.blocker ≠ .returned value := by simp [at_]
    split at ran
    · obtain rfl := Option.some.inj ran
      exact .inl ⟨completes.move before,.elsewhere nofun nofun nofun,rfl,nofun,id⟩
    · exact .inr ⟨before,ran⟩
  · contradiction

/-- `output` finds the value. -/
theorem output_goes (completes : Completes s) (sound : Sound s)
    (ran : step os s .output = some next) : Goes s next := by
  simp only [step] at ran
  split at ran
  next value at_ block =>
    obtain rfl := Option.some.inj ran
    obtain ⟨stored,block',completed⟩ := sound.output at_
    obtain rfl := BlockState.done.inj (block.symm.trans block')
    refine ⟨⟨completes.pending,completes.stored,fun _ never => absurd rfl (never value)⟩,
      ⟨nofun,nofun,?_⟩,rfl,nofun,id⟩
    rintro _ ⟨⟩
    exact completed
  next at_ block =>
    obtain ⟨_,stored,_⟩ := sound.output at_
    simp [block] at stored
  · contradiction

theorem OsInv.goes (inv : OsInv s) (goes : Goes s next) : OsInv next := by
  refine ⟨goes.completes,goes.sound,⟨goes.notify ▸ inv.notifies.reached,?_,?_⟩⟩
  · exact fun cancel at_ => absurd at_ (goes.away cancel)
  · exact fun u marked => goes.stored (inv.notifies.marked u (goes.notify ▸ marked))

theorem OsInv.step {l : Label α} (inv : OsInv s) (ran : step true s l = some next) : OsInv next := by
  cases l with
  | run progress => exact inv.goes (run_goes inv.completes ran)
  | shouldCancel cancel =>
    rcases shouldCancel_goes inv.completes ran with goes | ⟨before,ran⟩
    · exact inv.goes goes
    · exact inv.enter before ran
  | cancelled unwinds =>
    rcases cancelled_goes inv.completes ran with goes | ⟨before,ran⟩
    · exact inv.goes goes
    · exact inv.enter before ran
  | wait label =>
    simp only [Future.step] at ran
    split at ran
    next cancel _ waiting =>
      obtain ⟨notify,stepped,went⟩ := Option.bind_eq_some_iff.mp ran
      exact inv.wait waiting stepped went
    · contradiction
  | park => contradiction
  | output => exact inv.goes (output_goes inv.completes inv.sound ran)
  | complete value =>
    obtain ⟨⟨idle,open_⟩,ran⟩ := Option.ite_none_right_eq_some.mp ran
    exact inv.complete (by simpa using open_) ran
  | notify label =>
    obtain ⟨⟨_,resuming⟩,ran⟩ := Option.ite_none_right_eq_some.mp ran
    obtain ⟨notify,stepped,done⟩ := Option.bind_eq_some_iff.mp ran
    obtain rfl := Option.some.inj done
    exact inv.notify resuming stepped
  | unpark => simp [Future.step] at ran
  | foreign => contradiction

theorem init_completes (token : Bool) : Completes (init token : State α) :=
  ⟨fun _ => rfl,fun busy => absurd rfl busy,fun _ _ => rfl⟩

theorem init_sound (token : Bool) : Sound (init token : State α) := .elsewhere nofun nofun nofun

/-- `thread::park` returns, spuriously or for an unpark that is not the callback's, before the
callback has stored its value. -/
def Early (s : State α) : Label α → Prop
  | .park _ => s.block = .pending
  | _ => False

theorem Completes.park (completes : Completes s) (late : s.block ≠ .pending) : Stored s := by
  apply completes.stored
  exact fun idle => late (completes.pending idle)

/-- The thread reads the value when `thread::park` has returned, whatever made it return. -/
theorem park_reads {cancel token : Bool} (completes : Completes s)
    (waiting : s.blocker = .waiting cancel) :
    Completes { s with blocker := .output, token } ∧
      (Sound { s with blocker := .output, token } ↔ s.block ≠ .pending) := by
  refine ⟨completes.move (by simp [waiting]),fun read early => ?_,fun late => ?_⟩
  · obtain ⟨_,stored,_⟩ := read.output rfl
    exact nomatch early.symm.trans stored
  · exact ⟨fun _ => completes.park late,nofun,nofun⟩

theorem parkStep {l : Label α} (completes : Completes s) (sound : Sound s)
    (ran : step false s l = some next) :
    Completes next ∧ (Sound next ↔ ¬ Early s l) := by
  have entered {cancel : Bool} (before : ∀ value, s.blocker ≠ .returned value)
      (ran : enter false s cancel = some next) : Completes next ∧ Sound next := by
    obtain rfl := Option.some.inj ran
    exact ⟨completes.move before,.elsewhere nofun nofun nofun⟩
  have quiet (kept : Completes next ∧ Sound next) (late : ¬ Early s l) :
      Completes next ∧ (Sound next ↔ ¬ Early s l) := ⟨kept.1,iff_of_true kept.2 late⟩
  cases l with
  | run progress =>
    have goes := run_goes completes ran
    exact quiet ⟨goes.completes,goes.sound⟩ id
  | shouldCancel cancel =>
    rcases shouldCancel_goes completes ran with goes | ⟨before,ran⟩
    · exact quiet ⟨goes.completes,goes.sound⟩ id
    · exact quiet (entered before ran) id
  | cancelled unwinds =>
    rcases cancelled_goes completes ran with goes | ⟨before,ran⟩
    · exact quiet ⟨goes.completes,goes.sound⟩ id
    · exact quiet (entered before ran) id
  | wait label => contradiction
  | park spurious =>
    simp only [step] at ran
    split at ran
    next waiting =>
      split at ran
      · obtain rfl := Option.some.inj ran
        exact park_reads completes waiting
      · obtain ⟨_,ran⟩ := Option.ite_none_right_eq_some.mp ran
        obtain rfl := Option.some.inj ran
        exact park_reads completes waiting
    · contradiction
  | output =>
    have goes := output_goes completes sound ran
    exact quiet ⟨goes.completes,goes.sound⟩ id
  | complete value =>
    obtain ⟨⟨idle,open_⟩,ran⟩ := Option.ite_none_right_eq_some.mp ran
    obtain rfl := Option.some.inj ran
    exact quiet ⟨⟨nofun,fun _ => ⟨value,rfl,rfl⟩,nofun⟩,sound.complete (by simpa using open_)⟩ id
  | notify label => simp [step] at ran
  | unpark =>
    obtain ⟨⟨_,resuming⟩,ran⟩ := Option.ite_none_right_eq_some.mp ran
    obtain rfl := Option.some.inj ran
    have stored : Stored s := completes.stored (by simp [resuming])
    exact quiet ⟨⟨nofun,fun _ => stored,nofun⟩,⟨sound.output,sound.defined,sound.returned⟩⟩ id
  | foreign =>
    obtain rfl := Option.some.inj ran
    exact quiet ⟨⟨completes.pending,completes.stored,completes.none⟩,
      ⟨sound.output,sound.defined,sound.returned⟩⟩ id

theorem os_sound {token : Bool} {labels : List (Label α)}
    (path : Path (step true) anyStep (init token) labels s) : Sound s := by
  have inv : OsInv (init token : State α) :=
    ⟨init_completes token,init_sound token,⟨⟨[],.nil⟩,nofun,nofun⟩⟩
  exact (path.invariant OsInv (fun _ _ _ inv _ ran => inv.step ran) inv).sound

/-- Every state that the steps of a run lead to is sound. -/
def StaysSound (os : Bool) (s : State α) (l : Label α) : Prop :=
  ∀ next, step os s l = some next → Sound next

theorem early_iff {token : Bool} {labels : List (Label α)} :
    Path (step false) (fun s l => ¬ Early s l) (init token) labels s ↔
      Path (step false) (StaysSound false) (init token) labels s := by
  have start : Completes (init token : State α) ∧ Sound (init token : State α) :=
    ⟨init_completes token,init_sound token⟩
  constructor
  · intro path
    apply path.under (fun s => Completes s ∧ Sound s) _ start
    intro s l next ⟨completes,sound⟩ late ran
    obtain ⟨kept,sound_iff⟩ := parkStep completes sound ran
    refine ⟨fun other same => ?_,kept,sound_iff.mpr late⟩
    obtain rfl := Option.some.inj (ran.symm.trans same)
    exact sound_iff.mpr late
  · intro path
    apply path.under (fun s => Completes s ∧ Sound s) _ start
    intro s l next ⟨completes,sound⟩ stays ran
    obtain ⟨kept,sound_iff⟩ := parkStep completes sound ran
    exact ⟨sound_iff.mp (stays next ran),kept,stays next ran⟩

/-- The park primitive does nothing of its own: it returns for a token, and only the callback gives
the thread one. -/
def OwnToken : Label α → Prop
  | .park spurious => spurious = false
  | .foreign => False
  | _ => True

theorem OwnToken.token {l : Label α} (own : OwnToken l) (ran : step false s l = some next) :
    (next.token = true → s.token = true ∨ next.callback = .finished) ∧
      (next.callback = .idle → s.callback = .idle) := by
  cases l with
  | foreign => exact own.elim
  | unpark =>
    obtain ⟨_,ran⟩ := Option.ite_none_right_eq_some.mp ran
    obtain rfl := Option.some.inj ran
    exact ⟨fun _ => .inr rfl,nofun⟩
  | complete value =>
    obtain ⟨_,ran⟩ := Option.ite_none_right_eq_some.mp ran
    obtain rfl := Option.some.inj ran
    exact ⟨.inl,nofun⟩
  | _ =>
    simp only [step] at ran
    grind [enter]

theorem ownToken_late {labels : List (Label α)}
    (path : Path (step false) (fun _ l => OwnToken l) (init false) labels s) :
    Path (step false) (fun s l => ¬ Early s l) (init false) labels s := by
  apply path.under (fun s => (Completes s ∧ Sound s) ∧ (s.token = true → s.callback ≠ .idle)) _
    ⟨⟨init_completes false,init_sound false⟩,nofun⟩
  intro s l next ⟨⟨completes,sound⟩,token⟩ own ran
  have late : ¬ Early s l := by
    cases l with
    | park spurious =>
      have real : spurious = false := own
      subst real
      intro early
      simp only [step] at ran
      split at ran
      · obtain ⟨is,_⟩ := Option.ite_none_right_eq_some.mp ran
        obtain ⟨_,stored,_⟩ := completes.stored (token is)
        exact nomatch early.symm.trans stored
      · contradiction
    | _ => exact id
  obtain ⟨kept,sound_iff⟩ := parkStep completes sound ran
  obtain ⟨given,unstarted⟩ := own.token ran
  refine ⟨late,⟨kept,sound_iff.mpr late⟩,fun is idle => ?_⟩
  rcases given is with before | finished
  · exact token before (unstarted idle)
  · exact nomatch finished.symm.trans idle

/-- With `os`, `block_on_sync` reads the output only after it was stored and returns what the future
was completed with, whatever the wait of the futex returns early. Without, that is so in a run
exactly if `thread::park` never returns before the callback has stored the value; it never does if
the thread has no token at first, nobody else unparks it and `park` does not return spuriously. -/
theorem block_on_sync_sound :
    (∀ token labels (s : State α), Path (step true) anyStep (init token) labels s → Sound s) ∧
    (∀ token labels (s : State α),
      Path (step false) (fun s l => ¬ Early s l) (init token) labels s ↔
        Path (step false) (StaysSound false) (init token) labels s) ∧
    ∀ labels (s : State α), Path (step false) (fun _ l => OwnToken l) (init false) labels s →
      Path (step false) (fun s l => ¬ Early s l) (init false) labels s :=
  ⟨fun _ _ _ path => os_sound path,fun _ _ _ => early_iff,fun _ _ path => ownToken_late path⟩

/-- The future is cancelled and then completed; a futex wait returns on a signal before. And with
`park`, the value is stored before the thread has its token. -/
theorem block_on_sync_sound_completed :
    (∃ s : State Nat, run (step true) [.run .pending,.shouldCancel true,.cancelled false,
        .wait .next,.wait .next,.wait (.early (.error .intr)),.wait .next,.wait .next,.wait .next,
        .complete 7,.notify .next,.notify .next,.wait .next,.wait .next,.output] (init false) = some s ∧
      s.blocker = .returned 7 ∧ s.completed = some 7 ∧ Sound s) ∧
    ∃ s : State Nat, run (step false) [.run .pending,.shouldCancel false,.complete 7,.unpark,
        .park false,.output] (init false) = some s ∧ s.blocker = .returned 7 ∧ Sound s := by
  constructor
  · obtain ⟨s,ran,returned,completed⟩ : ∃ s : State Nat, run (step true) [.run .pending,
          .shouldCancel true,.cancelled false,.wait .next,.wait .next,.wait (.early (.error .intr)),
          .wait .next,.wait .next,.wait .next,.complete 7,.notify .next,.notify .next,.wait .next,
          .wait .next,.output] (init false) = some s ∧
        s.blocker = .returned 7 ∧ s.completed = some 7 := ⟨_,rfl,rfl,rfl⟩
    exact ⟨s,ran,returned,completed,
      block_on_sync_sound.1 _ _ s (run_path (fun _ _ _ => trivial) ran)⟩
  · obtain ⟨before,s,ran,last,returned⟩ : ∃ before s : State Nat, run (step false) [.run .pending,
          .shouldCancel false,.complete 7,.unpark,.park false] (init false) = some before ∧
        step false before .output = some s ∧ s.blocker = .returned 7 := ⟨_,_,rfl,rfl,rfl⟩
    have own : Path (step false) (fun _ l => OwnToken l) (init false) [.run .pending,
        .shouldCancel false,.complete 7,.unpark,.park false,.output] s := by
      have path : Path (step false) (fun _ l => OwnToken l) (init false) [.run .pending,
          .shouldCancel false,.complete 7,.unpark,.park false] before :=
        run_path (by simp [OwnToken]) ran
      exact path.append (.cons trivial last .nil)
    have sound := (block_on_sync_sound.2.1 _ _ s).mp (block_on_sync_sound.2.2 _ s own)
    have kept := sound.invariant Sound (fun _ _ next _ stays ran => stays next ran) (init_sound false)
    exact ⟨s,own.executed,returned,kept⟩

/-- Without `os`, a token left over from an earlier unpark: `output` is reached in `Pending`. -/
theorem not_always_block_on_sync_sound : ∃ s : State Nat,
    run (step false) [.run .pending,.shouldCancel false,.park false,.output] (init true) = some s ∧
    s.callback = .idle ∧ s.blocker = .undefined ∧ ¬ Sound s := by
  obtain ⟨s,ran,idle,at_⟩ : ∃ s : State Nat,
      run (step false) [.run .pending,.shouldCancel false,.park false,.output] (init true) = some s ∧
      s.callback = .idle ∧ s.blocker = .undefined := ⟨_,rfl,rfl,rfl⟩
  exact ⟨s,ran,idle,at_,fun sound => sound.defined at_⟩

end XxCore.Future
