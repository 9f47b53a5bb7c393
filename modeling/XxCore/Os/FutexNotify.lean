import XxCore.Os.Futex

/-! No notification of a `Notify` is lost or invented. -/
namespace XxCore.Os.Futex

open History Transition

variable {θ : Type}

/-- A mark was stored, and no `wait` has ended since. -/
def recorded : List (Event θ) → Bool
  | [] => false
  | .notified _ :: _ => true
  | .waited _ :: _ => false
  | .unwoken _ :: earlier => recorded earlier

/-- A wake has failed, and no `wait` has ended since. -/
def unwoken : List (Event θ) → Bool
  | [] => false
  | .unwoken _ :: _ => true
  | .waited _ :: _ => false
  | .notified _ :: earlier => unwoken earlier

/-- A `wait` that does not fail returns whether a mark is recorded. -/
def Fits (earlier : List (Event θ)) : Event θ → Prop
  | .waited (.ok value) => value = recorded earlier
  | _ => True

variable {log : List (Event θ)}

theorem recorded_split (is : recorded log = true) : ∃ u since before,
    log = since ++ .notified u :: before ∧ ∀ result, .waited result ∉ since := by
  induction log with
  | nil => contradiction
  | cons event earlier ih =>
    cases event with
    | notified u => exact ⟨u,[],earlier,rfl,nofun⟩
    | waited result => contradiction
    | unwoken v =>
      obtain ⟨u,since,before,rfl,none⟩ := ih is
      exact ⟨u,.unwoken v :: since,before,rfl,by simpa using none⟩

theorem unwoken_split (is : unwoken log = true) : ∃ u since before,
    log = since ++ .unwoken u :: before ∧ ∀ result, .waited result ∉ since := by
  induction log with
  | nil => contradiction
  | cons event earlier ih =>
    cases event with
    | unwoken u => exact ⟨u,[],earlier,rfl,nofun⟩
    | waited result => contradiction
    | notified v =>
      obtain ⟨u,since,before,rfl,none⟩ := ih is
      exact ⟨u,.notified v :: since,before,rfl,by simpa using none⟩

/-- A mark stays recorded while `wait` returns neither true nor an error, and then it does not
return false. -/
theorem recorded_append {since before : List (Event θ)} {u : θ}
    (sound : Sound Fits (since ++ .notified u :: before))
    (only : ∀ result, .waited result ∈ since → result = .ok false) :
    recorded (since ++ .notified u :: before) = true ∧ ∀ result, .waited result ∉ since := by
  induction since with
  | nil => exact ⟨rfl,nofun⟩
  | cons event since ih =>
    obtain ⟨here,none⟩ := ih sound.2 fun result mem => only result (List.mem_cons_of_mem _ mem)
    cases event with
    | notified v => exact ⟨rfl,by simpa using none⟩
    | unwoken v => exact ⟨here,by simpa using none⟩
    | waited result =>
      obtain rfl := only result List.mem_cons_self
      have fits : false = recorded (since ++ .notified u :: before) := sound.1
      rw [here] at fits
      contradiction

/-- The word was decremented and not yet reset. -/
def Pc.inWait : Pc → Bool
  | .futexWait | .asleep | .swapIdle _ => true
  | _ => false

/-- The thread is in `wait`. -/
def Pc.waits : Pc → Bool
  | .fetchSub | .futexWait | .asleep | .swapIdle _ => true
  | _ => false

theorem words_distinct : notified ≠ parked ∧ notified ≠ idle ∧ parked ≠ idle ∧
    parked + 1 = idle ∧ idle - 1 = parked ∧ notified - 1 = idle := by
  decide

theorem waitResult_ok {result : OsResult Unit} {state : BitVec 32} {value : Bool}
    (is : waitResult result state = .ok value) : value = decide (state = notified) := by
  unfold waitResult at is
  split at is
  · exact (Except.ok.inj is).symm
  · split at is
    · exact (Except.ok.inj is).symm
    · contradiction

/-- The word is the record of the last mark. -/
structure SharedInv (s : Notify θ) : Prop where
  sound : Sound Fits s.log
  word : recorded s.log = true ↔ s.state = notified

/-- The word is `Parked` only in a wait, and only the waiter waits. -/
structure ThreadInv (waiter t : θ) (s : Notify θ) (pc : Pc) : Prop where
  inWait : t = waiter → pc.inWait = true → s.state = parked ∨ s.state = notified
  outside : t = waiter → pc.inWait = false → s.state = idle ∨ s.state = notified
  others : t ≠ waiter → pc.waits = false
  asleep : t = waiter → s.sleeping = true → pc = .asleep

def outline (waiter : θ) : Threads.Outline Unit θ (Notify θ) Pc :=
  ⟨fun _ => SharedInv,fun _ => ThreadInv waiter⟩

theorem init_holds (waiter : θ) : (outline waiter).Holds () init := by
  constructor
  · constructor <;> simp [init,new,Sound,recorded,idle,notified]
  · intro t
    constructor <;> simp [init,new,Pc.inWait,Pc.waits]

variable [DecidableEq θ] {waiter t : θ} {s s' : Notify θ} {pc pc' : Pc} {label : Label}

theorem SharedInv.step (inv : SharedInv s) (own : ThreadInv waiter t s pc)
    (step : Step waiter t s pc label pc' s') : SharedInv s' := by
  obtain ⟨distinct,distinct',_,_,down,down'⟩ := words_distinct
  obtain ⟨sound,word⟩ := inv
  cases step with
  | token state =>
    refine ⟨⟨(word.mpr state).symm,sound⟩,?_⟩
    change false = true ↔ s.state - 1 = notified
    rw [state,down']
    simp [distinct'.symm]
  | park state =>
    refine ⟨sound,?_⟩
    have mine : t = waiter := by
      by_contra other
      exact absurd (own.others other) nofun
    have idle := (own.outside mine rfl).resolve_right state
    change recorded s.log = true ↔ s.state - 1 = notified
    rw [idle,down]
    exact iff_of_false (mt word.mp state) distinct.symm
  | @swapIdle result =>
    constructor
    · refine ⟨?_,sound⟩
      cases is : waitResult result s.state with
      | error => trivial
      | ok value =>
        change value = recorded s.log
        rw [waitResult_ok is,Bool.eq_iff_iff,decide_eq_true_eq]
        exact word.symm
    · change false = true ↔ idle = notified
      simp [distinct'.symm]
  | swapParked | swapOther => exact ⟨⟨trivial,sound⟩,iff_of_true rfl rfl⟩
  | fails => exact ⟨⟨trivial,sound⟩,word⟩
  | _ => exact ⟨sound,word⟩

/-- The end of a wait is the newest event. -/
theorem Step.waited {result : OsResult Bool} (step : Step waiter t s pc label pc' s')
    (ended : pc' = .returned (.waited result)) : s'.log = .waited result :: s.log := by
  cases step with
  | token | swapIdle => cases ended; rfl
  | _ => cases ended

/-- Only a call of `notify` stores a mark. -/
theorem Step.marks {u : θ} (step : Step waiter t s pc label pc' s')
    (marked : .notified u ∈ s'.log) : .notified u ∈ s.log ∨ pc = .swapNotified := by
  cases step with
  | swapParked | swapOther => exact .inr rfl
  | token | swapIdle | fails =>
    exact .inl ((List.mem_cons.mp marked).resolve_left nofun)
  | _ => exact .inl marked

/-- A thread in `wait` stays in it until it returns from it. -/
theorem Step.stays (step : Step waiter t s pc label pc' s') (waits : pc.waits = true) :
    pc'.waits = true ∨ ∃ result, pc' = .returned (.waited result) := by
  cases step with
  | wait free | notify free => cases pc <;> contradiction
  | token | swapIdle => exact .inr ⟨_,rfl⟩
  | park | sleep | again | early | woken | spurious => exact .inl rfl
  | _ => contradiction

/-- What a step leaves to the other threads: only the waiter does more than store a mark and wake. -/
theorem Step.others (own : ThreadInv waiter t s pc) (step : Step waiter t s pc label pc' s')
    (other : t ≠ waiter) : (s'.state = s.state ∨ s'.state = notified) ∧
      (s'.sleeping = true → s.sleeping = true) := by
  have quiet := own.others other
  cases step with
  | swapParked | swapOther => exact ⟨.inr rfl,id⟩
  | wake => exact ⟨.inl rfl,nofun⟩
  | notify | fails => exact ⟨.inl rfl,id⟩
  | wait _ mine => exact absurd mine other
  | _ => contradiction

theorem ThreadInv.frame {u : θ} (inv : ThreadInv waiter u s pc)
    (state : u = waiter → s'.state = s.state ∨ s'.state = notified)
    (sleeping : u = waiter → s'.sleeping = true → s.sleeping = true) : ThreadInv waiter u s' pc := by
  constructor
  · intro mine inWait
    rcases state mine with same | marked
    · exact same ▸ inv.inWait mine inWait
    · exact .inr marked
  · intro mine outside
    rcases state mine with same | marked
    · exact same ▸ inv.outside mine outside
    · exact .inr marked
  · exact inv.others
  · exact fun mine asleep => inv.asleep mine (sleeping mine asleep)

theorem ThreadInv.step (inv : ThreadInv waiter t s pc) (step : Step waiter t s pc label pc' s') :
    ThreadInv waiter t s' pc' := by
  obtain ⟨distinct,distinct',_,_,down,down'⟩ := words_distinct
  by_cases mine : t = waiter
  · obtain ⟨inWait,outside,awake⟩ : (pc'.inWait = true → s'.state = parked ∨ s'.state = notified) ∧
        (pc'.inWait = false → s'.state = idle ∨ s'.state = notified) ∧
        (s'.sleeping = true → pc' = .asleep) := by
      have inWait := inv.inWait mine
      have outside := inv.outside mine
      have asleep := inv.asleep mine
      cases step with
      | wait free | notify free =>
        have out : pc.inWait = false := by cases pc <;> first | rfl | contradiction
        have awake : s.sleeping = true → False := fun is => by simp [asleep is,Pc.inWait] at out
        exact ⟨nofun,fun _ => outside out,fun is => (awake is).elim⟩
      | token state => exact ⟨nofun,fun _ => .inl (by rw [state,down']),fun is => nomatch asleep is⟩
      | park state =>
        have idle := (outside rfl).resolve_right state
        exact ⟨fun _ => .inl (by rw [idle,down]),nofun,fun is => nomatch asleep is⟩
      | sleep state => exact ⟨fun _ => .inl state,nofun,fun _ => rfl⟩
      | again | early => exact ⟨fun _ => inWait rfl,nofun,fun is => nomatch asleep is⟩
      | woken awake => exact ⟨fun _ => inWait rfl,nofun,fun is => by simp [awake] at is⟩
      | spurious => exact ⟨fun _ => inWait rfl,nofun,nofun⟩
      | swapIdle => exact ⟨nofun,fun _ => .inl rfl,fun is => nomatch asleep is⟩
      | swapParked | swapOther => exact ⟨nofun,fun _ => .inr rfl,fun is => nomatch asleep is⟩
      | wake => exact ⟨nofun,fun _ => outside rfl,nofun⟩
      | fails => exact ⟨nofun,fun _ => outside rfl,fun is => nomatch asleep is⟩
    exact ⟨fun _ => inWait,fun _ => outside,fun other => absurd mine other,fun _ => awake⟩
  · have quiet : pc'.waits = false := by
      have quiet := inv.others mine
      cases step with
      | wait _ own => exact absurd own mine
      | notify | swapParked | swapOther | wake | fails => rfl
      | _ => contradiction
    exact ⟨fun own => absurd own mine,fun own => absurd own mine,fun _ => quiet,
      fun own => absurd own mine⟩

theorem step_holds {c next : Config θ} {label : θ × Label} (holds : (outline waiter).Holds () c)
    (stepped : step waiter c label = some next) : (outline waiter).Holds () next := by
  rcases label with ⟨t,choice⟩
  obtain ⟨pc',s',ran,rfl⟩ := Threads.step_eq_some.mp stepped
  have moved := prog_step ran
  have keeps : (outline waiter).Keeps () () t s' pc' c := by
    refine ⟨holds.1.step (holds.2 t) moved,(holds.2 t).step moved,fun u ne => ?_⟩
    have notWaiter : u = waiter → t ≠ waiter := fun is same => ne (is.trans same.symm)
    exact (holds.2 u).frame (fun is => (moved.others (holds.2 t) (notWaiter is)).1)
      fun is => (moved.others (holds.2 t) (notWaiter is)).2
  exact keeps.holds

/-- A waiter that is asleep although a mark is recorded is woken by a `notify` that is about to,
unless the wake of one failed. -/
def Owed (c : Config θ) : Prop :=
  c.shared.sleeping = true → c.shared.state = notified →
    (∃ u, c.locals u = .futexWake) ∨ unwoken c.shared.log = true

theorem owed_step {c next : Config θ} {label : θ × Label} (holds : (outline waiter).Holds () c)
    (owed : Owed c) (stepped : step waiter c label = some next) : Owed next := by
  rcases label with ⟨t,choice⟩
  obtain ⟨pc',s',ran,rfl⟩ := Threads.step_eq_some.mp stepped
  intro (sleeping : s'.sleeping = true) (state : s'.state = notified)
  have elsewhere : c.locals t ≠ .futexWake →
      (∃ u, c.locals u = .futexWake) ∨ unwoken c.shared.log = true →
      (∃ u, Function.update c.locals t pc' u = .futexWake) ∨ unwoken c.shared.log = true := by
    rintro away (⟨u,at_⟩ | failed)
    · have ne : u ≠ t := fun same => away (same ▸ at_)
      exact .inl ⟨u,by rw [Function.update_of_ne ne,at_]⟩
    · exact .inr failed
  -- while the waiter is asleep it takes no step that leaves it asleep
  have busy : c.shared.sleeping = true → (c.locals t).waits = true → c.locals t = .asleep := by
    intro is waits
    have mine : t = waiter := by
      by_contra other
      simp [(holds.2 t).others other] at waits
    exact (holds.2 t).asleep mine is
  have moved := prog_step ran
  generalize c.locals t = pc at moved elsewhere busy
  cases moved with
  | wait free | notify free =>
    exact elsewhere (fun at_ => by simp [at_,Pc.isFree] at free) (owed sleeping state)
  | token | park | again | early | swapIdle => exact nomatch busy sleeping rfl
  | sleep parked => exact absurd (parked.symm.trans state) words_distinct.1.symm
  | woken awake => simp [awake] at sleeping
  | spurious | wake => contradiction
  | swapParked => exact .inl ⟨t,Function.update_self ..⟩
  | swapOther unparked =>
    have at_ := (holds.2 waiter).asleep rfl sleeping
    have marked : c.shared.state = notified :=
      ((holds.2 waiter).inWait rfl (by rw [at_]; rfl)).resolve_left unparked
    exact elsewhere nofun (owed sleeping marked)
  | fails => exact .inr rfl

variable (waiter)

/-- What a `Notify` promises after any run: a wait returned true only for a mark since the last one
that did; while no wait has returned true or failed since a mark was stored, the mark is in the word,
no wait has returned false since, and the waiter is asleep only if a `notify` that found it parked
is still to wake it, or the wake of one failed; the word is one of the three states, and `Parked`
only in a wait. -/
structure Exact (c : Config θ) : Prop where
  invented : ∀ later earlier, c.shared.log = later ++ .waited (.ok true) :: earlier →
    ∃ u since before, earlier = since ++ .notified u :: before ∧ ∀ result, .waited result ∉ since
  kept : ∀ u since before, c.shared.log = since ++ .notified u :: before →
    (∀ result, .waited result ∈ since → result = .ok false) →
    c.shared.state = notified ∧ (∀ result, .waited result ∉ since) ∧
      (c.shared.sleeping = true → (∃ v, c.locals v = .futexWake) ∨
        ∃ v after earlier, c.shared.log = after ++ .unwoken v :: earlier ∧
          ∀ result, .waited result ∉ after)
  asleep : c.shared.sleeping = true → c.locals waiter = .asleep
  states : c.shared.state = parked ∨ c.shared.state = idle ∨ c.shared.state = notified
  inWait : c.shared.state = parked → (c.locals waiter).inWait = true

variable {waiter}

theorem notify_exact {labels : List (θ × Label)} {c : Config θ}
    (path : Path (step waiter) anyStep init labels c) : Exact waiter c := by
  obtain ⟨holds,owed⟩ := path.invariant (fun c => (outline waiter).Holds () c ∧ Owed c)
    (fun _ _ _ ⟨holds,owed⟩ _ stepped => ⟨step_holds holds stepped,owed_step holds owed stepped⟩)
    ⟨init_holds waiter,nofun⟩
  obtain ⟨sound,word⟩ := holds.1
  have own := holds.2 waiter
  constructor
  case invented =>
    intro later earlier shape
    have fits : true = recorded earlier := sound.split shape
    exact recorded_split fits.symm
  case kept =>
    intro u since before shape only
    obtain ⟨is,none⟩ := recorded_append (shape ▸ sound) only
    have state := word.mp (shape ▸ is)
    refine ⟨state,none,fun sleeping => ?_⟩
    rcases owed sleeping state with waker | failed
    · exact .inl waker
    · exact .inr (unwoken_split failed)
  case asleep => exact own.asleep rfl
  case states =>
    cases inWait : (c.locals waiter).inWait with
    | true => exact (own.inWait rfl inWait).imp_right .inr
    | false => exact .inr (own.outside rfl inWait)
  case inWait =>
    intro is
    by_contra outside
    have word := own.outside rfl (by simpa using outside)
    rw [is] at word
    revert word
    decide

/-- The waiter falls asleep and a `notify` has found it parked. -/
private def sleepTrace : List (Fin 3 × Label) :=
  [(0,.wait),(0,.next),(0,.next),(1,.notify),(1,.next)]

/-- The waiter is woken, and its wait returns true. -/
theorem notify_exact_woken : ∃ c : Config (Fin 3),
    run (step 0) (sleepTrace ++ [(1,.next),(0,.next),(0,.next)]) init = some c ∧
    c.locals 0 = .returned (.waited (.ok true)) ∧
    ∃ (u : Fin 3) (since before : List (Event (Fin 3))), [.notified 1] = since ++ .notified u :: before ∧
      ∀ result, .waited result ∉ since := by
  obtain ⟨c,ran,returned,log⟩ : ∃ c : Config (Fin 3),
      run (step 0) (sleepTrace ++ [(1,.next),(0,.next),(0,.next)]) init = some c ∧
      c.locals 0 = .returned (.waited (.ok true)) ∧
      c.shared.log = [] ++ .waited (.ok true) :: [.notified 1] := ⟨_,rfl,rfl,rfl⟩
  exact ⟨c,ran,returned,
    (notify_exact (run_path (fun _ _ _ => trivial) ran)).invented _ _ log⟩

/-- A second `notify` has finished before the first one wakes the waiter. And a wait that fails
takes a mark with it, so the next one returns false. -/
theorem notify_not_always_exact :
    (∃ c : Config (Fin 3), run (step 0) (sleepTrace ++ [(2,.notify),(2,.next)]) init = some c ∧
      c.locals 2 = .returned (.notified (.ok ())) ∧ c.shared.log = [.notified 2,.notified 1] ∧
      c.locals 0 = .asleep ∧ c.shared.sleeping = true) ∧
    ∃ c : Config (Fin 3), run (step 0) (sleepTrace ++ [(1,.next),(0,.early (.error (.ofI32 22))),
        (0,.next),(0,.wait),(0,.next),(0,.early (.error .intr)),(0,.next)]) init = some c ∧
      c.shared.log = [.waited (.ok false),.waited (.error (.ofI32 22)),.notified 1] ∧
      c.locals 1 = .returned (.notified (.ok ())) :=
  ⟨⟨_,rfl,rfl,rfl,rfl,rfl⟩,_,rfl,rfl,rfl⟩

end XxCore.Os.Futex
