import XxCore.Sync.MutexExclusion
import XxCore.Sync.WaitListOwed

/-! Wake-ups of the mutex. While a task waits in the list, the state word is `Contended`, or some
task owes the list a wake-up: one that it is to give, or one that it was given. -/
namespace XxCore.Sync.Mutex

variable {θ ω : Type}

/-- The call of the list that the task is in. -/
def Main.family : Main → Option WaitList.Family
  | .wait _ => some .wait
  | .wakeOne => some .wakeOne
  | .cancel => some .cancel
  | _ => none

/-- The task is in `try_spin_lock`, or it runs it next. -/
def Main.retries : Main → Bool
  | .spin _ _ | .swap _ | .wait _ => true
  | _ => false

structure Coherent (l : Local ω) : Prop where
  family : l.list.family = l.main.family
  woken : l.woken = true → l.main.retries = true ∧ l.list.waiter = none

/-- A wake-up of any waiter counts. -/
def Counts (_ : ω) : Prop := True

/-- A `wake_one` has completed the task's wait, and the task has not run `try_spin_lock` since. -/
def Retries (s : Mutex θ ω) (l : Local ω) : Prop :=
  l.woken = true ∨ WaitList.Woken Counts s.waitList l.list

def Owes (s : Mutex θ ω) (l : Local ω) : Prop := l.list.delivers Counts ∨ Retries s l

def listOf (c : Config θ ω) : WaitList.Config θ ω Unit :=
  ⟨c.shared.waitList,fun t => (c.locals t).list⟩

def Waiting (c : Config θ ω) : Prop := WaitList.Waiting Counts (listOf c)

theorem Main.of_isFree {main : Main} (free : main.isFree = true) :
    main.family = none ∧ main.retries = false := by
  cases main <;> simp [Main.isFree] at free <;> exact ⟨rfl,rfl⟩

/-- A task outside the calls of the list owes only what it has noted. -/
theorem Owes.noted {s : Mutex θ ω} {l : Local ω} (owes : Owes s l) (free : l.list.family = none) :
    l.woken = true := by
  rcases owes with delivers | woken | ⟨w,_,pends,_⟩
  · rw [WaitList.family_of_delivers delivers] at free
    contradiction
  · exact woken
  · rw [WaitList.family_of_pends pends] at free
    contradiction

/-- A step of the task's own code. -/
theorem Coherent.main {l l' : Local ω} (coherent : Coherent l) (list : l'.list = l.list)
    (family : l'.main.family = l.main.family)
    (woken : l'.woken = true → l'.main.retries = true ∧ l.woken = true) : Coherent l' := by
  refine ⟨?_,fun h => ⟨(woken h).1,?_⟩⟩
  · rw [list,family,coherent.family]
  · rw [list]
    exact (coherent.woken (woken h).2).2

theorem Coherent.quiet {l : Local ω} (coherent : Coherent l) (free : l.main.retries = false) :
    l.woken = false := by
  by_contra woken
  have retries := (coherent.woken (by simpa using woken)).1
  rw [free] at retries
  contradiction

/-- A step of the task's own code outside `try_spin_lock`. -/
theorem Coherent.plain {l l' : Local ω} (coherent : Coherent l) (quiet : l.main.retries = false)
    (list : l'.list = l.list) (family : l'.main.family = l.main.family)
    (woken : l'.woken = l.woken) : Coherent l' := by
  refine coherent.main list family fun h => ?_
  rw [woken,coherent.quiet quiet] at h
  contradiction

section
variable [DecidableEq ω]

/-- The call of the list that the task is in goes on, or it returns. -/
theorem Coherent.busy {t : θ} {l l' : Local ω} {choice : WaitList.Label ω Unit}
    {s s' : WaitList θ ω Unit} (coherent : Coherent l) (done : Main) (busy : l.main.family ≠ none)
    (ran : WaitList.prog t choice l.list s = some (l'.list,s')) (after : done.family = none)
    (main : l'.main = if isReturned l'.list then done else l.main)
    (woken : l'.woken = true → l'.main.retries = true ∧ l'.list.waiter = none) : Coherent l' := by
  refine ⟨?_,woken⟩
  rw [← coherent.family] at busy
  rw [main]
  rcases (WaitList.prog_step ran).family busy with same | ⟨value,returned⟩
  · have running : isReturned l'.list = false := by
      cases at_ : l'.list with
      | returned => rw [at_] at same; exact absurd same.symm busy
      | _ => rfl
    simp [running,same,coherent.family]
  · simp [returned,isReturned,after,WaitList.Pc.family]

theorem Coherent.call {t : θ} {l l' : Local ω} {call : WaitList.Call ω Unit}
    {s s' : WaitList θ ω Unit} (coherent : Coherent l) (quiet : l.main.retries = false)
    (ran : WaitList.prog t (.call call) l.list s = some (l'.list,s'))
    (main : l'.main.family = some call.family) (woken : l'.woken = l.woken) : Coherent l' := by
  refine ⟨(WaitList.prog_step ran).family_call.trans main.symm,fun h => ?_⟩
  rw [woken,coherent.quiet quiet] at h
  contradiction

theorem Step.coherent {t : θ} {label : Label ω} {l l' : Local ω} {s s' : Mutex θ ω}
    (step : Step t l s label l' s') (coherent : Coherent l) : Coherent l' := by
  have family := coherent.family
  cases step with
  | lock free | drop free | clearPoison free =>
    obtain ⟨family,retries⟩ := Main.of_isFree free
    exact coherent.plain retries rfl family.symm rfl
  | callCancel free ran => exact coherent.call (Main.of_isFree free).2 ran rfl rfl
  | acquire main | swap main | loadContended main | swapLocked main =>
    exact coherent.main rfl (congrArg Main.family main).symm nofun
  | loadUnlocked main | loadLocked main =>
    exact coherent.main rfl (congrArg Main.family main).symm fun h => ⟨rfl,h⟩
  | fail main | contend main | interrupted main | mapGuard main | finish main | unlock main =>
    exact coherent.plain (congrArg Main.retries main) rfl (congrArg Main.family main).symm rfl
  | startWait main ran => exact coherent.call (congrArg Main.retries main) ran rfl rfl
  | startWake main _ ran => exact coherent.call (congrArg Main.retries main) ran rfl rfl
  | block _ at_ | noBlock _ at_ =>
    refine ⟨rfl,fun h => ?_⟩
    have waiter := (coherent.woken h).2
    rw [at_] at waiter
    contradiction
  | resume => exact ⟨rfl,fun _ => ⟨rfl,rfl⟩⟩
  | @wait _ _ pc _ main ran quiet =>
    refine coherent.busy (.spin _ 96) (by simp [main,Main.family]) ran rfl (by rw [main]) fun h => ⟨?_,?_⟩
    · cases isReturned pc <;> rfl
    · have waiter := (coherent.woken h).2
      rw [← waiter]
      rcases (WaitList.prog_step ran).waiter (by rw [family,main]; nofun) with none | same
      · exact none.trans waiter.symm
      · exact same
  | wakeOne main ran | cancel main ran =>
    refine coherent.busy (.returned .unit) (by simp [main,Main.family]) ran rfl (by rw [main]) fun h => ?_
    rw [noteWoken_eq,coherent.quiet (by rw [main]; rfl)] at h
    · contradiction
    · intro w parked
      rw [parked,main] at family
      exact absurd family nofun

/-- What a step of the task does to the list. -/
theorem Step.listStep {t : θ} {label : Label ω} {l l' : Local ω} {s s' : Mutex θ ω}
    (step : Step t l s label l' s') : (l'.list = l.list ∧ s'.waitList = s.waitList) ∨
      ∃ choice, WaitList.prog t choice l.list s.waitList = some (l'.list,s'.waitList) := by
  cases step with
  | callCancel _ ran | startWait _ ran | wait _ ran | wakeOne _ ran | cancel _ ran =>
    exact .inr ⟨_,ran⟩
  | startWake _ _ ran => exact .inr ⟨_,ran⟩
  | resume _ at_ ran => exact .inr ⟨_,at_ ▸ ran⟩
  | block _ at_ => exact .inr ⟨.block true,by rw [at_]; rfl⟩
  | noBlock _ at_ => exact .inr ⟨.block false,by rw [at_]; rfl⟩
  | _ => exact .inl ⟨rfl,rfl⟩

/-- The state word leaves `Contended` only where a `wake_one` starts. -/
theorem Step.contended {t : θ} {label : Label ω} {l l' : Local ω} {s s' : Mutex θ ω}
    (step : Step t l s label l' s') (contended : s.state = .contended) :
    s'.state = .contended ∨ l'.list.delivers Counts := by
  cases step with
  | acquire _ unlocked => exact absurd (contended.symm.trans unlocked) nofun
  | swap | swapLocked => exact .inl rfl
  | unlock _ quiet => exact absurd contended quiet
  | startWake _ _ ran =>
    right
    generalize l.list = before at ran
    cases WaitList.prog_step ran with
    | wakeOne => trivial
  | _ => exact .inl contended

/-- A waiter is linked only while the state word is `Contended`. -/
theorem Step.appends {t : θ} {label : Label ω} {l l' : Local ω} {s s' : Mutex θ ω} {w : ω}
    (step : Step t l s label l' s') (coherent : Coherent l) (at_ : l.list = .shouldBlock w)
    (appends : l'.list = .append w) : s'.state = .contended := by
  have waits : l.main.family = some .wait := by rw [← coherent.family,at_]; rfl
  cases step with
  | block _ _ contended => exact contended
  | noBlock => exact absurd appends nofun
  | resume _ parked => exact absurd (at_.symm.trans parked) nofun
  | wait _ _ quiet => exact absurd at_ (quiet w)
  | callCancel free => exact absurd (waits.symm.trans (Main.of_isFree free).1) nofun
  | startWait main | startWake main | wakeOne main | cancel main =>
    exact absurd (waits.symm.trans (congrArg Main.family main)) nofun
  | _ => exact absurd (at_.symm.trans appends) nofun

/-- A task owes what it owed, unless it is in `wake_one` or the state word is `Contended`. -/
theorem Step.owes {t : θ} {label : Label ω} {l l' : Local ω} {s s' : Mutex θ ω}
    (step : Step t l s label l' s') (coherent : Coherent l)
    (once : ∀ w, (s.waitList.resolutions w).length ≤ 1) (owes : Owes s l) :
    Owes s' l' ∨ l.main = .wakeOne ∨ s'.state = .contended := by
  have noted := owes.noted
  have family := coherent.family
  have off (quiet : l.main.retries = false) (free : l.main.family = none) : False := by
    have woken := noted (family.trans free)
    simp [coherent.quiet quiet] at woken
  cases step with
  | lock free | drop free | clearPoison free | callCancel free =>
    exact (off (Main.of_isFree free).2 (Main.of_isFree free).1).elim
  | acquire main | fail main | contend main | interrupted main | startWait main | mapGuard main
  | finish main | unlock main | startWake main =>
    exact (off (congrArg Main.retries main) (congrArg Main.family main)).elim
  | loadUnlocked main | loadLocked main =>
    exact .inl (.inr (.inl (noted (family.trans (congrArg Main.family main)))))
  | loadContended _ contended => exact .inr (.inr contended)
  | swap | swapLocked => exact .inr (.inr rfl)
  | block _ _ contended => exact .inr (.inr contended)
  | noBlock main at_ =>
    rcases owes with delivers | woken | ⟨w,_,pends,_⟩
    · rw [at_] at delivers
      contradiction
    · have waiter := (coherent.woken woken).2
      rw [at_] at waiter
      contradiction
    · rw [at_] at pends
      contradiction
  | resume => exact .inl (.inr (.inl rfl))
  | wait main ran quiet blocked =>
    rw [main] at family
    rcases owes with delivers | woken | woken
    · rw [WaitList.family_of_delivers delivers] at family
      exact absurd family nofun
    · exact .inl (.inr (.inl woken))
    · rcases (WaitList.prog_step ran).woken once woken with woken | ⟨w,value,parked,rfl⟩
      · exact .inl (.inr (.inr woken))
      · exact absurd rfl (blocked w parked value)
  | wakeOne main => exact .inr (.inl main)
  | cancel main =>
    rw [main] at family
    rcases owes with delivers | woken | ⟨w,_,pends,_⟩
    · rw [WaitList.family_of_delivers delivers] at family
      exact absurd family nofun
    · rw [coherent.quiet (by rw [main]; rfl)] at woken
      contradiction
    · rw [WaitList.family_of_pends pends] at family
      exact absurd family nofun

/-- A step of another task takes nothing from what a task owes. -/
theorem Step.owes_other {t : θ} {label : Label ω} {l l' k : Local ω} {s s' : Mutex θ ω}
    (step : Step t l s label l' s') (owes : Owes s k) : Owes s' k := by
  refine owes.imp_right fun retries => retries.imp_right fun woken => ?_
  rcases step.listStep with ⟨_,same⟩ | ⟨choice,ran⟩
  · rw [same]
    exact woken
  · exact woken.mono (WaitList.prog_step ran).resolutions

end

variable [DecidableEq θ] [DecidableEq ω]

theorem listOf_next (c : Config θ ω) (t : θ) (l' : Local ω) (s' : Mutex θ ω) :
    listOf ⟨s',Function.update c.locals t l'⟩ =
      ⟨s'.waitList,Function.update (listOf c).locals t l'.list⟩ := by
  simp only [listOf,Threads.Config.mk.injEq,true_and]
  funext u
  by_cases same : u = t
  · subst same; simp
  · simp [same]

/-- A step of the mutex is one of its list, or the list does not notice it. -/
theorem list_simulates {c next : Config θ ω} {t : θ} {label : Label ω}
    (stepped : step c (t,label) = some next) : listOf next = listOf c ∨
      ∃ choice, WaitList.step (listOf c) (t,choice) = some (listOf next) := by
  obtain ⟨l',s',ran,rfl⟩ := Threads.step_eq_some.mp stepped
  rw [listOf_next]
  rcases (prog_step ran).listStep with ⟨same,same'⟩ | ⟨choice,ran⟩
  · left
    rw [same,same']
    exact congrArg _ (Function.update_eq_self t _)
  · exact .inr ⟨choice,Threads.step_eq_some.mpr ⟨_,_,ran,rfl⟩⟩

/-- What is known of the parts of the mutex in every state. -/
structure Base (c : Config θ ω) : Prop where
  holder : ∃ a, outline.Holds a c
  list : ∃ a, WaitList.outline.Holds a (listOf c)
  pended : WaitList.Pended (listOf c)
  coherent : ∀ t, Coherent (c.locals t)

theorem Base.step {c next : Config θ ω} {label : θ × Label ω} (base : Base c)
    (stepped : step c label = some next) : Base next := by
  rcases label with ⟨t,label⟩
  refine ⟨?_,?_,?_,fun u => ?_⟩
  · obtain ⟨a,holds⟩ := base.holder
    exact step_holds holds stepped
  · rcases list_simulates stepped with same | ⟨choice,stepped⟩
    · rw [same]
      exact base.list
    · exact WaitList.step_holds base.list stepped
  · rcases list_simulates stepped with same | ⟨choice,stepped⟩
    · rw [same]
      exact base.pended
    · exact base.pended.step stepped
  · obtain ⟨l',s',ran,rfl⟩ := Threads.step_eq_some.mp stepped
    by_cases same : u = t
    · subst same
      simpa using (prog_step ran).coherent (base.coherent u)
    · simpa [same] using base.coherent u

/-- Whoever waits is remembered: by the state word, or by a task that owes a wake-up. -/
structure Awake (c : Config θ ω) : Prop where
  base : Base c
  covered : Waiting c → c.shared.state = .contended ∨ ∃ u, Owes c.shared (c.locals u)

theorem Waiting.before {c next : Config θ ω} {t : θ} {label : Label ω} (waiting : Waiting next)
    (coherent : Coherent (c.locals t)) (stepped : step c (t,label) = some next) :
    Waiting c ∨ next.shared.state = .contended := by
  rcases list_simulates stepped with same | ⟨choice,list⟩
  · rw [Waiting,same] at waiting
    exact .inl waiting
  · by_cases contended : next.shared.state = .contended
    · exact .inr contended
    · refine .inl (WaitList.Waiting.before waiting list fun w at_ _ => contended ?_)
      obtain ⟨pc,list',ran,eq⟩ := Threads.step_eq_some.mp list
      obtain ⟨l',s',ran',rfl⟩ := Threads.step_eq_some.mp stepped
      obtain rfl : l'.list = pc := by simpa [listOf] using congrArg (·.locals t) eq
      have appends : l'.list = .append w := by simpa [listOf] using at_
      rw [appends] at ran
      exact (prog_step ran').appends coherent (WaitList.prog_step ran).appends appends

/-- A `wake_one` finds a waiter for the wake-up that it is to give, or nobody waits. -/
theorem owes_wakeOne {c next : Config θ ω} {t : θ} {label : Label ω} (base : Base c)
    (main : (c.locals t).main = .wakeOne) (owes : Owes c.shared (c.locals t))
    (waiting : Waiting next) (stepped : step c (t,label) = some next) :
    ∃ u, Owes next.shared (next.locals u) := by
  have family : (c.locals t).list.family = some .wakeOne := by
    rw [(base.coherent t).family,main]
    rfl
  have owes : WaitList.Owes Counts (listOf c) t := by
    rcases owes with delivers | woken | woken
    · exact .inl delivers
    · rw [(base.coherent t).quiet (by rw [main]; rfl)] at woken
      contradiction
    · exact .inr woken
  obtain ⟨u,owes⟩ : ∃ u, WaitList.Owes Counts (listOf next) u := by
    rcases list_simulates stepped with same | ⟨choice,list⟩
    · rw [same]
      exact ⟨t,owes⟩
    · obtain ⟨a,holds⟩ := base.list
      obtain ⟨S,owing,card⟩ := WaitList.owed_step (S := {t}) (fun _ => False) holds base.pended
        (by simp [listOf,family])
        (fun w parked => by simp [show (c.locals t).list = _ from parked,WaitList.Pc.family] at family)
        (fun _ _ _ _ _ other => absurd trivial other) (fun _ _ _ => id)
        (fun u mem => .inr (Finset.mem_singleton.mp mem ▸ owes)) list waiting
      obtain ⟨u,mem⟩ := Finset.card_pos.mp card
      exact ⟨u,(owing u mem).resolve_left id⟩
  exact ⟨u,owes.imp_right .inr⟩

theorem Awake.step {c next : Config θ ω} {label : θ × Label ω} (awake : Awake c)
    (stepped : step c label = some next) : Awake next := by
  rcases label with ⟨t,label⟩
  refine ⟨awake.base.step stepped,fun waiting => ?_⟩
  have coherent := awake.base.coherent t
  rcases waiting.before coherent stepped with waited | contended
  · rcases awake.covered waited with contended | ⟨u,owes⟩
    · obtain ⟨l',s',ran,rfl⟩ := Threads.step_eq_some.mp stepped
      rcases (prog_step ran).contended contended with contended | delivers
      · exact .inl contended
      · exact .inr ⟨t,.inl (by simpa using delivers)⟩
    · by_cases same : u = t
      · subst same
        obtain ⟨a,list⟩ := awake.base.list
        have ⟨l',s',ran,eq⟩ := Threads.step_eq_some.mp stepped
        rcases (prog_step ran).owes coherent list.1.resolved_once owes with owes | main | contended
        · exact .inr ⟨u,by simpa [eq] using owes⟩
        · exact .inr (owes_wakeOne awake.base main owes waiting stepped)
        · exact .inl (by simpa [eq] using contended)
      · obtain ⟨l',s',ran,rfl⟩ := Threads.step_eq_some.mp stepped
        exact .inr ⟨u,by simpa [same] using (prog_step ran).owes_other owes⟩
  · exact .inl contended

theorem init_awake : Awake (init : Config θ ω) := by
  refine ⟨⟨⟨_,init_holds⟩,⟨_,WaitList.init_holds⟩,nofun,fun _ => ⟨rfl,nofun⟩⟩,fun waiting => ?_⟩
  exact absurd waiting (WaitList.not_waiting rfl nofun)

/-- No task is between two steps of a call, and every task whose waiter was completed has run
on. -/
def Quiescent (c : Config θ ω) : Prop :=
  ∀ t, (c.locals t).main.isFree = true ∨ ∃ w, (c.locals t).list = .parked w ∧
    c.shared.waitList.resolutions w = []

/-- No wake-up is lost: who is in the list will be woken by the drop of the guard, is being woken,
or comes after a task that was woken and has not run `try_spin_lock` yet. -/
structure Wakes (c : Config θ ω) : Prop where
  waits : c.shared.waitList.list ≠ [] →
    (0 < c.shared.guards ∧ c.shared.state = .contended) ∨
    (∃ t, (c.locals t).main = .wakeOne) ∨ ∃ t, Retries c.shared (c.locals t)
  quiescent : Quiescent c → ∀ t w, (c.locals t).list = .parked w →
    0 < c.shared.guards ∧ c.shared.state = .contended

theorem Awake.waits {c : Config θ ω} (awake : Awake c) (waits : c.shared.waitList.list ≠ []) :
    (0 < c.shared.guards ∧ c.shared.state = .contended) ∨
    (∃ t, (c.locals t).main = .wakeOne) ∨ ∃ t, Retries c.shared (c.locals t) := by
  obtain ⟨w,linked⟩ := List.exists_mem_of_ne_nil _ waits
  rcases awake.covered (.inl ⟨w,linked,trivial⟩) with contended | ⟨t,delivers | retries⟩
  · obtain ⟨a,holds⟩ := awake.base.holder
    refine .inl ⟨Nat.pos_of_ne_zero fun zero => ?_,contended⟩
    have unlocked := (exclusive_of_holds holds).free zero
    rw [contended] at unlocked
    contradiction
  · have family := (awake.base.coherent t).family
    rw [WaitList.family_of_delivers delivers] at family
    refine .inr (.inl ⟨t,?_⟩)
    cases main : (c.locals t).main <;> rw [main] at family <;>
      first | rfl | exact absurd family nofun
  · exact .inr (.inr ⟨t,retries⟩)

/-- In a quiescent state nobody is being woken. -/
theorem Quiescent.wakes {c : Config θ ω} (quiescent : Quiescent c) (base : Base c) (t : θ) :
    (c.locals t).main ≠ .wakeOne ∧ ¬ Retries c.shared (c.locals t) ∧
      (c.locals t).list.takes = none := by
  have coherent := base.coherent t
  have family := coherent.family
  rcases quiescent t with free | ⟨w,parked,unresolved⟩
  · obtain ⟨none,retries⟩ := Main.of_isFree free
    rw [none] at family
    refine ⟨?_,?_,?_⟩
    · intro main
      simp [main,Main.isFree] at free
    · rintro (woken | ⟨w,_,pends,_⟩)
      · simp [coherent.quiet retries] at woken
      · rw [WaitList.family_of_pends pends] at family
        contradiction
    · have idle := WaitList.isFree_of_family family
      cases at_ : (c.locals t).list <;> rw [at_] at idle <;> first | rfl | contradiction
  · refine ⟨?_,?_,?_⟩
    · intro main
      rw [main,parked] at family
      exact absurd family nofun
    · rintro (woken | ⟨w',_,pends,_,mem⟩)
      · have waiter := (coherent.woken woken).2
        rw [parked] at waiter
        contradiction
      · rw [parked] at pends
        obtain rfl := Option.some.inj pends
        simp [unresolved] at mem
    · rw [parked]
      rfl

theorem Awake.quiescent {c : Config θ ω} (awake : Awake c) (quiescent : Quiescent c) {t : θ} {w : ω}
    (parked : (c.locals t).list = .parked w) :
    0 < c.shared.guards ∧ c.shared.state = .contended := by
  have unresolved : c.shared.waitList.resolutions w = [] := by
    rcases quiescent t with free | ⟨w',here,unresolved⟩
    · have family := (awake.base.coherent t).family
      rw [parked,(Main.of_isFree free).1] at family
      contradiction
    · obtain rfl := WaitList.Pc.parked.inj (parked.symm.trans here)
      exact unresolved
  have linked : w ∈ c.shared.waitList.list := by
    obtain ⟨a,holds⟩ := awake.base.list
    refine WaitList.linked_of_pends (t := t) holds (congrArg WaitList.Pc.pends parked) unresolved ?_
    intro u takes
    have none : (c.locals u).list.takes = none := (quiescent.wakes awake.base u).2.2
    exact absurd (none.symm.trans takes) nofun
  rcases awake.waits (List.ne_nil_of_mem linked) with held | ⟨u,main⟩ | ⟨u,retries⟩
  · exact held
  · exact absurd main (quiescent.wakes awake.base u).1
  · exact absurd retries (quiescent.wakes awake.base u).2.1

/-- No lost wake-up, in every reachable state. -/
theorem mutex_wakes {labels : List (θ × Label ω)} {c : Config θ ω}
    (path : Transition.Path step Transition.anyStep init labels c) : Wakes c := by
  have awake := path.invariant Awake (fun _ _ _ awake _ stepped => awake.step stepped) init_awake
  exact ⟨awake.waits,fun quiescent t w parked => awake.quiescent quiescent parked⟩

/-- The wait of a task that has contended. -/
def waitTrace : List (Nat × Label Nat) :=
  [(1,.wait 1),(1,.list (.interrupted false)),(1,.list .next),(1,.list .next),(1,.list .next),
    (1,.list .next),(1,.next),(1,.list .next),(1,.list .next)]

theorem mutex_wakes_contended : ∃ c, Transition.run step (contendTrace ++ waitTrace) init = some c ∧
    c.shared.waitList.list = [1] ∧ 0 < c.shared.guards ∧ c.shared.state = .contended := by
  obtain ⟨c,executed,list,zero,parked,unresolved⟩ : ∃ c,
      Transition.run step (contendTrace ++ waitTrace) init = some c ∧
      c.shared.waitList.list = [1] ∧ (c.locals 0).main.isFree = true ∧
      (c.locals 1).list = .parked 1 ∧ c.shared.waitList.resolutions 1 = [] :=
    ⟨_,rfl,rfl,rfl,rfl,rfl⟩
  refine ⟨c,executed,list,(mutex_wakes (Transition.run_path (fun _ _ _ => trivial) executed)).quiescent
    (fun t => ?_) 1 1 parked⟩
  rcases Nat.lt_trichotomy t 1 with lt | rfl | gt
  · obtain rfl := Nat.lt_one_iff.mp lt
    exact .inl zero
  · exact .inr ⟨1,parked,unresolved⟩
  · left
    rw [Threads.run_other executed fun label mem same => ?_]
    · rfl
    · subst same
      have few : ∀ label ∈ contendTrace ++ waitTrace, label.1 ≤ 1 := by decide
      exact absurd (few label mem) (Nat.not_le_of_lt gt)

end XxCore.Sync.Mutex
