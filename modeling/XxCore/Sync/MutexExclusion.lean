import XxCore.Sync.Mutex

/-! Mutual exclusion of the mutex. The auxiliary value says who has the one guard, and the state
word is `Unlocked` exactly if nobody has. -/
namespace XxCore.Sync.Mutex

variable {θ ω : Type}

/-- Who has the guard: nobody, a task in the middle of a call, or a caller. -/
inductive Holder (θ : Type) where
  | nobody
  | task (t : θ)
  | caller

/-- The task is creating the guard or dropping it. -/
def Main.owns : Main → Bool
  | .mapGuard | .finish | .unlock => true
  | _ => false

def Holder.guards : Holder θ → Nat
  | .nobody => 0
  | _ => 1

def Holder.given : Holder θ → Nat
  | .caller => 1
  | _ => 0

structure SharedInv (a : Holder θ) (s : Mutex θ ω) : Prop where
  guards : s.guards = a.guards
  given : s.given = a.given
  state : s.state = .unlocked ↔ a = .nobody

def outline : Threads.Outline (Holder θ) θ (Mutex θ ω) (Local ω) :=
  ⟨SharedInv,fun a t _ l => l.main.owns = true ↔ a = .task t⟩

theorem init_holds : outline.Holds .nobody (init : Config θ ω) :=
  ⟨⟨rfl,rfl,by simp [init,new]⟩,fun t => by simp [outline,init,Main.owns]⟩

/-- What a step does with the guard. -/
inductive Hands (t : θ) : Holder θ → Holder θ → Prop where
  | stays : Hands t a a
  | acquire : Hands t .nobody (.task t)
  | give : Hands t (.task t) .caller
  | take : Hands t .caller (.task t)
  | release : Hands t (.task t) .nobody

theorem Hands.other {t u : θ} {a a' : Holder θ} (hands : Hands t a a') (ne : u ≠ t) :
    a' = .task u ↔ a = .task u := by
  cases hands <;> simp [ne.symm]

section
variable [DecidableEq ω]

theorem Step.hands {t : θ} {l l' : Local ω} {s s' : Mutex θ ω} {label : Label ω} {a : Holder θ}
    (step : Step t l s label l' s') (inv : SharedInv a s) (own : l.main.owns = true ↔ a = .task t) :
    ∃ a', Hands t a a' ∧ SharedInv a' s' ∧ (l'.main.owns = true ↔ a' = .task t) := by
  have stay {l' : Local ω} {s' : Mutex θ ω} (guards : s'.guards = s.guards) (given : s'.given = s.given)
      (state : s'.state = .unlocked ↔ s.state = .unlocked) (owns : l'.main.owns = l.main.owns) :
      ∃ a', Hands t a a' ∧ SharedInv a' s' ∧ (l'.main.owns = true ↔ a' = .task t) :=
    ⟨a,.stays,⟨guards.trans inv.guards,given.trans inv.given,state.trans inv.state⟩,by rw [owns,own]⟩
  have free (free : l.main.isFree = true) : l.main.owns = false := by
    cases main : l.main <;> rw [main] at free <;> first | rfl | contradiction
  have mine (owns : l.main.owns = true) : a = .task t := own.mp owns
  have nobody (unlocked : s.state = .unlocked) : a = .nobody := inv.state.mp unlocked
  -- the swap or exchange that acquires the lock
  have acquire (state : State) (unlocked : s.state = .unlocked) (locked : state ≠ .unlocked) :
      ∃ a', Hands t a a' ∧ SharedInv a' (Mutex.acquire l s state).2 ∧
        ((Mutex.acquire l s state).1.main.owns = true ↔ a' = .task t) := by
    have guards := inv.guards
    have given := inv.given
    obtain rfl := nobody unlocked
    refine ⟨_,.acquire,⟨?_,given,?_⟩,by simp [Mutex.acquire,Main.owns]⟩
    · simp [Mutex.acquire,guards,Holder.guards]
    · simp [Mutex.acquire,locked]
  -- the swap that releases it
  have release {l' : Local ω} {list : WaitList θ ω Unit} (main : l.main = .unlock)
      (owns : l'.main.owns = false) : ∃ a', Hands t a a' ∧ SharedInv a'
        { s with state := .unlocked, guards := s.guards - 1, waitList := list } ∧
        (l'.main.owns = true ↔ a' = .task t) := by
    obtain rfl := mine (by rw [main]; rfl)
    refine ⟨_,.release,⟨?_,inv.given,by simp⟩,by simp [owns]⟩
    simp [inv.guards,Holder.guards]
  cases step with
  | lock idle => exact stay rfl rfl .rfl (free idle).symm
  | drop idle given =>
    have guards := inv.guards
    have given' := inv.given
    cases a with
    | caller =>
      refine ⟨_,.take,⟨guards,?_,?_⟩,by simp [Local.goto,Main.owns]⟩
      · simp [given',Holder.given]
      · simpa using inv.state
    | _ => simp [given',Holder.given] at given
  | clearPoison idle => exact stay rfl rfl .rfl (free idle).symm
  | callCancel idle => exact stay rfl rfl .rfl (free idle).symm
  | acquire main unlocked => exact acquire .locked unlocked nofun
  | fail main => exact stay rfl rfl .rfl (congrArg Main.owns main).symm
  | contend main => exact stay rfl rfl .rfl (congrArg Main.owns main).symm
  | loadUnlocked main => exact stay rfl rfl .rfl (congrArg Main.owns main).symm
  | loadLocked main => exact stay rfl rfl .rfl (congrArg Main.owns main).symm
  | loadContended main => exact stay rfl rfl .rfl (congrArg Main.owns main).symm
  | swap main unlocked => exact acquire .contended unlocked nofun
  | swapLocked main locked => exact stay rfl rfl (by simp [locked]) (congrArg Main.owns main).symm
  | interrupted main => exact stay rfl rfl .rfl (congrArg Main.owns main).symm
  | startWait main => exact stay rfl rfl .rfl (congrArg Main.owns main).symm
  | block main => exact stay rfl rfl .rfl (congrArg Main.owns main).symm
  | noBlock main => exact stay rfl rfl .rfl (congrArg Main.owns main).symm
  | resume main => exact stay rfl rfl .rfl (congrArg Main.owns main).symm
  | wait main =>
    refine stay rfl rfl .rfl ?_
    rw [main]
    dsimp only
    split <;> rfl
  | mapGuard main =>
    obtain rfl := mine (by rw [main]; rfl)
    refine ⟨_,.give,⟨inv.guards,?_,?_⟩,by simp [Local.goto,Main.owns]⟩
    · simp [inv.given,Holder.given]
    · simpa using inv.state
  | finish main => exact stay rfl rfl .rfl (congrArg Main.owns main).symm
  | unlock main quiet => exact release main rfl
  | startWake main => exact release main rfl
  | wakeOne main =>
    refine stay rfl rfl .rfl ?_
    rw [main]
    dsimp only
    split <;> rfl
  | cancel main =>
    refine stay rfl rfl .rfl ?_
    rw [main]
    dsimp only
    split <;> rfl

end

variable [DecidableEq θ] [DecidableEq ω]

theorem step_holds {a : Holder θ} {c c' : Config θ ω} {label : θ × Label ω}
    (holds : outline.Holds a c) (stepped : step c label = some c') : ∃ a', outline.Holds a' c' := by
  obtain ⟨t,choice⟩ := label
  obtain ⟨l,s,ran,rfl⟩ := Threads.step_eq_some.mp stepped
  obtain ⟨a',hands,shared,own⟩ := (prog_step ran).hands holds.1 (holds.2 t)
  refine ⟨a',Threads.Outline.Keeps.holds (a := a) ⟨shared,own,fun u ne => ?_⟩⟩
  exact (holds.2 u).trans (hands.other ne).symm

/-- At most one guard exists, in the hands of a task or of a caller, and the state word says
whether one does. -/
structure Exclusive (c : Config θ ω) : Prop where
  guards : c.shared.guards ≤ 1
  given : c.shared.given ≤ c.shared.guards
  owner : ∀ t, (c.locals t).main.owns = true → c.shared.guards = 1 ∧ c.shared.given = 0 ∧
    ∀ u, (c.locals u).main.owns = true → u = t
  held : 0 < c.shared.guards → c.shared.state = .locked ∨ c.shared.state = .contended
  free : c.shared.guards = 0 → c.shared.state = .unlocked

omit [DecidableEq θ] [DecidableEq ω] in
theorem exclusive_of_holds {a : Holder θ} {c : Config θ ω} (holds : outline.Holds a c) :
    Exclusive c := by
  have inv : SharedInv a c.shared := holds.1
  have state := inv.state
  refine ⟨?_,?_,fun t owns => ?_,fun held => ?_,fun free => ?_⟩
  · rw [inv.guards]
    cases a <;> simp [Holder.guards]
  · rw [inv.guards,inv.given]
    cases a <;> simp [Holder.guards,Holder.given]
  · obtain rfl := (holds.2 t).mp owns
    refine ⟨inv.guards,inv.given,fun u theirs => ?_⟩
    exact (Holder.task.inj ((holds.2 u).mp theirs)).symm
  · rw [inv.guards] at held
    cases a with
    | nobody => contradiction
    | _ => cases at_ : c.shared.state <;> simp [at_] at state ⊢
  · rw [inv.guards] at free
    cases a with
    | nobody => exact state.mpr rfl
    | _ => contradiction

theorem reachable_holds {labels : List (θ × Label ω)} {c : Config θ ω}
    (path : Transition.Path step Transition.anyStep init labels c) :
    ∃ a, outline.Holds a c := by
  apply path.invariant (fun c => ∃ a, outline.Holds a c)
  · rintro c label c' ⟨a,holds⟩ - stepped
    exact step_holds holds stepped
  · exact ⟨_,init_holds⟩

/-- Mutual exclusion, in every reachable state. -/
theorem mutex_exclusive {labels : List (θ × Label ω)} {c : Config θ ω}
    (path : Transition.Path step Transition.anyStep init labels c) : Exclusive c := by
  obtain ⟨a,holds⟩ := reachable_holds path
  exact exclusive_of_holds holds

/-- A task locks the mutex, a second one contends, the first one drops its guard and locks again,
and the swap of the second one finds it locked. -/
def contendTrace : List (Nat × Label Nat) :=
  [(0,.call (.lock .tryLock)),(0,.next),(0,.next),(1,.call (.lock .lock)),(1,.next),
    (0,.call .drop),(0,.panicking false),(0,.next),(1,.next),(0,.call (.lock .tryLock)),(0,.next),
    (0,.next),(1,.next)]

theorem mutex_exclusive_contended : ∃ c, Transition.run step contendTrace init = some c ∧
    Exclusive c ∧ c.shared.guards = 1 ∧ c.shared.state = .contended := by
  obtain ⟨c,executed,more⟩ : ∃ c, Transition.run step contendTrace init = some c ∧
      c.shared.guards = 1 ∧ c.shared.state = .contended := ⟨_,rfl,rfl,rfl⟩
  exact ⟨c,executed,mutex_exclusive (Transition.run_path (fun _ _ _ => trivial) executed),more⟩

end XxCore.Sync.Mutex
