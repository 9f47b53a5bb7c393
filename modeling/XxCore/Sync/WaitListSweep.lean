import XxCore.Sync.WaitListClose
import XxCore.Sync.WaitListOwed

/-! `wake_all` of the wait list: the threads that wait when it begins are all taken off the list,
and after `close` nobody waits any more. -/
namespace XxCore.Sync.WaitList

variable {θ ω α : Type}

/-- The thread has decided to block, and nobody has taken its waiter off the list yet. -/
def Waits (c : Config θ ω α) (t : θ) : Prop :=
  (∃ w, c.locals t = .append w) ∨ ∃ w ∈ c.shared.list, (c.locals t).pends = some w

/-- A `wake_all` that has yet to see that the list is empty. -/
def Pc.sweeps : Pc ω α → Bool
  | .loadEmptyAll _ | .loadCount _ | .wakeAllLock _ _ | .popNext _ _ | .completeNext _ _ _ => true
  | _ => false

theorem not_waits {c : Config θ ω α} (list : c.shared.list = [])
    (nobody : ∀ u w, c.locals u ≠ .append w) (t : θ) : ¬ Waits c t := by
  rintro (⟨w,at_⟩ | ⟨w,linked,_⟩)
  · exact nobody t w at_
  · simp [list] at linked

theorem family_of_waits {c : Config θ ω α} {t : θ} (waits : Waits c t) :
    (c.locals t).family = some .wait := by
  rcases waits with ⟨w,at_⟩ | ⟨w,_,pends⟩
  · rw [at_]; rfl
  · exact family_of_pends pends

theorem family_of_sweeps {pc : Pc ω α} (sweeps : pc.sweeps = true) :
    ∃ closing, pc.family = some (.wakeAll closing) := by
  cases pc <;> first | exact ⟨_,rfl⟩ | contradiction

theorem sweeps_of_clears {pc : Pc ω α} (clears : pc.clears = true) : pc.sweeps = true := by
  cases pc <;> first | rfl | contradiction

/-- What a `close` leaves behind: nobody is linked, and a suspend that may still link its waiter
was overtaken. -/
structure Swept (c : Config θ ω α) : Prop where
  list : c.shared.list = []
  overtaken : ∀ u, (c.locals u).checked = true → c.shared.overtaken = some u

variable [DecidableEq θ] [DecidableEq ω]

theorem Step.closes {t : θ} {s s' : WaitList θ ω α} {pc pc' : Pc ω α} {label : Label ω α}
    (step : Step t s pc label pc' s') :
    s'.closed = s.closed ∨ ∃ value, pc = .storeClosed value ∧ s'.closed = true := by
  cases step with
  | storeClosed => exact .inr ⟨_,rfl,rfl⟩
  | _ => exact .inl rfl

theorem Step.stores_closed {t : θ} {s s' : WaitList θ ω α} {pc' : Pc ω α} {value : α}
    {label : Label ω α} (step : Step t s (.storeClosed value) label pc' s') :
    pc' = .loadEmptyAll ⟨value,true⟩ ∧ s'.closed = true := by
  cases step with
  | wait free | cancel free | wakeOne free | wakeAll free | close free => contradiction
  | storeClosed => exact ⟨rfl,rfl⟩

theorem Step.sweeps_call {t : θ} {s s' : WaitList θ ω α} {pc pc' : Pc ω α} {value : α}
    (step : Step t s pc (.call (.wakeAll value)) pc' s') : pc'.sweeps = true := by
  cases step
  rfl

theorem Step.close_call {t : θ} {s s' : WaitList θ ω α} {pc pc' : Pc ω α} {value : α}
    (step : Step t s pc (.call (.close value)) pc' s') : pc' = .storeClosed value := by
  cases step
  rfl

/-- Nobody starts to wait without a decision to link its waiter. -/
theorem Waits.before {a : Phases θ ω α} {c next : Config θ ω α} {t u : θ} {label : Label ω α}
    (base : outline.Holds a c) (waits : Waits next u) (stepped : step c (t,label) = some next) :
    Waits c u ∨ u = t ∧ ∃ w, next.locals u = .append w := by
  obtain ⟨pc',s',ran,rfl⟩ := Threads.step_eq_some.mp stepped
  have step := prog_step ran
  by_cases same : u = t
  · subst same
    simp only [Waits,Function.update_self] at waits ⊢
    generalize c.locals u = pc at step ⊢
    rcases waits with appends | ⟨w,linked,pends⟩
    · exact .inr ⟨trivial,appends⟩
    · left
      cases step with
      | append => exact .inl ⟨_,rfl⟩
      | unlockPending => exact .inr ⟨w,linked,pends⟩
      | _ => simp [Pc.pends] at pends
  · left
    simp only [Waits,Function.update_of_ne same] at waits ⊢
    refine waits.imp_right ?_
    rintro ⟨w,linked,pends⟩
    refine ⟨w,?_,pends⟩
    generalize at_ : c.locals t = pc at step
    cases step with
    | @append w' =>
      rcases List.mem_append.mp linked with old | new
      · exact old
      · obtain rfl := List.mem_singleton.mp new
        -- a waiter that is about to be linked has not been linked before
        have phase := (base.2 t).suspends w (by rw [at_]; rfl)
        have appended := (base.1.appended w).mp ((base.2 u).pends w pends)
        simp [phase,Phase.wasLinked] at appended
    | unlink => exact List.mem_of_mem_erase linked
    | popFront list | popNext list => exact list ▸ List.mem_cons_of_mem _ linked
    | _ => exact linked

/-- A `wake_all` goes on until nobody waits. -/
theorem sweeps_step {a : Phases θ ω α} {c next : Config θ ω α} {t u : θ} {label : Label ω α}
    (base : outline.Holds a c) (sweeps : (c.locals u).sweeps = true)
    (stepped : step c (t,label) = some next) :
    (next.locals u).sweeps = true ∨ ∀ v, ¬ Waits next v := by
  obtain ⟨pc',s',ran,rfl⟩ := Threads.step_eq_some.mp stepped
  have step := prog_step ran
  by_cases same : u = t
  · subst same
    simp only [Function.update_self]
    generalize at_ : c.locals u = pc at step sweeps
    cases step with
    | isEmptyAll empty =>
      exact .inr (not_waits (base.1.empty empty) (nobody_cleared base empty (by simp)))
    | popLast list => exact .inr (not_waits list (nobody_appends base (by rw [at_]; rfl) (by simp)))
    | completeLast list =>
      exact .inr (not_waits list (nobody_appends base (by rw [at_]; rfl) (by simp)))
    | notEmptyAll | loadCount | wakeAllLock | popNext | completeNext => exact .inl rfl
    | wait free | cancel free | wakeOne free | wakeAll free | close free =>
      cases pc <;> contradiction
    | _ => contradiction
  · exact .inl (by simpa [same] using sweeps)

/-- Nobody else may still link its waiter while the thread holds the lock. -/
theorem not_checked {a : Phases θ ω α} {c : Config θ ω α} {t u : θ} (base : outline.Holds a c)
    (critical : (c.locals t).critical = true) (ne : u ≠ t) : ¬ (c.locals u).checked = true := by
  intro checked
  have theirs := (base.2 u).lock.mpr (Pc.checked_critical checked)
  rw [(base.2 t).lock.mpr critical] at theirs
  exact ne (Option.some.inj theirs).symm

/-- What was swept stays so, unless a suspend that was overtaken links its waiter. -/
theorem Swept.step {a : Phases θ ω α} {c next : Config θ ω α} {label : θ × Label ω α}
    (swept : Swept c) (base : outline.Holds a c) (closed : c.shared.closed = true)
    (allowed : NotOvertaken c label) (stepped : step c label = some next) : Swept next := by
  rcases label with ⟨t,label⟩
  obtain ⟨pc',s',ran,rfl⟩ := Threads.step_eq_some.mp stepped
  have step := prog_step ran
  have mine := swept.overtaken t
  -- the step's own thread, and the others, whose `overtaken` is as it was
  have kept (list : s'.list = []) (own : pc'.checked = true → s'.overtaken = some t)
      (others : s'.overtaken = c.shared.overtaken ∨ (c.locals t).critical = true) :
      Swept ⟨s',Function.update c.locals t pc'⟩ := by
    refine ⟨list,fun u checked => ?_⟩
    by_cases same : u = t
    · subst same
      exact own (by simpa using checked)
    · simp only [Function.update_of_ne same] at checked
      rcases others with eq | critical
      · rw [eq]
        exact swept.overtaken u checked
      · exact absurd checked (not_checked base critical same)
  generalize at_ : c.locals t = pc at step kept mine
  cases step with
  | isOpen opened => simp [closed] at opened
  | storeEmpty => exact kept swept.list mine (.inl rfl)
  | block => exact kept swept.list mine (.inl rfl)
  | append => exact absurd (mine rfl) (allowed _ at_)
  | unlink => exact kept (by simp [swept.list]) (by simp [Pc.checked]) (.inl rfl)
  | popFront list | popNext list => simp [swept.list] at list
  | @isEmptyAll all empty =>
    refine ⟨swept.list,fun u checked => ?_⟩
    by_cases same : u = t
    · subst same
      simp [Pc.checked] at checked
    · simp only [Function.update_of_ne same] at checked
      cases closing : all.closing
      · simpa [closing] using swept.overtaken u checked
      · simpa [closing] using (base.2 u).lock.mpr (Pc.checked_critical checked)
  | unlockDone | unlockPending | unlockUnlinked | unlockTaken | unlockNone | unlockAll =>
    exact kept swept.list (by simp [Pc.checked]) (.inr rfl)
  | _ => exact kept swept.list (by simp [Pc.checked]) (.inl rfl)

/-- A `close` goes on until it has swept. -/
theorem clears_sweeps {a : Phases θ ω α} {c next : Config θ ω α} {t u : θ} {label : Label ω α}
    (base : outline.Holds a c) (clears : (c.locals u).clears = true)
    (stepped : step c (t,label) = some next) :
    (next.locals u).clears = true ∨ Swept next := by
  obtain ⟨pc',s',ran,rfl⟩ := Threads.step_eq_some.mp stepped
  have step := prog_step ran
  by_cases same : u = t
  · subst same
    simp only [Function.update_self]
    have others (list : s'.list = []) (own : ¬ pc'.checked = true)
        (critical : (c.locals u).critical = true) :
        Swept ⟨s',Function.update c.locals u pc'⟩ := by
      refine ⟨list,fun v checked => ?_⟩
      by_cases same : v = u
      · subst same
        exact absurd (by simpa using checked) own
      · simp only [Function.update_of_ne same] at checked
        exact absurd checked (not_checked base critical same)
    generalize at_ : c.locals u = pc at step clears others
    cases step with
    | @isEmptyAll all empty =>
      refine .inr ⟨base.1.empty empty,fun v checked => ?_⟩
      by_cases same : v = u
      · subst same
        simp [Pc.checked] at checked
      · simp only [Function.update_of_ne same] at checked
        have closing : all.closing = true := clears
        simpa [closing] using (base.2 v).lock.mpr (Pc.checked_critical checked)
    | popLast list => exact .inr (others list (by simp [Pc.checked]) rfl)
    | completeLast list => exact .inr (others list (by simp [Pc.checked]) rfl)
    | notEmptyAll | loadCount | wakeAllLock | popNext | completeNext => exact .inl clears
    | wait free | cancel free | wakeOne free | wakeAll free | close free =>
      cases pc <;> contradiction
    | _ => contradiction
  · exact .inl (by simpa [same] using clears)

/-- In a closed list some `close` is still at it, or one has swept. -/
def Shut (c : Config θ ω α) : Prop :=
  c.shared.closed = true → (∃ u, (c.locals u).clears = true) ∨ Swept c

theorem Shut.step {a : Phases θ ω α} {c next : Config θ ω α} {label : θ × Label ω α}
    (shut : Shut c) (base : outline.Holds a c) (allowed : NotOvertaken c label)
    (stepped : step c label = some next) : Shut next := by
  intro closed
  rcases label with ⟨t,label⟩
  by_cases was : c.shared.closed = true
  · rcases shut was with ⟨u,clears⟩ | swept
    · exact (clears_sweeps base clears stepped).imp_left fun clears => ⟨u,clears⟩
    · exact .inr (swept.step base was allowed stepped)
  · obtain ⟨pc',s',ran,rfl⟩ := Threads.step_eq_some.mp stepped
    have step := prog_step ran
    generalize c.locals t = pc at step
    cases step with
    | storeClosed => exact .inl ⟨t,by simp [Pc.clears]⟩
    | _ => exact absurd closed was

end XxCore.Sync.WaitList
