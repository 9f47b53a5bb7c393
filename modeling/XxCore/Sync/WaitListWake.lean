import XxCore.Sync.WaitListInvariant

/-! `wake_one` of the wait list: what it promises about the waiters that decided to block before
it was called, with the check of `empty` outside the lock. -/
namespace XxCore.Sync.WaitList

variable {θ ω α : Type}

/-- The waiter's `should_block` has returned true. -/
def Evaluated (c : Config θ ω α) (w : ω) : Prop :=
  w ∈ c.shared.appended ∨ ∃ u, c.locals u = .append w

/-- The waiter was linked and has been taken off the list again. -/
def Gone (c : Config θ ω α) (w : ω) : Prop := w ∈ c.shared.appended ∧ w ∉ c.shared.list

/-- The thread makes no new call on the list. -/
def NoCall (t : θ) (_ : Config θ ω α) (label : θ × Label ω α) : Prop :=
  label.1 = t → ∀ call, label.2 ≠ .call call

/-- An empty list that no suspend is about to append to has nobody left of those who evaluated
their condition. -/
theorem Evaluated.gone {c : Config θ ω α} {w : ω} (evaluated : Evaluated c w)
    (list : c.shared.list = []) (nobody : ∀ u, c.locals u ≠ .append w) : Gone c w := by
  rcases evaluated with linked | ⟨u,at_⟩
  · exact ⟨linked,by simp [list]⟩
  · exact absurd at_ (nobody u)

variable [DecidableEq θ] [DecidableEq ω]

/-- A step of the thread leaves the list as it is. -/
def LeavesList (t : θ) (c : Config θ ω α) (label : θ × Label ω α) : Prop :=
  label.1 = t → ∀ next, step c label = some next → next.shared.list = c.shared.list

theorem Evaluated.step {c next : Config θ ω α} {label : θ × Label ω α} {w : ω}
    (evaluated : Evaluated c w) (stepped : step c label = some next) : Evaluated next w := by
  rcases label with ⟨t,choice⟩
  obtain ⟨pc',s',ran,rfl⟩ := Threads.step_eq_some.mp stepped
  have grows : w ∈ c.shared.appended → w ∈ s'.appended := by
    generalize c.locals t = pc at ran
    intro mem
    cases prog_step ran with
    | append => simp [mem]
    | _ => exact mem
  rcases evaluated with linked | ⟨u,at_⟩
  · exact .inl (grows linked)
  · by_cases same : u = t
    · subst same
      rw [at_] at ran
      cases prog_step ran with
      | append => exact .inl (by simp)
      | wait free | cancel free | wakeOne free | wakeAll free | close free => cases free
    · exact .inr ⟨u,by simpa [same] using at_⟩

/-- A waiter is linked once, so what is gone stays gone. -/
theorem Gone.step {a : Phases θ ω α} {c next : Config θ ω α} {label : θ × Label ω α} {w : ω}
    (base : outline.Holds a c) (gone : Gone c w) (stepped : step c label = some next) :
    Gone next w := by
  rcases label with ⟨t,choice⟩
  obtain ⟨pc',s',ran,rfl⟩ := Threads.step_eq_some.mp stepped
  obtain ⟨linked,unlinked⟩ := gone
  generalize at_ : c.locals t = pc at ran
  cases prog_step ran with
  | @append w' =>
    have ne : w ≠ w' := by
      rintro rfl
      have phase := (base.2 t).suspends w (by simp [at_,Pc.suspends])
      simpa [phase,Phase.wasLinked] using (base.1.appended w).mp linked
    exact ⟨by simp [linked],by simp [unlinked,ne]⟩
  | unlink => exact ⟨linked,fun mem => unlinked (List.mem_of_mem_erase mem)⟩
  | popFront list | popNext list =>
    exact ⟨linked,fun mem => unlinked (by rw [list]; exact List.mem_cons_of_mem _ mem)⟩
  | _ => exact ⟨linked,unlinked⟩

/-- What the thread knows while it runs `wake_one`: before the list is checked nothing, after a
check that found it empty that the early waiters are gone. -/
def Known (gone : Prop) : Pc ω α → Prop
  | .loadEmpty _ | .wakeLock _ | .popFront _ => True
  | .unlockNone | .returned (.wakeOne false) => gone
  | .unlockTaken _ _ (.wakeOne true) | .complete _ _ (.wakeOne true)
  | .returned (.wakeOne true) => True
  | _ => False

theorem known_step {a : Phases θ ω α} {t : θ} {early : ω → Prop} {c next : Config θ ω α}
    {label : θ × Label ω α} (base : outline.Holds a c) (evaluated : ∀ w, early w → Evaluated c w)
    (known : Known (∀ w, early w → Gone c w) (c.locals t)) (quiet : NoCall t c label)
    (stepped : step c label = some next) :
    Known (∀ w, early w → Gone next w) (next.locals t) := by
  have stays : (∀ w, early w → Gone c w) → ∀ w, early w → Gone next w :=
    fun gone w h => (gone w h).step base stepped
  have monotone {pc : Pc ω α} (known : Known (∀ w, early w → Gone c w) pc) :
      Known (∀ w, early w → Gone next w) pc := by
    unfold Known at known ⊢
    split at known <;> first | exact stays known | exact known
  rcases label with ⟨u,choice⟩
  obtain ⟨pc',s',ran,rfl⟩ := Threads.step_eq_some.mp stepped
  by_cases same : u = t
  · subst same
    simp only [Function.update_self]
    have own := base.2 u
    have none (list : c.shared.list = []) (nobody : ∀ v w, c.locals v ≠ .append w) :
        ∀ w, early w → Gone _ w :=
      stays fun w h => (evaluated w h).gone list fun v => nobody v w
    generalize at_ : c.locals u = pc at ran known own
    cases prog_step ran with
    | wait | cancel | wakeOne | wakeAll | close => exact absurd rfl (quiet rfl _)
    | isEmpty empty =>
      refine none (base.1.empty empty) fun v w at_ => ?_
      simpa [empty,at_,Pc.cleared] using (base.2 v).cleared
    | popNone list =>
      refine none list fun v w there => ?_
      have mine := own.lock.mpr rfl
      have theirs := (base.2 v).lock.mpr (by simp [there,Pc.critical])
      obtain rfl := Option.some.inj (mine.symm.trans theirs)
      simp [there] at at_
    | notEmpty | wakeLock | popFront => trivial
    | unlockNone => exact stays known
    | unlockTaken | complete =>
      rename_i value
      rcases value with _ | _ | (_ | _) | _ <;> trivial
    | _ => exact known.elim
  · simpa [Ne.symm same] using monotone known

/-- Past its decision, `wake_one` does not touch the list any more. -/
def Decided : Pc ω α → Prop
  | .unlockTaken _ _ (.wakeOne true) | .complete _ _ (.wakeOne true)
  | .returned (.wakeOne true) => True
  | _ => False

theorem decided_leaves {t : θ} {labels : List (θ × Label ω α)} {c final : Config θ ω α}
    (path : Transition.Path step (NoCall t) c labels final) (decided : Decided (c.locals t)) :
    Transition.Path step (LeavesList t) c labels final := by
  induction path with
  | nil => exact .nil
  | @cons c label next rest final quiet stepped path ih =>
    have kept : LeavesList t c label ∧ Decided (next.locals t) := by
      rcases label with ⟨u,choice⟩
      have same_next {d} (h : step c (u,choice) = some d) : d = next :=
        Option.some.inj (h.symm.trans stepped)
      obtain ⟨pc',s',ran,rfl⟩ := Threads.step_eq_some.mp stepped
      by_cases same : u = t
      · subst same
        simp only [Function.update_self]
        generalize at_ : c.locals u = pc at ran decided
        cases prog_step ran with
        | wait | cancel | wakeOne | wakeAll | close => exact absurd rfl (quiet rfl _)
        | unlockTaken | complete =>
          rename_i value
          rcases value with _ | _ | (_ | _) | _ <;> first
            | exact decided.elim
            | exact ⟨fun _ d h => by rw [same_next h]; rfl,trivial⟩
        | _ => exact decided.elim
      · exact ⟨fun mine => absurd mine same,by simpa [Ne.symm same] using decided⟩
    exact .cons kept.1 stepped (ih kept.2)

/-- Before its decision. -/
def Undecided : Pc ω α → Prop
  | .loadEmpty _ | .wakeLock _ | .popFront _ => True
  | _ => False

/-- It found nobody. -/
def Missed : Pc ω α → Prop
  | .unlockNone | .returned (.wakeOne false) => True
  | _ => False

theorem missed_step {t : θ} {c next : Config θ ω α} {label : θ × Label ω α}
    (missed : Missed (c.locals t)) (quiet : NoCall t c label) (stepped : step c label = some next) :
    Missed (next.locals t) := by
  rcases label with ⟨u,choice⟩
  obtain ⟨pc',s',ran,rfl⟩ := Threads.step_eq_some.mp stepped
  by_cases same : u = t
  · subst same
    simp only [Function.update_self]
    generalize c.locals u = pc at ran missed
    cases prog_step ran with
    | wait | cancel | wakeOne | wakeAll | close => exact absurd rfl (quiet rfl _)
    | unlockNone => trivial
    | _ => exact missed.elim
  · simpa [Ne.symm same] using missed

/-- Along the call exactly one of the thread's steps changes the list: it removes the head, which
was linked before every other waiter in the list. -/
def RemovesOldest (t : θ) (c : Config θ ω α) (labels : List (θ × Label ω α))
    (final : Config θ ω α) : Prop :=
  ∃ before after d d' w, labels = before ++ (t,.next) :: after ∧
    Transition.Path step (LeavesList t) c before d ∧ step d (t,.next) = some d' ∧
    Transition.Path step (LeavesList t) d' after final ∧
    d.shared.list = w :: d'.shared.list ∧
    ∀ x ∈ d'.shared.list, d.shared.appended.idxOf w < d.shared.appended.idxOf x

theorem RemovesOldest.cons {t : θ} {c next final : Config θ ω α} {label : θ × Label ω α}
    {labels : List (θ × Label ω α)} (leaves : LeavesList t c label)
    (stepped : step c label = some next) (removes : RemovesOldest t next labels final) :
    RemovesOldest t c (label :: labels) final := by
  obtain ⟨before,after,d,d',w,rfl,path,rest⟩ := removes
  exact ⟨label :: before,after,d,d',w,rfl,.cons leaves stepped path,rest⟩

theorem undecided_removes {t : θ} {labels : List (θ × Label ω α)} {c final : Config θ ω α}
    (path : Transition.Path step (NoCall t) c labels final) (base : ∃ a, outline.Holds a c)
    (undecided : Undecided (c.locals t)) (woken : final.locals t = .returned (.wakeOne true)) :
    RemovesOldest t c labels final := by
  induction path with
  | nil => simp [woken,Undecided] at undecided
  | @cons c label next rest final quiet stepped path ih =>
    obtain ⟨a,base⟩ := base
    have base' := step_holds ⟨a,base⟩ stepped
    have missed (missed : Missed (next.locals t)) : RemovesOldest t c (label :: rest) final := by
      have := path.invariant (fun d => Missed (d.locals t))
        (fun _ _ _ missed quiet stepped => missed_step missed quiet stepped) missed
      simp [woken,Missed] at this
    have continues (list : next.shared.list = c.shared.list) (undecided : Undecided (next.locals t)) :
        RemovesOldest t c (label :: rest) final :=
      .cons (fun _ d h => Option.some.inj (h.symm.trans stepped) ▸ list) stepped
        (ih base' undecided woken)
    rcases label with ⟨u,choice⟩
    by_cases same : u = t
    · subst same
      have stepped' := stepped
      obtain ⟨pc',s',ran,rfl⟩ := Threads.step_eq_some.mp stepped
      generalize at_ : c.locals u = pc at ran undecided
      cases prog_step ran with
      | isEmpty | popNone => exact missed (by simp [Missed])
      | notEmpty | wakeLock => exact continues rfl (by simp [Undecided])
      | @popFront w list _ found =>
        refine ⟨[],rest,c,_,w,rfl,.nil,stepped',decided_leaves path (by simp [Decided]),found,?_⟩
        exact fun x mem => base.1.oldest found mem
      | wait | cancel | wakeOne | wakeAll | close => exact absurd rfl (quiet rfl _)
      | _ => exact undecided.elim
    · obtain ⟨pc',s',ran,rfl⟩ := Threads.step_eq_some.mp stepped
      refine .cons (fun mine => absurd mine same) stepped (ih base' ?_ woken)
      simpa [Ne.symm same] using undecided

/-- The lock-free check never skips a parked waiter. A `wake_one` called after an event returns
false only when no waiter that had evaluated its condition before the event is linked, and true
only when it removed exactly one waiter, the one linked longest. -/
theorem wake_one_exact {labels labels₁ labels₂ : List (θ × Label ω α)} {c c₁ c₂ c₃ : Config θ ω α}
    {t : θ} {value : α} (path : Transition.Path step Transition.anyStep init labels c)
    (between : Transition.Path step Transition.anyStep c labels₁ c₁)
    (called : step c₁ (t,.call (.wakeOne value)) = some c₂)
    (running : Transition.Path step (NoCall t) c₂ labels₂ c₃) :
    (c.shared.empty = true → c.shared.list = []) ∧
    (c₃.locals t = .returned (.wakeOne false) → ∀ w, Evaluated c w → w ∉ c₃.shared.list) ∧
    (c₃.locals t = .returned (.wakeOne true) → RemovesOldest t c₂ labels₂ c₃) := by
  have base := reachable_holds path
  have early := between.invariant
    (fun d => (∃ a, outline.Holds a d) ∧ ∀ w, Evaluated c w → Evaluated d w)
    (fun _ _ _ ⟨base,early⟩ _ stepped =>
      ⟨step_holds base stepped,fun w h => (early w h).step stepped⟩) ⟨base,fun _ h => h⟩
  have base₂ := step_holds early.1 called
  have early₂ : ∀ w, Evaluated c w → Evaluated c₂ w := fun w h => (early.2 w h).step called
  have at_ : c₂.locals t = .loadEmpty value := by
    obtain ⟨pc',s',ran,rfl⟩ := Threads.step_eq_some.mp called
    generalize c₁.locals t = pc at ran
    cases prog_step ran with
    | wakeOne => simp
  refine ⟨?_,fun missed => ?_,?_⟩
  · obtain ⟨a,base⟩ := base
    exact base.1.empty
  · have known := running.invariant
      (fun d => (∃ a, outline.Holds a d) ∧ (∀ w, Evaluated c w → Evaluated d w) ∧
        Known (∀ w, Evaluated c w → Gone d w) (d.locals t))
      (fun _ _ _ ⟨⟨a,base⟩,early,known⟩ quiet stepped => ⟨step_holds ⟨a,base⟩ stepped,
        fun w h => (early w h).step stepped,known_step base early known quiet stepped⟩)
      ⟨base₂,early₂,by simp [at_,Known]⟩
    obtain ⟨_,_,gone⟩ := known
    rw [missed] at gone
    exact fun w h => (gone w h).2
  · exact undecided_removes running base₂ (by simp [at_,Undecided])

/-- One waiter parks. -/
def parkTrace : List (Bool × Label Nat Unit) :=
  [(true,.call (.wait 0)),(true,.interrupted false),(true,.next),(true,.next),(true,.next),
    (true,.next),(true,.block true),(true,.next),(true,.next)]

def wakeTrace : List (Bool × Label Nat Unit) := List.replicate 5 (false,.next)

theorem wake_one_exact_parked : ∃ c c₂ c₃, Transition.run step parkTrace init = some c ∧
    step c (false,.call (.wakeOne ())) = some c₂ ∧ Transition.run step wakeTrace c₂ = some c₃ ∧
    RemovesOldest false c₂ wakeTrace c₃ := by
  obtain ⟨c,c₂,c₃,parked,called,ran,woken⟩ : ∃ c c₂ c₃,
      Transition.run step parkTrace init = some c ∧
      step c (false,.call (.wakeOne ())) = some c₂ ∧
      Transition.run step wakeTrace c₂ = some c₃ ∧
      c₃.locals false = .returned (.wakeOne true) := ⟨_,_,_,rfl,rfl,rfl,rfl⟩
  have running : Transition.Path step (NoCall false) c₂ wakeTrace c₃ :=
    Transition.run_path (fun _ l mem _ call => by simp [List.eq_of_mem_replicate mem]) ran
  exact ⟨c,c₂,c₃,parked,called,ran,
    (wake_one_exact (Transition.run_path (fun _ _ _ => trivial) parked) .nil called running).2.2 woken⟩

end XxCore.Sync.WaitList
