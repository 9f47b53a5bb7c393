import XxCore.Sync.WaitListInvariant

/-! How waiters of the wait list get their results: once, from the one thread that owns the
waiter at that time. -/
namespace XxCore.Sync.WaitList

variable {θ ω α : Type}

/-- A thread took the waiter off the list and has not completed its request yet. -/
def Taken (c : Config θ ω α) (w : ω) : Prop := ∃ t, (c.locals t).takes = some w

variable [DecidableEq θ] [DecidableEq ω]

/-- Who owes which waiter a result. A waiter is linked exactly while its suspend has linked it,
it has no result, and no thread has taken it to complete it. -/
structure Resolves (c : Config θ ω α) : Prop where
  once : ∀ w, (c.shared.resolutions w).length ≤ 1
  done : ∀ w result, .done result ∈ c.shared.resolutions w → w ∉ c.shared.appended
  linked : ∀ w, w ∈ c.shared.list ↔
    w ∈ c.shared.appended ∧ c.shared.resolutions w = [] ∧ ¬ Taken c w
  unlinked : ∀ t w, c.locals t = .unlink w → w ∉ c.shared.list →
    ∃ c₁ c₂, step c (t,.next) = some c₁ ∧ c₁.shared = c.shared ∧
      step c₁ (t,.next) = some c₂ ∧ c₂.locals t = .returned .cancelled ∧
      c₂.shared = release c.shared
  oldest : ∀ t value w rest, c.locals t = .popFront value → c.shared.list = w :: rest →
    ∃ c', step c (t,.next) = some c' ∧ c'.shared = { c.shared with list := rest } ∧
      (c'.locals t).takes = some w ∧
      ∀ x ∈ rest, c.shared.appended.idxOf w < c.shared.appended.idxOf x

/-- Each waiter of a reachable state gets its result at most once, from the thread that owns it. -/
theorem waiters_resolve {labels : List (θ × Label ω α)} {c : Config θ ω α}
    (path : Transition.Path step Transition.anyStep init labels c) : Resolves c := by
  obtain ⟨a,shared,threads⟩ := reachable_holds path
  refine ⟨shared.resolved_once,fun w result mem => ?_,fun w => ?_,fun t w at_ unlinked => ?_,
    fun t value w rest at_ list => ?_⟩
  · rw [shared.resolutions] at mem
    rw [shared.appended]
    cases phase : a w with
    | resolved resolution =>
      obtain rfl : .done result = resolution := by simpa [phase,Phase.reported] using mem
      simp [Phase.wasLinked]
    | _ => simp [phase,Phase.reported] at mem
  · have free : ¬ Taken c w ↔ ∀ t, a w ≠ .taken t := by
      simp only [Taken,not_exists]
      exact forall_congr' fun t => not_congr ((threads t).takes w)
    rw [shared.linked,shared.appended,shared.resolutions,free]
    cases phase : a w with
    | resolved resolution => cases resolution <;> simp [Phase.wasLinked,Phase.reported]
    | _ => simp [Phase.wasLinked,Phase.reported]
  · refine ⟨_,_,Threads.step_eq_some.mpr ⟨.unlockUnlinked,c.shared,?_,rfl⟩,rfl,
      Threads.step_eq_some.mpr ⟨.returned .cancelled,release c.shared,?_,rfl⟩,?_,rfl⟩
    · simp [at_,prog,cancelStep,unlinked]
    · simp [prog,cancelStep]
    · simp
  · refine ⟨_,Threads.step_eq_some.mpr ⟨.unlockTaken w (.ok (.ok value)) (.wakeOne true),
      { c.shared with list := rest },?_,rfl⟩,rfl,?_,fun x mem => shared.oldest list mem⟩
    · simp [at_,prog,wakeOneStep,list]
    · simp [Pc.takes]

/-- One waiter parks and a wake takes it off the list, but has not completed it yet. -/
def takeTrace : List (Bool × Label Nat Unit) :=
  [(true,.call (.wait 0)),(true,.interrupted false),(true,.next),(true,.next),(true,.next),
    (true,.next),(true,.block true),(true,.next),(true,.next),
    (false,.call (.wakeOne ())),(false,.next),(false,.next),(false,.next)]

theorem waiters_resolve_parked : ∃ c, Transition.run step takeTrace init = some c ∧
    Resolves c ∧ Taken c 0 := by
  obtain ⟨c,executed,taken⟩ : ∃ c, Transition.run step takeTrace init = some c ∧
      (c.locals false).takes = some 0 := ⟨_,rfl,rfl⟩
  exact ⟨c,executed,waiters_resolve (Transition.run_path (fun _ _ _ => trivial) executed),
    false,taken⟩

theorem pending_not_always_linked :
    ¬ ∀ (labels : List (Bool × Label Nat Unit)) c,
      Transition.Path step Transition.anyStep init labels c →
      ∀ w, w ∈ c.shared.list ↔ w ∈ c.shared.appended ∧ c.shared.resolutions w = [] := by
  intro always
  obtain ⟨c,executed,list,appended,unresolved⟩ : ∃ c,
      Transition.run step takeTrace init = some c ∧ c.shared.list = [] ∧
      c.shared.appended = [0] ∧ c.shared.resolutions 0 = [] := ⟨_,rfl,rfl,rfl,rfl⟩
  have linked := (always _ c (Transition.run_path (fun _ _ _ => trivial) executed) 0).mpr
    ⟨by simp [appended],unresolved⟩
  simp [list] at linked

end XxCore.Sync.WaitList
