import Mathlib.Data.Finset.Card
import XxCore.Sync.WaitListFamily

/-! The accounting of wake-ups. A thread owes a wake-up from its call of `wake_one` until the
waiter it found has resumed; no step of the list loses one while a waiter that counts is there. -/
namespace XxCore.Sync.WaitList

variable {θ ω α : Type} (counts : ω → Prop)

/-- A waiter that counts is linked, or its suspend has decided to link it. -/
def Waiting (c : Config θ ω α) : Prop :=
  (∃ w ∈ c.shared.list, counts w) ∨ ∃ u w, c.locals u = .append w ∧ counts w

/-- A `wake_one` that has not decided yet, or that has a waiter to complete. -/
def Pc.delivers : Pc ω α → Prop
  | .loadEmpty _ | .wakeLock _ | .popFront _ => True
  | .unlockTaken w (.ok _) (.wakeOne true) | .complete w (.ok _) (.wakeOne true) => counts w
  | _ => False

/-- The thread's waiter was completed by a wake-up, and the thread has not resumed. -/
def Woken (s : WaitList θ ω α) (pc : Pc ω α) : Prop :=
  ∃ w value, pc.pends = some w ∧ counts w ∧ .complete (.ok value) ∈ s.resolutions w

def Owes (c : Config θ ω α) (u : θ) : Prop :=
  (c.locals u).delivers counts ∨ Woken counts c.shared (c.locals u)

/-- Every waiter that was linked and has no result yet has a thread that waits for it. -/
def Pended (c : Config θ ω α) : Prop :=
  ∀ w ∈ c.shared.appended, c.shared.resolutions w = [] → ∃ u, (c.locals u).pends = some w

variable {counts}

theorem not_delivers_of_pends {pc : Pc ω α} {w : ω} (pends : pc.pends = some w) :
    ¬ pc.delivers counts := by
  cases pc <;> simp [Pc.pends] at pends <;> exact id

theorem of_delivers {w : ω} {result : WaitResult α} {value : Returned α}
    (delivers : (Pc.complete w result value).delivers counts) :
    counts w ∧ ∃ v, result = .ok v := by
  unfold Pc.delivers at delivers
  split at delivers <;> simp_all

theorem family_of_delivers {pc : Pc ω α} (delivers : pc.delivers counts) :
    pc.family = some .wakeOne := by
  unfold Pc.delivers at delivers
  split at delivers <;> first | rfl | contradiction

theorem Woken.mono {s s' : WaitList θ ω α} {pc : Pc ω α} (woken : Woken counts s pc)
    (grows : ∀ w r, r ∈ s.resolutions w → r ∈ s'.resolutions w) : Woken counts s' pc := by
  obtain ⟨w,value,pends,count,mem⟩ := woken
  exact ⟨w,value,pends,count,grows _ _ mem⟩

/-- An empty list while nobody is about to link a waiter. -/
theorem not_waiting {c : Config θ ω α} (list : c.shared.list = [])
    (nobody : ∀ u w, c.locals u ≠ .append w) : ¬ Waiting counts c := by
  rintro (⟨w,linked,_⟩ | ⟨u,w,at_,_⟩)
  · simp [list] at linked
  · exact nobody u w at_

/-- The holder of the lock is the only one that may be about to link a waiter. -/
theorem nobody_appends [DecidableEq θ] {a : Phases θ ω α} {c : Config θ ω α} {t : θ} (base : outline.Holds a c)
    (critical : (c.locals t).critical = true) {pc' : Pc ω α} (other : ∀ w, pc' ≠ .append w) (u : θ)
    (w : ω) : Function.update c.locals t pc' u ≠ .append w := by
  by_cases same : u = t
  · subst same; simpa using other w
  · intro at_
    rw [Function.update_of_ne same] at at_
    have theirs := (base.2 u).lock.mpr (by simp [at_,Pc.critical])
    rw [(base.2 t).lock.mpr critical] at theirs
    exact same (Option.some.inj theirs).symm

theorem nobody_cleared [DecidableEq θ] {a : Phases θ ω α} {c : Config θ ω α} {t : θ} (base : outline.Holds a c)
    (empty : c.shared.empty = true) {pc' : Pc ω α} (other : ∀ w, pc' ≠ .append w) (u : θ) (w : ω) :
    Function.update c.locals t pc' u ≠ .append w := by
  by_cases same : u = t
  · subst same; simpa using other w
  · intro at_
    rw [Function.update_of_ne same] at at_
    have := (base.2 u).cleared (by simp [at_,Pc.cleared])
    simp [empty] at this

/-- The thread of a waiter that was just completed owes the wake-up from now on. -/
theorem exists_woken {a : Phases θ ω α} {c : Config θ ω α} {t : θ} {w : ω} (base : outline.Holds a c)
    (pended : Pended c) (takes : (c.locals t).takes = some w) :
    c.shared.resolutions w = [] ∧ ∃ u, u ≠ t ∧ (c.locals u).pends = some w := by
  have phase := ((base.2 t).takes w).mp takes
  have unresolved : c.shared.resolutions w = [] := by
    rw [base.1.resolutions,phase]
    rfl
  obtain ⟨u,pends⟩ := pended w ((base.1.appended w).mpr (by rw [phase]; rfl)) unresolved
  refine ⟨unresolved,u,?_,pends⟩
  rintro rfl
  cases at_ : c.locals u <;> simp [at_,Pc.pends,Pc.takes] at takes pends

/-- A waiter that has no result yet is linked, unless some thread has taken it off the list. -/
theorem linked_of_pends {a : Phases θ ω α} {c : Config θ ω α} {t : θ} {w : ω}
    (base : outline.Holds a c) (pends : (c.locals t).pends = some w)
    (unresolved : c.shared.resolutions w = []) (nobody : ∀ u, (c.locals u).takes ≠ some w) :
    w ∈ c.shared.list := by
  have appended := (base.1.appended w).mp ((base.2 t).pends w pends)
  have reported := base.1.resolutions w
  cases phase : a w with
  | linked => exact (base.1.linked w).mpr phase
  | taken u => exact absurd (((base.2 u).takes w).mpr phase) (nobody u)
  | resolved => simp [phase,Phase.reported,unresolved] at reported
  | fresh | suspending => simp [phase,Phase.wasLinked] at appended

variable [DecidableEq ω]

theorem mem_resolve {s : WaitList θ ω α} {w w' : ω} {r r' : Resolution α}
    (mem : r ∈ s.resolutions w) : r ∈ (s.resolve w' r').resolutions w := by
  by_cases same : w = w'
  · subst same; simp [WaitList.resolve,mem]
  · simp [WaitList.resolve,same,mem]

theorem Step.resolutions {t : θ} {s s' : WaitList θ ω α} {pc pc' : Pc ω α} {label : Label ω α}
    (stepped : Step t s pc label pc' s') (w : ω) (r : Resolution α) (mem : r ∈ s.resolutions w) :
    r ∈ s'.resolutions w := by
  cases stepped with
  | unlockDone | complete | completeLast | completeNext => exact mem_resolve mem
  | _ => exact mem

/-- A thread whose waiter was completed stays so until it resumes. -/
theorem Step.woken {t : θ} {s s' : WaitList θ ω α} {pc pc' : Pc ω α} {label : Label ω α}
    (stepped : Step t s pc label pc' s') (once : ∀ w, (s.resolutions w).length ≤ 1)
    (woken : Woken counts s pc) :
    Woken counts s' pc' ∨ ∃ w value, pc = .parked w ∧ pc' = .subCount (.ok value) := by
  obtain ⟨w,value,pends,count,mem⟩ := woken
  cases stepped with
  | unlockPending => exact .inl ⟨w,value,pends,count,mem⟩
  | @resume w _ _ completed =>
    obtain rfl := Option.some.inj pends
    have one := once w
    rw [completed] at mem one
    obtain rfl := List.length_eq_zero_iff.mp (Nat.le_zero.mp (Nat.le_of_succ_le_succ one))
    obtain rfl := Resolution.complete.inj (List.mem_singleton.mp mem)
    exact .inr ⟨_,value,rfl,rfl⟩
  | wait free | cancel free | wakeOne free | wakeAll free | close free =>
    cases pc <;> simp_all [Pc.isFree,Pc.pends]
  | _ => simp [Pc.pends] at pends

variable [DecidableEq θ]

theorem Pended.step {c next : Config θ ω α} {label : θ × Label ω α} (pended : Pended c)
    (stepped : step c label = some next) : Pended next := by
  rcases label with ⟨t,choice⟩
  obtain ⟨pc',s',ran,rfl⟩ := Threads.step_eq_some.mp stepped
  have step := prog_step ran
  intro w linked unresolved
  have before : c.shared.resolutions w = [] := by
    rw [List.eq_nil_iff_forall_not_mem] at unresolved ⊢
    exact fun r mem => unresolved r (step.resolutions w r mem)
  -- the thread that waits for `w` goes on waiting, and a new waiter has its own thread
  have still : w ∈ c.shared.appended ∨ pc'.pends = some w := by
    generalize c.locals t = pc at step
    cases step with
    | append =>
      rcases List.mem_append.mp linked with old | new
      · exact .inl old
      · exact .inr (by rw [List.mem_singleton.mp new]; rfl)
    | _ => exact .inl linked
  rcases still with old | new
  · obtain ⟨u,pends⟩ := pended w old before
    by_cases same : u = t
    · subst same
      refine ⟨u,?_⟩
      simp only [Function.update_self]
      generalize at_ : c.locals u = pc at step pends
      cases step with
      | unlockPending => exact pends
      | resume completed =>
        obtain rfl := Option.some.inj pends
        simp [before] at completed
      | wait free | cancel free | wakeOne free | wakeAll free | close free =>
        cases pc <;> simp_all [Pc.isFree,Pc.pends]
      | _ => simp [Pc.pends] at pends
    · exact ⟨u,by simpa [same] using pends⟩
  · exact ⟨t,by simpa using new⟩

/-- Nobody starts to wait without a decision to link its waiter. -/
theorem Waiting.before {c next : Config θ ω α} {t : θ} {label : Label ω α}
    (waiting : Waiting counts next) (stepped : step c (t,label) = some next)
    (quiet : ∀ w, next.locals t = .append w → ¬ counts w) : Waiting counts c := by
  obtain ⟨pc',s',ran,rfl⟩ := Threads.step_eq_some.mp stepped
  have step := prog_step ran
  rcases waiting with ⟨w,linked,count⟩ | ⟨u,w,at_,count⟩
  · generalize here : c.locals t = pc at step
    simp only at linked
    cases step with
    | append =>
      rcases List.mem_append.mp linked with old | new
      · exact .inl ⟨w,old,count⟩
      · obtain rfl := List.mem_singleton.mp new
        exact .inr ⟨t,_,here,count⟩
    | unlink => exact .inl ⟨w,List.mem_of_mem_erase linked,count⟩
    | popFront list | popNext list =>
      exact .inl ⟨w,by rw [list]; exact List.mem_cons_of_mem _ linked,count⟩
    | _ => exact .inl ⟨w,linked,count⟩
  · by_cases same : u = t
    · subst same
      exact absurd count (quiet w at_)
    · exact .inr ⟨u,w,by simpa [same] using at_,count⟩

theorem Owes.other {c : Config θ ω α} {t u : θ} {label : Label ω α} {pc' : Pc ω α}
    {s' : WaitList θ ω α} (owes : Owes counts c u) (step : Step t c.shared (c.locals t) label pc' s')
    (ne : u ≠ t) : Owes counts ⟨s',Function.update c.locals t pc'⟩ u := by
  simp only [Owes,Function.update_of_ne ne]
  exact owes.imp_right fun woken => woken.mono step.resolutions

/-- While a waiter that counts is there, a step of a call loses no wake-up: the threads of `S`
that owe one, be it for reasons of their own (`extra`), can be replaced by as many. -/
theorem owed_step {a : Phases θ ω α} {c next : Config θ ω α} {t : θ} {label : Label ω α}
    {S : Finset θ} (extra : θ → Prop) (base : outline.Holds a c) (pended : Pended c)
    (busy : (c.locals t).family ≠ none) (running : ∀ w, c.locals t ≠ .parked w)
    (pops : ∀ value w rest, c.locals t = .popFront value → c.shared.list = w :: rest →
      ¬ counts w → t ∉ S)
    (waits : ∀ u w, (c.locals u).pends = some w → ¬ extra u)
    (owing : ∀ u ∈ S, extra u ∨ Owes counts c u) (stepped : step c (t,label) = some next)
    (waiting : Waiting counts next) :
    ∃ S' : Finset θ, (∀ u ∈ S', extra u ∨ Owes counts next u) ∧ S.card ≤ S'.card := by
  obtain ⟨pc',s',ran,rfl⟩ := Threads.step_eq_some.mp stepped
  have step := prog_step ran
  have others : ∀ u ∈ S, u ≠ t → extra u ∨ Owes counts ⟨s',Function.update c.locals t pc'⟩ u :=
    fun u mem ne => (owing u mem).imp_right fun owes => owes.other step ne
  -- no thread is replaced if `t` goes on owing what it owes
  have same (keeps : t ∈ S → Owes counts c t → extra t ∨ pc'.delivers counts ∨ Woken counts s' pc') :
      ∃ S' : Finset θ, (∀ u ∈ S', extra u ∨ Owes counts ⟨s',Function.update c.locals t pc'⟩ u) ∧
        S.card ≤ S'.card := by
    refine ⟨S,fun u mem => ?_,Nat.le_refl _⟩
    by_cases here : u = t
    · subst here
      simp only [Owes,Function.update_self]
      rcases owing u mem with extra | owes
      · exact .inl extra
      · exact keeps mem owes
    · exact others u mem here
  have quiet (delivers : (c.locals t).delivers counts → pc'.delivers counts)
      (pends : ∀ w, (c.locals t).pends = some w → pc'.pends = some w) :
      ∃ S' : Finset θ, (∀ u ∈ S', extra u ∨ Owes counts ⟨s',Function.update c.locals t pc'⟩ u) ∧
        S.card ≤ S'.card := by
    refine same fun _ owes => .inr (owes.imp delivers fun woken => ?_)
    obtain ⟨w,value,at_,count,mem⟩ := woken
    exact ⟨w,value,pends w at_,count,step.resolutions _ _ mem⟩
  have own := base.2 t
  generalize at_ : c.locals t = pc at *
  cases step with
  | wait free | cancel free | wakeOne free | wakeAll free | close free =>
    exact absurd (family_of_isFree free) busy
  | resume => exact absurd rfl (running _)
  | isEmpty empty =>
    exact absurd waiting (not_waiting (base.1.empty empty) (nobody_cleared base empty nofun))
  | popNone list =>
    exact absurd waiting (not_waiting list (nobody_appends base (by rw [at_]; rfl) nofun))
  | popFront list =>
    refine same fun mem _ => .inr (.inl ?_)
    by_contra uncounted
    exact pops _ _ _ rfl list uncounted mem
  | unlockTaken => exact quiet (by unfold Pc.delivers; split <;> simp_all) (by simp [Pc.pends])
  | @complete w result value =>
    by_cases delivers : (Pc.complete w result value).delivers counts
    · obtain ⟨unresolved,u,ne,pends⟩ := exists_woken base pended (by rw [at_]; rfl)
      -- `u` takes the place of `t`
      have fresh : u ∉ S := by
        intro mem
        rcases owing u mem with own | delivers | ⟨_,_,pends',_,old⟩
        · exact waits u w pends own
        · exact not_delivers_of_pends pends delivers
        · obtain rfl := Option.some.inj (pends.symm.trans pends')
          simp [unresolved] at old
      refine ⟨insert u (S.erase t),fun v mem => ?_,?_⟩
      · rcases Finset.mem_insert.mp mem with rfl | mem
        · obtain ⟨count,v,rfl⟩ := of_delivers delivers
          refine .inr (.inr ⟨w,v,?_,count,?_⟩)
          · simpa [ne] using pends
          · simp [WaitList.resolve]
        · obtain ⟨ne,mem⟩ := Finset.mem_erase.mp mem
          exact others v mem ne
      · rw [Finset.card_insert_of_notMem fun mem => fresh (Finset.mem_of_mem_erase mem)]
        have := Finset.pred_card_le_card_erase (s := S) (a := t)
        omega
    · exact quiet (fun h => absurd h delivers) (by simp [Pc.pends])
  | _ => exact quiet (by simp [Pc.delivers]) (by simp [Pc.pends])

/-- A `close` that has yet to see that the list is empty. -/
def Pc.clears : Pc ω α → Bool
  | .loadEmptyAll all | .loadCount all | .wakeAllLock all _ | .popNext all _
  | .completeNext all _ _ => all.closing
  | _ => false

/-- A `close` leaves nobody waiting when it has looked at the list. -/
theorem clears_step {a : Phases θ ω α} {c next : Config θ ω α} {t : θ} {label : Label ω α}
    (base : outline.Holds a c) (stepped : step c (t,label) = some next)
    (closed : next.shared.closed = true) :
    (c.shared.closed = true ∧ ∀ u, (c.locals u).clears = false) ∨
      (∃ u, (next.locals u).clears = true) ∨ ¬ Waiting counts next := by
  obtain ⟨pc',s',ran,rfl⟩ := Threads.step_eq_some.mp stepped
  have step := prog_step ran
  by_cases clears : ∃ u, (c.locals u).clears = true
  · obtain ⟨u,clears⟩ := clears
    right
    by_cases same : u = t
    · subst same
      have mine (clears : pc'.clears = true) :
          ∃ v, ((Function.update c.locals u pc') v).clears = true := ⟨u,by simpa using clears⟩
      generalize at_ : c.locals u = pc at step clears
      cases step with
      | isEmptyAll empty =>
        exact .inr (not_waiting (base.1.empty empty) (nobody_cleared base empty nofun))
      | popLast list =>
        exact .inr (not_waiting list (nobody_appends base (by rw [at_]; rfl) nofun))
      | completeLast list =>
        exact .inr (not_waiting list (nobody_appends base (by rw [at_]; rfl) nofun))
      | notEmptyAll | loadCount | wakeAllLock | popNext | completeNext => exact .inl (mine clears)
      | wait free | cancel free | wakeOne free | wakeAll free | close free =>
        cases pc <;> contradiction
      | _ => contradiction
    · exact .inl ⟨u,by simpa [same] using clears⟩
  · simp only [not_exists,Bool.not_eq_true] at clears
    generalize c.locals t = pc at step
    cases step with
    | storeClosed => exact .inr (.inl ⟨t,by simp [Pc.clears]⟩)
    | _ => exact .inl ⟨closed,clears⟩

end XxCore.Sync.WaitList
