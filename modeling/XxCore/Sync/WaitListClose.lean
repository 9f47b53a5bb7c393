import XxCore.Sync.WaitListInvariant

/-! `close` of the wait list. It stores `closed` and trusts `empty`, while `suspend` checks
`closed` before it clears `empty`: a waiter can slip between the two. -/
namespace XxCore.Sync.WaitList

variable {θ ω α : Type}

/-- Past its check of `closed`, a suspend that may still link its waiter. -/
def Pc.checked : Pc ω α → Bool
  | .storeEmpty _ | .shouldBlock _ | .append _ => true
  | _ => false

/-- Inside the `wake_all` of a `close`. -/
def Pc.closing : Pc ω α → Bool
  | .loadEmptyAll all | .loadCount all | .wakeAllLock all _ | .popNext all _
  | .completeNext all _ _ | .unlockAll all _ => all.closing
  | _ => false

/-- The `wake_all` of a `close` that has taken the last waiter off the list. -/
def Pc.emptied : Pc ω α → Bool
  | .unlockAll all _ => all.closing
  | _ => false

/-- `done`: some `close` has found the list empty or emptied it. -/
structure ClosedInv (done : Bool) (s : WaitList θ ω α) : Prop where
  closed : done = true → s.closed = true
  list : done = true → s.list = []
  returned : s.closeReturned = true → done = true

structure CloserInv (done : Bool) (t : θ) (s : WaitList θ ω α) (pc : Pc ω α) : Prop where
  checked : pc.checked = true → done = true → s.overtaken = some t
  closing : pc.closing = true → s.closed = true
  emptied : pc.emptied = true → done = true

def closeOutline : Threads.Outline Bool θ (WaitList θ ω α) (Pc ω α) := ⟨ClosedInv,CloserInv⟩

/-- A suspend that a `close` overtook between its check of `closed` and its store of `empty`
does not link its waiter. -/
def NotOvertaken (c : Config θ ω α) (label : θ × Label ω α) : Prop :=
  ∀ w, c.locals label.1 = .append w → c.shared.overtaken ≠ some label.1

theorem Pc.checked_critical {pc : Pc ω α} (checked : pc.checked = true) : pc.critical = true := by
  cases pc <;> simp_all [Pc.checked,Pc.critical]

/-- Another thread's assertion survives: a close that takes the list for empty overtakes the
holder of the lock, and nobody else changes `overtaken` while the lock is held. -/
theorem CloserInv.frame {done done' : Bool} {a : Phases θ ω α} {t u : θ} {s s' : WaitList θ ω α}
    {pc : Pc ω α} (other : CloserInv done u s pc) (thread : ThreadInv a u s pc)
    (closed : s.closed = true → s'.closed = true) (grows : done = true → done' = true)
    (overtaken : (s'.overtaken = s.overtaken ∧ done' = done) ∨ s'.overtaken = s.lock ∨
      s.lock = some t) (ne : u ≠ t) : CloserInv done' u s' pc := by
  refine ⟨fun checked finished => ?_,fun closing => closed (other.closing closing),
    fun emptied => grows (other.emptied emptied)⟩
  have held := thread.lock.mpr (Pc.checked_critical checked)
  rcases overtaken with ⟨same,was⟩ | overtook | mine
  · rw [same]; exact other.checked checked (was ▸ finished)
  · rw [overtook,held]
  · rw [held] at mine; exact absurd (Option.some.inj mine) ne

attribute [local simp] Pc.checked Pc.closing Pc.emptied Pc.critical

theorem step_closeKeeps [DecidableEq ω] {a : Phases θ ω α} {done : Bool} {c : Config θ ω α} {t : θ}
    {label : Label ω α} {s' : WaitList θ ω α} {pc pc' : Pc ω α} (base : outline.Holds a c)
    (holds : closeOutline.Holds done c) (allowed : NotOvertaken c (t,label))
    (at_ : c.locals t = pc) (stepped : Step t c.shared pc label pc' s') :
    ∃ done', closeOutline.Keeps done done' t s' pc' c := by
  obtain ⟨shared,threads⟩ := holds
  have own : CloserInv done t c.shared pc := at_ ▸ threads t
  have critical (h : pc.critical = true) : c.shared.lock = some t :=
    (base.2 t).lock.mpr (at_ ▸ h)
  -- the list stays empty after a close, so only the step's own place needs an argument
  have steady (mine : CloserInv done t s' pc') (list : done = true → s'.list = [])
      (closed : s'.closed = c.shared.closed)
      (returned : s'.closeReturned = true → c.shared.closeReturned = true ∨ done = true)
      (overtaken : s'.overtaken = c.shared.overtaken ∨ c.shared.lock = some t) :
      ∃ done', closeOutline.Keeps done done' t s' pc' c := by
    refine ⟨done,⟨?_,?_,?_⟩,mine,fun u ne => ?_⟩
    · rw [closed]; exact shared.closed
    · exact list
    · exact fun h => (returned h).elim shared.returned id
    · refine (threads u).frame (base.2 u) (fun h => closed ▸ h) id ?_ ne
      rcases overtaken with same | held
      · exact .inl ⟨same,rfl⟩
      · exact .inr (.inr held)
  -- a close found the list empty, or emptied it
  have finish (all : WakeAll α) (closing : all.closing = true → c.shared.closed = true)
      (mine : CloserInv (done || all.closing) t s' pc') (list : s'.list = [])
      (closed : s'.closed = c.shared.closed)
      (returned : s'.closeReturned = true → c.shared.closeReturned = true ∨ all.closing = true)
      (overtaken : s'.overtaken = c.shared.overtaken ∧ all.closing = false ∨
        s'.overtaken = c.shared.lock ∨ c.shared.lock = some t) :
      ∃ done', closeOutline.Keeps done done' t s' pc' c := by
    refine ⟨done || all.closing,⟨?_,fun _ => list,?_⟩,mine,fun u ne => ?_⟩
    · rw [closed,Bool.or_eq_true]
      rintro (finished | h)
      · exact shared.closed finished
      · exact closing h
    · intro h
      rcases returned h with before | now
      · simp [shared.returned before]
      · simp [now]
    · refine (threads u).frame (base.2 u) (fun h => closed ▸ h) (by simp_all) ?_ ne
      exact overtaken.imp_left fun ⟨same,not⟩ => ⟨same,by simp [not]⟩
  cases stepped with
  | isOpen closed =>
    refine steady ⟨fun _ finished => ?_,by simp,by simp⟩ shared.list rfl .inl (.inl rfl)
    simp [shared.closed finished] at closed
  | storeEmpty | block =>
    exact steady ⟨fun _ finished => own.checked rfl finished,by simp,by simp⟩ shared.list rfl .inl
      (.inl rfl)
  | append =>
    refine steady ⟨by simp,by simp,by simp⟩ (fun finished => ?_) rfl .inl (.inl rfl)
    exact absurd (own.checked rfl finished) (allowed _ at_)
  | storeClosed =>
    refine ⟨done,⟨fun _ => rfl,shared.list,shared.returned⟩,⟨by simp,fun _ => rfl,by simp⟩,?_⟩
    exact fun u ne => (threads u).frame (base.2 u) (fun _ => rfl) id (.inl ⟨rfl,rfl⟩) ne
  | @isEmptyAll all empty =>
    refine finish all own.closing ⟨by simp,by simp,by simp⟩ (base.1.empty empty) rfl ?_ ?_
    · simp [returnAll]
    · cases closing : all.closing
      · exact .inl ⟨by simp,rfl⟩
      · exact .inr (.inl (by simp))
  | @popLast all n list =>
    exact finish all own.closing ⟨by simp,own.closing,by simp_all⟩ list rfl .inl
      (.inr (.inr (critical rfl)))
  | @completeLast all n w value list =>
    exact finish all own.closing ⟨by simp,own.closing,by simp_all⟩ list rfl .inl
      (.inr (.inr (critical rfl)))
  | @unlockAll all n =>
    refine steady ⟨by simp,by simp,by simp⟩ shared.list rfl ?_ (.inr (critical rfl))
    intro returned
    rw [returnAll,release,Bool.or_eq_true] at returned
    exact returned.imp_right own.emptied
  | wakeAllLock free | notEmptyAll empty | loadCount =>
    exact steady ⟨by simp,own.closing,by simp⟩ shared.list rfl .inl (.inl rfl)
  | popNext list | completeNext list =>
    refine steady ⟨by simp,own.closing,by simp⟩ (fun finished => ?_) rfl .inl (.inl rfl)
    exact absurd (shared.list finished) (by simp [list])
  | unlink linked =>
    refine steady ⟨by simp,by simp,by simp⟩ (fun finished => ?_) rfl .inl (.inl rfl)
    simp [shared.list finished] at linked
  | popFront list =>
    refine steady ⟨by simp,by simp,by simp⟩ (fun finished => ?_) rfl .inl (.inl rfl)
    simp [shared.list finished] at list
  | unlockDone | unlockPending | unlockUnlinked | unlockTaken | unlockNone =>
    exact steady ⟨by simp,by simp,by simp⟩ shared.list rfl .inl (.inr (critical rfl))
  | _ => exact steady ⟨by simp,by simp,by simp⟩ shared.list rfl .inl (.inl rfl)

theorem init_closeHolds : closeOutline.Holds false (init : Config θ ω α) :=
  ⟨⟨by simp,by simp,by simp [init,new]⟩,fun _ => ⟨by simp [init],by simp [init],by simp [init]⟩⟩

/-- `NotOvertaken` as a test. -/
def notOvertaken [DecidableEq θ] (c : Config θ ω α) (label : θ × Label ω α) : Bool :=
  match c.locals label.1 with
  | .append _ => decide (c.shared.overtaken ≠ some label.1)
  | _ => true

theorem notOvertaken_sound [DecidableEq θ] (c : Config θ ω α) (label : θ × Label ω α)
    (checked : notOvertaken c label = true) : NotOvertaken c label := by
  intro w at_
  simpa [notOvertaken,at_] using checked

/-- The two invariants together, as every step that no close overtook keeps them. -/
def Closing (c : Config θ ω α) : Prop :=
  (∃ a, outline.Holds a c) ∧ ∃ done, closeOutline.Holds done c

theorem init_closing : Closing (init : Config θ ω α) := ⟨⟨_,init_holds⟩,_,init_closeHolds⟩

variable [DecidableEq θ] [DecidableEq ω]

theorem step_closing {c next : Config θ ω α} {label : θ × Label ω α} (closing : Closing c)
    (allowed : NotOvertaken c label) (stepped : step c label = some next) : Closing next := by
  obtain ⟨⟨a,base⟩,done,holds⟩ := closing
  refine ⟨step_holds ⟨a,base⟩ stepped,?_⟩
  obtain ⟨pc',s',ran,rfl⟩ := Threads.step_eq_some.mp stepped
  obtain ⟨done',closed⟩ := step_closeKeeps base holds allowed rfl (prog_step ran)
  exact ⟨done',closed.holds⟩

/-- After a close has returned nothing is linked any more. -/
theorem Closing.step_appended {c next : Config θ ω α} {label : θ × Label ω α}
    (closing : Closing c) (returned : c.shared.closeReturned = true)
    (allowed : NotOvertaken c label) (stepped : step c label = some next) :
    next.shared.closeReturned = true ∧ next.shared.appended = c.shared.appended := by
  obtain ⟨_,done,holds⟩ := closing
  obtain ⟨pc',s',ran,rfl⟩ := Threads.step_eq_some.mp stepped
  have finished := holds.1.returned returned
  rcases label with ⟨t,choice⟩
  dsimp only at ran
  generalize at_ : c.locals t = pc at ran
  cases prog_step ran with
  | append =>
    have overtaken := (holds.2 t).checked (by simp [at_]) finished
    exact absurd overtaken (allowed _ at_)
  | isEmptyAll | unlockAll => exact ⟨by simp [returnAll,release,returned],rfl⟩
  | _ => exact ⟨returned,rfl⟩

/-- Once a close has returned no waiter is linked, and none is linked ever after, in every run
in which no suspend that a close overtook goes on to link its waiter. -/
theorem close_clears {labels labels' : List (θ × Label ω α)} {c c' : Config θ ω α}
    (path : Transition.Path step NotOvertaken init labels c)
    (returned : c.shared.closeReturned = true)
    (later : Transition.Path step NotOvertaken c labels' c') :
    c'.shared.list = [] ∧ c'.shared.appended = c.shared.appended := by
  have closing := path.invariant Closing
    (fun _ _ _ closing allowed stepped => step_closing closing allowed stepped) init_closing
  have after := later.invariant
    (fun d => Closing d ∧ d.shared.closeReturned = true ∧ d.shared.appended = c.shared.appended)
    (fun d l next ⟨closing,returned,same⟩ allowed stepped => by
      obtain ⟨still,appended⟩ := closing.step_appended returned allowed stepped
      exact ⟨step_closing closing allowed stepped,still,appended.trans same⟩)
    ⟨closing,returned,rfl⟩
  obtain ⟨⟨_,_,holds⟩,returned',same⟩ := after
  exact ⟨holds.1.list (holds.1.returned returned'),same⟩

theorem step_overtaken {c next : Config θ ω α} {label : θ × Label ω α}
    (returned : c.shared.overtaken ≠ none → c.shared.closeReturned = true)
    (stepped : step c label = some next) :
    next.shared.overtaken ≠ none → next.shared.closeReturned = true := by
  obtain ⟨pc',s',ran,rfl⟩ := Threads.step_eq_some.mp stepped
  generalize c.locals label.1 = pc at ran
  rcases label with ⟨t,choice⟩
  cases prog_step ran with
  | @isEmptyAll all =>
    cases closing : all.closing
    · simpa [returnAll,closing] using returned
    · simp [returnAll,closing]
  | unlockDone | unlockPending | unlockUnlinked | unlockTaken | unlockNone | unlockAll =>
    simp [WaitList.release,WaitList.resolve,returnAll]
  | _ => exact returned

/-- The excluded step does break the promise: the waiter is linked when its suspend leaves the
lock, after a close has returned. -/
theorem overtaken_parks {labels : List (θ × Label ω α)} {c : Config θ ω α} {t : θ} {w : ω}
    (path : Transition.Path step Transition.anyStep init labels c) (at_ : c.locals t = .append w)
    (overtaken : c.shared.overtaken = some t) :
    ∃ c', Transition.Path step Transition.anyStep c [(t,.next),(t,.next)] c' ∧
      c'.shared.closeReturned = true ∧ (∀ u, (c'.locals u).critical = false) ∧
      w ∈ c'.shared.list := by
  have returned := path.invariant
    (fun c : Config θ ω α => c.shared.overtaken ≠ none → c.shared.closeReturned = true)
    (fun _ _ _ returned _ stepped => step_overtaken returned stepped) (by simp [init,new])
  obtain ⟨a,base⟩ := reachable_holds path
  have held := (base.2 t).lock.mpr (by simp [at_])
  refine ⟨_,.cons trivial (Threads.step_eq_some.mpr ⟨_,_,by rw [at_]; rfl,rfl⟩)
    (.cons trivial (Threads.step_eq_some.mpr ⟨_,_,by simp only [Function.update_self]; rfl,rfl⟩)
    .nil),?_,?_,?_⟩
  · exact returned (by simp [overtaken])
  · intro u
    by_cases same : u = t
    · subst same; simp
    · have other : ¬ c.shared.lock = some u := by simp [held,Ne.symm same]
      simpa [same] using mt (base.2 u).lock.mpr other
  · simp [release]

/-- One waiter parks, and a close completes it. -/
def closeTrace : List (Bool × Label Nat Unit) :=
  [(true,.call (.wait 0)),(true,.interrupted false),(true,.next),(true,.next),(true,.next),
    (true,.next),(true,.block true),(true,.next),(true,.next),(false,.call (.close ())),
    (false,.next),(false,.next),(false,.next),(false,.next),(false,.next),
    (false,.clone (.ok ())),(false,.next)]

theorem close_clears_parked : ∃ c, Transition.run step closeTrace init = some c ∧
    c.shared.list = [] ∧ c.shared.appended = [0] := by
  obtain ⟨c,executed,returned,appended,same⟩ : ∃ c, Transition.run
      (fun c l => if notOvertaken c l then step c l else none) closeTrace init = some c ∧
      c.shared.closeReturned = true ∧ c.shared.appended = [0] ∧
      Transition.run step closeTrace init = some c := ⟨_,rfl,rfl,rfl,rfl⟩
  have path := Transition.run_path_checked notOvertaken notOvertaken_sound executed
  exact ⟨c,same,(close_clears path returned .nil).1,appended⟩

/-- `empty` is true after a wait that did not block; a suspend has passed its check of `closed`
when a close comes and goes, and parks for ever. -/
def overtakeTrace : List (Bool × Label Nat Unit) :=
  [(true,.call (.wait 0)),(true,.interrupted false),(true,.next),(true,.next),(true,.next),
    (true,.next),(true,.block false),(true,.next),(true,.next),(true,.next),
    (true,.call (.wait 1)),(true,.interrupted false),(true,.next),(true,.next),(true,.next),
    (false,.call (.close ())),(false,.next),(false,.next),
    (true,.next),(true,.block true),(true,.next),(true,.next)]

theorem close_misses_waiter :
    ¬ ∀ (labels : List (Bool × Label Nat Unit)) c,
      Transition.Path step Transition.anyStep init labels c → c.shared.closeReturned = true →
      (∀ t, (c.locals t).critical = false) → c.shared.list = [] := by
  intro always
  obtain ⟨c,executed,returned,parked,left,linked⟩ : ∃ c,
      Transition.run step overtakeTrace init = some c ∧ c.shared.closeReturned = true ∧
      c.locals true = .parked 1 ∧ c.locals false = .returned (.wakeAll 0) ∧
      c.shared.list = [1] := ⟨_,rfl,rfl,rfl,rfl,rfl⟩
  have empty := always _ c (Transition.run_path (fun _ _ _ => trivial) executed) returned
    (fun t => by cases t <;> simp [parked,left])
  simp [linked] at empty

end XxCore.Sync.WaitList
