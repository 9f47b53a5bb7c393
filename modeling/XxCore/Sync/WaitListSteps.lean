import XxCore.Sync.WaitList

/-! The steps of the wait list as a relation: one constructor for each transition of a thread. -/
namespace XxCore.Sync.WaitList

variable {θ ω α : Type}

/-- The thread is between two calls. -/
def Pc.isFree : Pc ω α → Bool
  | .idle | .returned _ => true
  | _ => false

/-- Everything a thread can do in one step. -/
inductive Step [DecidableEq ω] (t : θ) (s : WaitList θ ω α) :
    Pc ω α → Label ω α → Pc ω α → WaitList θ ω α → Prop where
  | wait (free : pc.isFree = true) (new : w ∉ s.entered) :
    Step t s pc (.call (.wait w)) (.checkInterrupt w) { s with entered := w :: s.entered }
  | cancel (free : pc.isFree = true) (pending : w ∈ s.cancellable) :
    Step t s pc (.call (.cancel w)) (.cancelLock w)
      { s with cancellable := s.cancellable.erase w }
  | wakeOne (free : pc.isFree = true) : Step t s pc (.call (.wakeOne value)) (.loadEmpty value) s
  | wakeAll (free : pc.isFree = true) :
    Step t s pc (.call (.wakeAll value)) (.loadEmptyAll ⟨value,false⟩) s
  | close (free : pc.isFree = true) : Step t s pc (.call (.close value)) (.storeClosed value) s
  | interrupted : Step t s (.checkInterrupt w) (.interrupted true)
      (.returned (.waited (.error .cancelled))) s
  | uninterrupted : Step t s (.checkInterrupt w) (.interrupted false) (.addCount w) s
  | addCount : Step t s (.addCount w) .next (.suspendLock w) { s with count := s.count + 1 }
  | suspendLock (free : s.lock = none) :
    Step t s (.suspendLock w) .next (.loadClosed w) { s with lock := some t }
  | isClosed (closed : s.closed = true) :
    Step t s (.loadClosed w) .next (.unlockDone w .closed) s
  | isOpen (closed : s.closed = false) : Step t s (.loadClosed w) .next (.storeEmpty w) s
  | storeEmpty : Step t s (.storeEmpty w) .next (.shouldBlock w) { s with empty := false }
  | block : Step t s (.shouldBlock w) (.block true) (.append w) s
  | noBlock : Step t s (.shouldBlock w) (.block false) (.dropEmpty w) s
  | dropEmpty : Step t s (.dropEmpty w) .next (.unlockDone w .cancelled)
      { s with empty := s.list.isEmpty }
  | unlockDone : Step t s (.unlockDone w error) .next (.subCount (.error error))
      ((release s).resolve w (.done (.error error)))
  | append : Step t s (.append w) .next (.unlockPending w)
      { s with list := s.list ++ [w], appended := s.appended ++ [w] }
  | unlockPending : Step t s (.unlockPending w) .next (.parked w)
      { release s with cancellable := w :: s.cancellable }
  | resume (completed : s.resolutions w = .complete result :: rest) :
    Step t s (.parked w) .next (.subCount result) { s with cancellable := s.cancellable.erase w }
  | subCount : Step t s (.subCount result) .next (.returned (.waited result))
      { s with count := s.count - 1 }
  | cancelLock (free : s.lock = none) :
    Step t s (.cancelLock w) .next (.unlink w) { s with lock := some t }
  | unlink (linked : w ∈ s.list) : Step t s (.unlink w) .next
      (.unlockTaken w (.error .cancelled) .cancelled) { s with list := s.list.erase w }
  | unlinked (unlinked : w ∉ s.list) : Step t s (.unlink w) .next .unlockUnlinked s
  | unlockUnlinked : Step t s .unlockUnlinked .next (.returned .cancelled) (release s)
  | unlockTaken : Step t s (.unlockTaken w result value) .next (.complete w result value) (release s)
  | complete : Step t s (.complete w result value) .next (.returned value)
      (s.resolve w (.complete result))
  | isEmpty (empty : s.empty = true) :
    Step t s (.loadEmpty value) .next (.returned (.wakeOne false)) s
  | notEmpty (empty : s.empty = false) : Step t s (.loadEmpty value) .next (.wakeLock value) s
  | wakeLock (free : s.lock = none) :
    Step t s (.wakeLock value) .next (.popFront value) { s with lock := some t }
  | popNone (list : s.list = []) : Step t s (.popFront value) .next .unlockNone s
  | popFront (list : s.list = w :: rest) : Step t s (.popFront value) .next
      (.unlockTaken w (.ok (.ok value)) (.wakeOne true)) { s with list := rest }
  | unlockNone : Step t s .unlockNone .next (.returned (.wakeOne false)) (release s)
  | storeClosed : Step t s (.storeClosed value) .next (.loadEmptyAll ⟨value,true⟩)
      { s with closed := true }
  | isEmptyAll (empty : s.empty = true) : Step t s (.loadEmptyAll all) .next
      (.returned (.wakeAll 0))
      { s.returnAll all with overtaken := if all.closing then s.lock else s.overtaken }
  | notEmptyAll (empty : s.empty = false) : Step t s (.loadEmptyAll all) .next (.loadCount all) s
  | loadCount : Step t s (.loadCount all) .next (.wakeAllLock all s.count) s
  | wakeAllLock (free : s.lock = none) :
    Step t s (.wakeAllLock all n) .next (.popNext all n) { s with lock := some t }
  | popLast (list : s.list = []) : Step t s (.popNext all n) .next (.unlockAll all n) s
  | popNext (list : s.list = w :: rest) : Step t s (.popNext all n) .next
      (.completeNext all n w) { s with list := rest }
  | completeLast (list : s.list = []) : Step t s (.completeNext all n w) (.clone value)
      (.unlockAll all n) (s.resolve w (.complete (.ok (.ok all.value))))
  | completeNext (list : s.list ≠ []) : Step t s (.completeNext all n w) (.clone value)
      (.popNext all n) (s.resolve w (.complete (.ok value)))
  | unlockAll : Step t s (.unlockAll all n) .next (.returned (.wakeAll n))
      ((release s).returnAll all)

private theorem acquire_eq_some {t : θ} {s s' : WaitList θ ω α} {pc pc' : Pc ω α}
    (acquired : acquire t s pc = some (pc',s')) :
    s.lock = none ∧ pc' = pc ∧ s' = { s with lock := some t } := by
  simp only [acquire,Option.ite_none_right_eq_some,Option.some.injEq,Prod.mk.injEq] at acquired
  exact ⟨acquired.1,acquired.2.1.symm,acquired.2.2.symm⟩


private theorem start_step [DecidableEq ω] {t : θ} {s s' : WaitList θ ω α} {pc pc' : Pc ω α}
    {call : Call ω α} (free : pc.isFree = true) (started : start s call = some (pc',s')) :
    Step t s pc (.call call) pc' s' := by
  cases call with
  | wait w =>
    simp only [start,Option.ite_none_left_eq_some,Option.some.injEq,Prod.mk.injEq] at started
    obtain ⟨new,rfl,rfl⟩ := started
    exact .wait free new
  | cancel w =>
    simp only [start,Option.ite_none_right_eq_some,Option.some.injEq,Prod.mk.injEq] at started
    obtain ⟨pending,rfl,rfl⟩ := started
    exact .cancel free pending
  | wakeOne value => obtain ⟨rfl,rfl⟩ := Prod.mk.inj (Option.some.inj started); exact .wakeOne free
  | wakeAll value => obtain ⟨rfl,rfl⟩ := Prod.mk.inj (Option.some.inj started); exact .wakeAll free
  | close value => obtain ⟨rfl,rfl⟩ := Prod.mk.inj (Option.some.inj started); exact .close free

private theorem waitStep_step [DecidableEq ω] {t : θ} {s s' : WaitList θ ω α} {pc pc' : Pc ω α}
    {label : Label ω α} (stepped : waitStep t s pc label = some (pc',s')) :
    Step t s pc label pc' s' := by
  unfold waitStep at stepped
  split at stepped
  case h_3 => obtain ⟨free,rfl,rfl⟩ := acquire_eq_some stepped; exact .suspendLock free
  case h_11 =>
    split at stepped
    · rename_i completed
      obtain ⟨rfl,rfl⟩ := Prod.mk.inj (Option.some.inj stepped)
      exact .resume completed
    · contradiction
  case h_13 => contradiction
  all_goals obtain ⟨rfl,rfl⟩ := Prod.mk.inj (Option.some.inj stepped)
  case h_1 interrupted => cases interrupted <;> constructor
  case h_4 =>
    cases closed : s.closed
    · exact .isOpen closed
    · exact .isClosed closed
  case h_6 block => cases block <;> constructor
  all_goals constructor

private theorem cancelStep_step [DecidableEq ω] {t : θ} {s s' : WaitList θ ω α} {pc pc' : Pc ω α}
    {label : Label ω α} (stepped : cancelStep t s pc label = some (pc',s')) :
    Step t s pc label pc' s' := by
  unfold cancelStep at stepped
  split at stepped
  · obtain ⟨free,rfl,rfl⟩ := acquire_eq_some stepped; exact .cancelLock free
  · split at stepped
    all_goals
      rename_i linked
      obtain ⟨rfl,rfl⟩ := Prod.mk.inj (Option.some.inj stepped)
    · exact .unlink linked
    · exact .unlinked linked
  · obtain ⟨rfl,rfl⟩ := Prod.mk.inj (Option.some.inj stepped); exact .unlockUnlinked
  · contradiction

private theorem completeStep_step [DecidableEq ω] {t : θ} {s s' : WaitList θ ω α}
    {pc pc' : Pc ω α} {label : Label ω α} (stepped : completeStep s pc label = some (pc',s')) :
    Step t s pc label pc' s' := by
  unfold completeStep at stepped
  split at stepped
  · obtain ⟨rfl,rfl⟩ := Prod.mk.inj (Option.some.inj stepped); exact .unlockTaken
  · obtain ⟨rfl,rfl⟩ := Prod.mk.inj (Option.some.inj stepped); exact .complete
  · contradiction

private theorem wakeOneStep_step [DecidableEq ω] {t : θ} {s s' : WaitList θ ω α} {pc pc' : Pc ω α}
    {label : Label ω α} (stepped : wakeOneStep t s pc label = some (pc',s')) :
    Step t s pc label pc' s' := by
  unfold wakeOneStep at stepped
  split at stepped
  · obtain ⟨rfl,rfl⟩ := Prod.mk.inj (Option.some.inj stepped)
    cases empty : s.empty
    · exact .notEmpty empty
    · exact .isEmpty empty
  · obtain ⟨free,rfl,rfl⟩ := acquire_eq_some stepped; exact .wakeLock free
  · split at stepped
    all_goals
      rename_i list
      obtain ⟨rfl,rfl⟩ := Prod.mk.inj (Option.some.inj stepped)
    · exact .popNone list
    · exact .popFront list
  · obtain ⟨rfl,rfl⟩ := Prod.mk.inj (Option.some.inj stepped); exact .unlockNone
  · contradiction

private theorem wakeAllStep_step [DecidableEq ω] {t : θ} {s s' : WaitList θ ω α} {pc pc' : Pc ω α}
    {label : Label ω α} (stepped : wakeAllStep t s pc label = some (pc',s')) :
    Step t s pc label pc' s' := by
  unfold wakeAllStep at stepped
  split at stepped
  · obtain ⟨rfl,rfl⟩ := Prod.mk.inj (Option.some.inj stepped); exact .storeClosed
  · split at stepped
    all_goals
      rename_i empty
      obtain ⟨rfl,rfl⟩ := Prod.mk.inj (Option.some.inj stepped)
    · exact .isEmptyAll empty
    · exact .notEmptyAll (by simpa using empty)
  · obtain ⟨rfl,rfl⟩ := Prod.mk.inj (Option.some.inj stepped); exact .loadCount
  · obtain ⟨free,rfl,rfl⟩ := acquire_eq_some stepped; exact .wakeAllLock free
  · split at stepped
    all_goals
      rename_i list
      obtain ⟨rfl,rfl⟩ := Prod.mk.inj (Option.some.inj stepped)
    · exact .popLast list
    · exact .popNext list
  · split at stepped
    all_goals
      rename_i list
      obtain ⟨rfl,rfl⟩ := Prod.mk.inj (Option.some.inj stepped)
    · exact .completeLast (by simpa using list)
    · exact .completeNext (by simpa using list)
  · obtain ⟨rfl,rfl⟩ := Prod.mk.inj (Option.some.inj stepped); exact .unlockAll
  · contradiction

/-- The step lemma: what the invariants below look at instead of the code. -/
theorem prog_step [DecidableEq ω] {t : θ} {label : Label ω α} {s s' : WaitList θ ω α}
    {pc pc' : Pc ω α} (stepped : prog t label pc s = some (pc',s')) : Step t s pc label pc' s' := by
  unfold prog at stepped
  cases pc <;> simp only at stepped
  case idle | returned =>
    cases label with
    | call call => exact start_step rfl stepped
    | _ => contradiction
  case cancelLock | unlink | unlockUnlinked => exact cancelStep_step stepped
  case unlockTaken | complete => exact completeStep_step stepped
  case loadEmpty | wakeLock | popFront | unlockNone => exact wakeOneStep_step stepped
  case storeClosed | loadEmptyAll | loadCount | wakeAllLock | popNext | completeNext | unlockAll =>
    exact wakeAllStep_step stepped
  all_goals exact waitStep_step stepped

end XxCore.Sync.WaitList
