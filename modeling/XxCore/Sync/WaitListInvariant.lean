import XxCore.Sync.WaitListSteps

/-! The invariant of the wait list: who holds the lock, which thread owns which waiter, and what
the `empty` flag promises. The auxiliary value gives every waiter its phase. -/
namespace XxCore.Sync.WaitList

variable {θ ω α : Type}

/-- Where a waiter stands. A waiter that is not linked has at most one owner, the thread that
suspends it or the one that took it off the list. -/
inductive Phase (θ α : Type) where
  | fresh
  | suspending (owner : θ)
  | linked
  | taken (owner : θ)
  | resolved (resolution : Resolution α)

/-- The waiter has been in the list. -/
def Phase.wasLinked : Phase θ α → Bool
  | .linked | .taken _ | .resolved (.complete _) => true
  | _ => false

/-- What has been reported about a waiter in this phase. -/
def Phase.reported : Phase θ α → List (Resolution α)
  | .resolved resolution => [resolution]
  | _ => []

def Phase.ownedBy (u : θ) (phase : Phase θ α) : Prop := phase = .suspending u ∨ phase = .taken u

/-- The thread holds the lock. -/
def Pc.critical : Pc ω α → Bool
  | .loadClosed _ | .storeEmpty _ | .shouldBlock _ | .dropEmpty _ | .unlockDone _ _ | .append _
  | .unlockPending _ | .unlink _ | .unlockUnlinked | .unlockTaken _ _ _ | .popFront _ | .unlockNone
  | .popNext _ _ | .completeNext _ _ _ | .unlockAll _ _ => true
  | _ => false

/-- The waiter a thread suspends and has not linked yet. -/
def Pc.suspends : Pc ω α → Option ω
  | .checkInterrupt w | .addCount w | .suspendLock w | .loadClosed w | .storeEmpty w
  | .shouldBlock w | .dropEmpty w | .unlockDone w _ | .append w => some w
  | _ => none

/-- The waiter a thread took off the list and has not completed yet. -/
def Pc.takes : Pc ω α → Option ω
  | .unlockTaken w _ _ | .complete w _ _ | .completeNext _ _ w => some w
  | _ => none

/-- Between the two stores of the `Empty` guard, or before the append that replaces the second. -/
def Pc.cleared : Pc ω α → Bool
  | .shouldBlock _ | .dropEmpty _ | .append _ => true
  | _ => false

/-- The waiter whose `suspend` linked it. -/
def Pc.pends : Pc ω α → Option ω
  | .unlockPending w | .parked w => some w
  | _ => none

abbrev Phases (θ ω α : Type) := ω → Phase θ α

structure SharedInv (a : Phases θ ω α) (s : WaitList θ ω α) : Prop where
  fresh : ∀ w, w ∉ s.entered → a w = .fresh
  linked : ∀ w, w ∈ s.list ↔ a w = .linked
  appended : ∀ w, w ∈ s.appended ↔ (a w).wasLinked = true
  order : s.list.Sublist s.appended
  once : s.appended.Nodup
  resolutions : ∀ w, s.resolutions w = (a w).reported
  empty : s.empty = true → s.list = []

structure ThreadInv (a : Phases θ ω α) (t : θ) (s : WaitList θ ω α) (pc : Pc ω α) : Prop where
  lock : s.lock = some t ↔ pc.critical = true
  suspends : ∀ w, pc.suspends = some w → a w = .suspending t
  takes : ∀ w, pc.takes = some w ↔ a w = .taken t
  cleared : pc.cleared = true → s.empty = false
  pends : ∀ w, pc.pends = some w → w ∈ s.appended

def outline : Threads.Outline (Phases θ ω α) θ (WaitList θ ω α) (Pc ω α) := ⟨SharedInv,ThreadInv⟩

/-- What a step of `t` leaves to the other threads. -/
structure Frame (t : θ) (a a' : Phases θ ω α) (s s' : WaitList θ ω α) : Prop where
  lock : ∀ u, u ≠ t → (s'.lock = some u ↔ s.lock = some u)
  owned : ∀ u, u ≠ t → ∀ w, (a w).ownedBy u ∨ (a' w).ownedBy u → a' w = a w
  empty : s.lock = some t ∨ s'.empty = s.empty
  appended : ∀ w, w ∈ s.appended → w ∈ s'.appended

theorem ThreadInv.frame {a a' : Phases θ ω α} {s s' : WaitList θ ω α} {t u : θ} {pc : Pc ω α}
    (other : ThreadInv a u s pc) (frame : Frame t a a' s s') (ne : u ≠ t) :
    ThreadInv a' u s' pc := by
  refine ⟨(frame.lock u ne).trans other.lock,?_,?_,?_,?_⟩
  · intro w suspends
    have phase := other.suspends w suspends
    rw [frame.owned u ne w (.inl (.inl phase)),phase]
  · intro w
    rw [other.takes]
    constructor
    · exact fun phase => by rw [frame.owned u ne w (.inl (.inr phase)),phase]
    · exact fun phase => by rw [← frame.owned u ne w (.inr (.inr phase)),phase]
  · intro cleared
    have critical : pc.critical = true := by
      cases pc <;> simp_all [Pc.cleared,Pc.critical]
    rcases frame.empty with held | same
    · have mine := other.lock.mpr critical
      rw [held] at mine
      exact absurd (Option.some.inj mine).symm ne
    · exact same.trans (other.cleared cleared)
  · exact fun w pends => frame.appended w (other.pends w pends)

theorem keeps_of_frame {a a' : Phases θ ω α} {c : Config θ ω α} {t : θ} {s' : WaitList θ ω α}
    {pc' : Pc ω α} (holds : outline.Holds a c) (frame : Frame t a a' c.shared s')
    (shared : SharedInv a' s') (own : ThreadInv a' t s' pc') : outline.Keeps a a' t s' pc' c :=
  ⟨shared,own,fun u ne => (holds.2 u).frame frame ne⟩

/-- How a step of `t` may change the lock. -/
def LockStep (t : θ) (s s' : WaitList θ ω α) : Prop :=
  s'.lock = s.lock ∨ (s.lock = none ∧ s'.lock = some t) ∨ (s.lock = some t ∧ s'.lock = none)

theorem LockStep.others {t : θ} {s s' : WaitList θ ω α} (lock : LockStep t s s') (u : θ)
    (ne : u ≠ t) : s'.lock = some u ↔ s.lock = some u := by
  rcases lock with same | ⟨free,held⟩ | ⟨held,free⟩
  · rw [same]
  · simp [free,held,ne.symm]
  · simp [free,held,ne.symm]

/-- A new phase for one waiter, given by the thread that owns it or that may take it. -/
theorem Frame.update [DecidableEq ω] {a : Phases θ ω α} {s s' : WaitList θ ω α} {t : θ} {w : ω}
    (phase : Phase θ α) (lock : LockStep t s s') (owned : ∀ u, u ≠ t → ¬ (a w).ownedBy u ∧ ¬ phase.ownedBy u)
    (empty : s.lock = some t ∨ s'.empty = s.empty)
    (appended : ∀ w, w ∈ s.appended → w ∈ s'.appended) :
    Frame t a (Function.update a w phase) s s' := by
  refine ⟨lock.others,?_,empty,appended⟩
  intro u ne w' own
  by_cases same : w' = w
  · subst same
    rw [Function.update_self] at own
    exact (own.elim (owned u ne).1 (owned u ne).2).elim
  · simp [same]

/-- The assertion about the shared state reads only the list, its history and the flag. -/
theorem SharedInv.congr {a : Phases θ ω α} {s s' : WaitList θ ω α} (inv : SharedInv a s)
    (entered : s'.entered = s.entered) (list : s'.list = s.list)
    (appended : s'.appended = s.appended) (resolutions : s'.resolutions = s.resolutions)
    (empty : s'.empty = true → s'.list = []) : SharedInv a s' :=
  ⟨by rw [entered]; exact inv.fresh,by rw [list]; exact inv.linked,
    by rw [appended]; exact inv.appended,by rw [list,appended]; exact inv.order,
    by rw [appended]; exact inv.once,by rw [resolutions]; exact inv.resolutions,empty⟩

/-- A step that moves no waiter: it may take or release the lock, or store `empty` under it. -/
structure Quiet (t : θ) (s s' : WaitList θ ω α) (pc pc' : Pc ω α) : Prop where
  lock : (s'.lock = s.lock ∧ pc'.critical = pc.critical) ∨
    (s.lock = none ∧ s'.lock = some t ∧ pc'.critical = true) ∨
    (pc.critical = true ∧ s'.lock = none ∧ pc'.critical = false)
  entered : s'.entered = s.entered
  list : s'.list = s.list
  appended : s'.appended = s.appended
  resolutions : s'.resolutions = s.resolutions
  empty : s'.empty = s.empty ∨ (pc.critical = true ∧ (s'.empty = true → s.list = []))
  suspends : ∀ w, pc'.suspends = some w → pc.suspends = some w
  takes : pc'.takes = pc.takes
  cleared : pc'.cleared = true → s'.empty = false
  pends : ∀ w, pc'.pends = some w → pc.pends = some w

theorem Quiet.keeps {a : Phases θ ω α} {c : Config θ ω α} {t : θ} {s' : WaitList θ ω α}
    {pc' : Pc ω α} (holds : outline.Holds a c) (quiet : Quiet t c.shared s' (c.locals t) pc') :
    outline.Keeps a a t s' pc' c := by
  obtain ⟨shared,threads⟩ := holds
  have own := threads t
  have lock : LockStep t c.shared s' := by
    rcases quiet.lock with ⟨same,_⟩ | ⟨free,held,_⟩ | ⟨critical,free,_⟩
    · exact .inl same
    · exact .inr (.inl ⟨free,held⟩)
    · exact .inr (.inr ⟨own.lock.mpr critical,free⟩)
  refine keeps_of_frame ⟨shared,threads⟩ ⟨lock.others,fun _ _ _ _ => rfl,?_,?_⟩ ?_ ?_
  · exact quiet.empty.symm.imp_left fun h => own.lock.mpr h.1
  · exact fun w mem => quiet.appended ▸ mem
  · refine shared.congr quiet.entered quiet.list quiet.appended quiet.resolutions fun empty => ?_
    rw [quiet.list]
    rcases quiet.empty with same | ⟨_,emptied⟩
    · exact shared.empty (same ▸ empty)
    · exact emptied empty
  · refine ⟨?_,fun w h => own.suspends w (quiet.suspends w h),
      fun w => by rw [quiet.takes]; exact own.takes w,quiet.cleared,fun w h => ?_⟩
    · rcases quiet.lock with ⟨same,critical⟩ | ⟨_,held,critical⟩ | ⟨_,free,critical⟩
      · rw [same,critical]; exact own.lock
      · simp [held,critical]
      · simp [free,critical]
    · rw [quiet.appended]; exact own.pends w (quiet.pends w h)

theorem init_holds : outline.Holds (fun _ => .fresh) (init : Config θ ω α) := by
  refine ⟨?_,fun t => ?_⟩
  · constructor <;> simp [init,new,Phase.wasLinked,Phase.reported]
  · constructor <;> simp [init,new,Pc.critical,Pc.suspends,Pc.takes,Pc.cleared,Pc.pends]

theorem SharedInv.resolved_once {a : Phases θ ω α} {s : WaitList θ ω α} (inv : SharedInv a s) (w : ω) :
    (s.resolutions w).length ≤ 1 := by
  rw [inv.resolutions]
  cases a w <;> simp [Phase.reported]

variable [DecidableEq ω]

/-- In a list without repetitions the head of a sublist comes before the rest of it. -/
theorem idxOf_lt_of_sublist {l rest : List ω} {w x : ω} (sub : (w :: rest).Sublist l)
    (nodup : l.Nodup) (mem : x ∈ rest) : l.idxOf w < l.idxOf x := by
  induction l with
  | nil => cases sub
  | cons y l ih =>
    have fresh := (List.nodup_cons.mp nodup).1
    cases sub with
    | cons _ sub =>
      have neW : y ≠ w := fun same => fresh (same ▸ sub.subset (by simp))
      have neX : y ≠ x := fun same => fresh (same ▸ sub.subset (by simp [mem]))
      simpa [List.idxOf_cons,neW,neX] using ih sub (List.nodup_cons.mp nodup).2
    | cons_cons _ sub =>
      have neX : w ≠ x := fun same => fresh (same ▸ sub.subset mem)
      simp [neX]

/-- The head of the list has been linked longest. -/
theorem SharedInv.oldest {a : Phases θ ω α} {s : WaitList θ ω α} (inv : SharedInv a s) {w x : ω}
    {rest : List ω} (list : s.list = w :: rest) (mem : x ∈ rest) :
    s.appended.idxOf w < s.appended.idxOf x :=
  idxOf_lt_of_sublist (list ▸ inv.order) inv.once mem

theorem SharedInv.enter {a : Phases θ ω α} {s : WaitList θ ω α} (inv : SharedInv a s) (t : θ)
    {w : ω} (new : w ∉ s.entered) :
    SharedInv (Function.update a w (.suspending t)) { s with entered := w :: s.entered } := by
  have fresh := inv.fresh w new
  refine ⟨?_,?_,?_,inv.order,inv.once,?_,inv.empty⟩
  all_goals intro w'; by_cases same : w' = w
  · subst same; simp
  · simpa [same] using inv.fresh w'
  · subst same; simp [inv.linked,fresh]
  · simpa [same] using inv.linked w'
  · subst same; simp [inv.appended,fresh,Phase.wasLinked]
  · simpa [same] using inv.appended w'
  · subst same; simp [inv.resolutions,fresh,Phase.reported]
  · simpa [same] using inv.resolutions w'

theorem SharedInv.append {a : Phases θ ω α} {s : WaitList θ ω α} (inv : SharedInv a s) {t : θ}
    {w : ω} (owned : a w = .suspending t) (cleared : s.empty = false) :
    SharedInv (Function.update a w .linked)
      { s with list := s.list ++ [w], appended := s.appended ++ [w] } := by
  have unlinked : w ∉ s.appended := by simp [inv.appended,owned,Phase.wasLinked]
  refine ⟨?_,?_,?_,inv.order.append (.refl _),?_,?_,by simp [cleared]⟩
  · intro w' new
    by_cases same : w' = w
    · subst same; simp [inv.fresh _ new] at owned
    · simpa [same] using inv.fresh w' new
  · intro w'; by_cases same : w' = w
    · subst same; simp
    · simpa [same] using inv.linked w'
  · intro w'; by_cases same : w' = w
    · subst same; simp [Phase.wasLinked]
    · simpa [same] using inv.appended w'
  · exact List.nodup_append.mpr ⟨inv.once,List.nodup_singleton w,by
      rintro w' mem x last rfl
      exact unlinked (List.mem_singleton.mp last ▸ mem)⟩
  · intro w'; by_cases same : w' = w
    · subst same; simp [inv.resolutions,owned,Phase.reported]
    · simpa [same] using inv.resolutions w'

theorem SharedInv.take {a : Phases θ ω α} {s : WaitList θ ω α} (inv : SharedInv a s) (t : θ)
    {w : ω} {rest : List ω} (linked : w ∈ s.list) (sub : rest.Sublist s.list)
    (mem : ∀ w', w' ∈ rest ↔ w' ≠ w ∧ w' ∈ s.list) :
    SharedInv (Function.update a w (.taken t)) { s with list := rest } := by
  have phase := (inv.linked w).mp linked
  refine ⟨?_,?_,?_,sub.trans inv.order,inv.once,?_,?_⟩
  · intro w' new
    by_cases same : w' = w
    · subst same; simp [inv.fresh _ new] at phase
    · simpa [same] using inv.fresh w' new
  · intro w'; by_cases same : w' = w
    · subst same; simp [mem]
    · simp [same,mem,inv.linked]
  · intro w'; by_cases same : w' = w
    · subst same; simp [inv.appended,phase,Phase.wasLinked]
    · simpa [same] using inv.appended w'
  · intro w'; by_cases same : w' = w
    · subst same; simp [inv.resolutions,phase,Phase.reported]
    · simpa [same] using inv.resolutions w'
  · intro empty
    simp [inv.empty empty] at linked

/-- The owner of a waiter reports its result, in the way that fits whether it was linked. -/
theorem SharedInv.resolve {a : Phases θ ω α} {s : WaitList θ ω α} (inv : SharedInv a s) {t : θ}
    {w : ω} (resolution : Resolution α) (owned : (a w).ownedBy t)
    (fits : (Phase.resolved resolution : Phase θ α).wasLinked = (a w).wasLinked) :
    SharedInv (Function.update a w (.resolved resolution)) (s.resolve w resolution) := by
  have none : s.resolutions w = [] := by
    rcases owned with phase | phase <;> simp [inv.resolutions,phase,Phase.reported]
  have unlinked : w ∉ s.list := by
    rcases owned with phase | phase <;> simp [inv.linked,phase]
  refine ⟨?_,?_,?_,inv.order,inv.once,?_,inv.empty⟩
  · intro w' new
    by_cases same : w' = w
    · subst same
      rcases owned with phase | phase <;> simp [inv.fresh _ new] at phase
    · simpa [same] using inv.fresh w' new
  · intro w'; by_cases same : w' = w
    · subst same; simpa [WaitList.resolve] using unlinked
    · simpa [same,WaitList.resolve] using inv.linked w'
  · intro w'; by_cases same : w' = w
    · subst same; simp [WaitList.resolve,fits,inv.appended]
    · simpa [same,WaitList.resolve] using inv.appended w'
  · intro w'; by_cases same : w' = w
    · subst same; simp [WaitList.resolve,none,Phase.reported]
    · simpa [same,WaitList.resolve] using inv.resolutions w'

/-- What a thread takes, after a step that gives one waiter a new phase. -/
theorem ThreadInv.takes_update {a : Phases θ ω α} {s : WaitList θ ω α} {t : θ} {w : ω}
    {pc pc' : Pc ω α} (own : ThreadInv a t s pc) (phase : Phase θ α)
    (before : ∀ w', w' ≠ w → pc.takes ≠ some w') (after : ∀ w', w' ≠ w → pc'.takes ≠ some w')
    (here : pc'.takes = some w ↔ phase = .taken t) (w' : ω) :
    pc'.takes = some w' ↔ Function.update a w phase w' = .taken t := by
  by_cases same : w' = w
  · subst same; simpa using here
  · simp [same,after w' same,before w' same,← own.takes]

/-- The holder of the lock takes a waiter off the list. -/
theorem take_keeps {a : Phases θ ω α} {c : Config θ ω α} {t : θ} {pc' : Pc ω α}
    (holds : outline.Holds a c) (critical : (c.locals t).critical = true)
    (before : (c.locals t).takes = none) {w : ω} {rest : List ω} (linked : w ∈ c.shared.list)
    (sub : rest.Sublist c.shared.list) (mem : ∀ w', w' ∈ rest ↔ w' ≠ w ∧ w' ∈ c.shared.list)
    (takes : pc'.takes = some w) (held : pc'.critical = true) :
    ∃ a', outline.Keeps a a' t { c.shared with list := rest } pc' c := by
  have phase := (holds.1.linked w).mp linked
  have own := holds.2 t
  have lock := own.lock.mpr critical
  refine ⟨_,keeps_of_frame holds (.update (w := w) (.taken t) (.inl rfl) ?_ (.inl lock)
    fun _ mem => mem) (holds.1.take t linked sub mem) ?_⟩
  · simp [Phase.ownedBy,phase,eq_comm]
  · have takes' := own.takes_update (.taken t) (by simp [before])
      (by simp [takes,eq_comm]) (show pc'.takes = some w ↔ _ by simp [takes])
    cases pc' <;> simp only [Pc.takes,Pc.critical,reduceCtorEq,Bool.false_eq_true] at takes held
    all_goals exact ⟨by simp [lock,Pc.critical],by simp [Pc.suspends],takes',by simp [Pc.cleared],
      by simp [Pc.pends]⟩

/-- `pop_front` under the lock. -/
theorem pop_keeps {a : Phases θ ω α} {c : Config θ ω α} {t : θ} {pc' : Pc ω α}
    (holds : outline.Holds a c) (critical : (c.locals t).critical = true)
    (before : (c.locals t).takes = none) {w : ω} {rest : List ω} (list : c.shared.list = w :: rest)
    (takes : pc'.takes = some w) (held : pc'.critical = true) :
    ∃ a', outline.Keeps a a' t { c.shared with list := rest } pc' c := by
  have nodup := holds.1.once.sublist holds.1.order
  rw [list,List.nodup_cons] at nodup
  refine take_keeps holds critical before (by simp [list]) (by simp [list]) (fun w' => ?_) takes held
  rw [list]
  by_cases same : w' = w
  · subst same; simp [nodup.1]
  · simp [same]

/-- The thread that took a waiter off the list completes its request. -/
theorem complete_keeps {a : Phases θ ω α} {c : Config θ ω α} {t : θ} {pc' : Pc ω α} {w : ω}
    (result : WaitResult α) (holds : outline.Holds a c) (takes : (c.locals t).takes = some w)
    (critical : pc'.critical = (c.locals t).critical) (suspends : pc'.suspends = none)
    (rest : pc'.takes = none) (cleared : pc'.cleared = false) (pends : pc'.pends = none) :
    ∃ a', outline.Keeps a a' t (c.shared.resolve w (.complete result)) pc' c := by
  have own := holds.2 t
  have phase := (own.takes w).mp takes
  refine ⟨_,keeps_of_frame holds (.update (w := w) (.resolved (.complete result)) (.inl rfl) ?_
    (.inr rfl) fun _ mem => mem) (holds.1.resolve _ (.inr phase) (by simp [Phase.wasLinked,phase])) ?_⟩
  · simp [Phase.ownedBy,phase,eq_comm]
  · refine ⟨?_,fun w h => ?_,?_,fun h => ?_,fun w h => ?_⟩
    · rw [critical]; exact own.lock
    · rw [suspends] at h; contradiction
    · exact own.takes_update _ (by simp [takes,eq_comm]) (by simp [rest]) (by simp [rest])
    · rw [cleared] at h; contradiction
    · rw [pends] at h; contradiction

attribute [local simp] Pc.critical Pc.suspends Pc.takes Pc.cleared Pc.pends

/-- A suspend returns `Done` for its waiter and leaves the lock. -/
theorem done_keeps {a : Phases θ ω α} {c : Config θ ω α} {t : θ} {w : ω} {error : WaitError}
    (holds : outline.Holds a c) (at_ : c.locals t = .unlockDone w error) :
    ∃ a', outline.Keeps a a' t ((release c.shared).resolve w (.done (.error error)))
      (.subCount (.error error)) c := by
  have own := holds.2 t
  rw [at_] at own
  have phase := own.suspends w rfl
  have held := own.lock.mpr rfl
  refine ⟨_,keeps_of_frame holds (.update (w := w) (.resolved (.done (.error error)))
    (.inr (.inr ⟨held,rfl⟩)) ?_ (.inl held) fun _ mem => mem) ?_ ?_⟩
  · simp [Phase.ownedBy,phase,eq_comm]
  · exact (holds.1.congr rfl rfl rfl rfl holds.1.empty : SharedInv a (release c.shared)).resolve
      _ (.inl phase) (by simp [Phase.wasLinked,phase])
  · refine ⟨?_,by simp,own.takes_update _ (by simp) (by simp) (by simp),by simp,by simp⟩
    simp [WaitList.resolve,release]

theorem append_keeps {a : Phases θ ω α} {c : Config θ ω α} {t : θ} {w : ω}
    (holds : outline.Holds a c) (at_ : c.locals t = .append w) :
    ∃ a', outline.Keeps a a' t
      { c.shared with list := c.shared.list ++ [w], appended := c.shared.appended ++ [w] }
      (.unlockPending w) c := by
  have own := holds.2 t
  rw [at_] at own
  have phase := own.suspends w rfl
  have held := own.lock.mpr rfl
  refine ⟨_,keeps_of_frame holds (.update (w := w) .linked (.inl rfl) ?_ (.inl held)
    fun _ mem => by simp [mem]) (holds.1.append phase (own.cleared rfl)) ?_⟩
  · simp [Phase.ownedBy,phase,eq_comm]
  · exact ⟨by simp [held],by simp,own.takes_update _ (by simp) (by simp) (by simp),by simp,by simp⟩

theorem enter_keeps {a : Phases θ ω α} {c : Config θ ω α} {t : θ} {w : ω}
    (holds : outline.Holds a c) (free : (c.locals t).isFree = true) (new : w ∉ c.shared.entered) :
    ∃ a', outline.Keeps a a' t { c.shared with entered := w :: c.shared.entered }
      (.checkInterrupt w) c := by
  have own := holds.2 t
  have none : (c.locals t).takes = none := by cases at_ : c.locals t <;> simp_all [Pc.isFree]
  have lock : c.shared.lock ≠ some t := by
    rw [Ne,own.lock]
    cases at_ : c.locals t <;> simp_all [Pc.isFree]
  have phase := holds.1.fresh w new
  refine ⟨_,keeps_of_frame holds (.update (w := w) (.suspending t) (.inl rfl) ?_ (.inr rfl)
    fun _ mem => mem) (holds.1.enter t new) ?_⟩
  · simp [Phase.ownedBy,phase,eq_comm]
  · exact ⟨by simp [lock],by simp,own.takes_update _ (by simp only [none]; simp) (by simp) (by simp),
      by simp,by simp⟩

theorem step_keeps {a : Phases θ ω α} {c : Config θ ω α} {t : θ} {label : Label ω α}
    {s' : WaitList θ ω α} {pc pc' : Pc ω α} (holds : outline.Holds a c) (at_ : c.locals t = pc)
    (stepped : Step t c.shared pc label pc' s') : ∃ a', outline.Keeps a a' t s' pc' c := by
  have own : ThreadInv a t c.shared pc := at_ ▸ holds.2 t
  have quiet (h : Quiet t c.shared s' pc pc') : ∃ a', outline.Keeps a a' t s' pc' c :=
    ⟨a,Quiet.keeps holds (at_ ▸ h)⟩
  cases stepped with
  | wait free new => exact enter_keeps holds (at_ ▸ free) new
  | unlockDone => exact done_keeps holds at_
  | append => exact append_keeps holds at_
  | unlink linked =>
    have nodup := holds.1.once.sublist holds.1.order
    exact take_keeps holds (by simp [at_]) (by simp [at_]) linked List.erase_sublist
      (fun w' => by simp [nodup.mem_erase_iff]) rfl rfl
  | popFront list => exact pop_keeps holds (by simp [at_]) (by simp [at_]) list rfl rfl
  | popNext list => exact pop_keeps holds (by simp [at_]) (by simp [at_]) list rfl rfl
  | complete => exact complete_keeps _ holds (by simp [at_]) (by simp [at_]) rfl rfl rfl rfl
  | completeLast => exact complete_keeps _ holds (by simp [at_]) (by simp [at_]) rfl rfl rfl rfl
  | completeNext => exact complete_keeps _ holds (by simp [at_]) (by simp [at_]) rfl rfl rfl rfl
  | cancel free | wakeOne free | wakeAll free | close free =>
    apply quiet
    cases pc <;> simp only [Pc.isFree,Bool.false_eq_true] at free <;> constructor <;> simp
  | suspendLock free | cancelLock free | wakeLock free | wakeAllLock free =>
    apply quiet
    constructor <;> simp [free]
  | block | noBlock =>
    have cleared := own.cleared rfl
    apply quiet
    constructor <;> simp [cleared]
  | _ =>
    apply quiet
    constructor <;> simp [release,returnAll]

variable [DecidableEq θ]

theorem step_holds {c next : Config θ ω α} {label : θ × Label ω α}
    (base : ∃ a, outline.Holds a c) (stepped : step c label = some next) :
    ∃ a, outline.Holds a next := by
  obtain ⟨a,base⟩ := base
  obtain ⟨pc',s',ran,rfl⟩ := Threads.step_eq_some.mp stepped
  obtain ⟨a',kept⟩ := step_keeps base rfl (prog_step ran)
  exact ⟨a',kept.holds⟩

/-- Every reachable state of the list has phases that explain it. -/
theorem reachable_holds {allowed : Config θ ω α → θ × Label ω α → Prop}
    {labels : List (θ × Label ω α)} {c : Config θ ω α}
    (path : Transition.Path step allowed init labels c) : ∃ a, outline.Holds a c :=
  path.invariant (fun c => ∃ a, outline.Holds a c)
    (fun _ _ _ base _ stepped => step_holds base stepped) ⟨_,init_holds⟩

end XxCore.Sync.WaitList
