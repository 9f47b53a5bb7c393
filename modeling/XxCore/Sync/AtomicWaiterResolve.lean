import XxCore.Sync.AtomicWaiter

/-! How the requests of an `AtomicWaiter` are resolved. Every request that is neither resolved nor
stored in the word is in the hands of one thread, and the auxiliary value says which. -/
namespace XxCore.Sync.AtomicWaiter

variable {θ ρ α : Type}

def Pc.isFree : Pc ρ α → Bool
  | .idle | .returned _ => true
  | _ => false

/-- Everything a thread can do in one step. -/
inductive Step [DecidableEq ρ] (s : AtomicWaiter ρ α) :
    Pc ρ α → Label ρ α → Pc ρ α → AtomicWaiter ρ α → Prop where
  | suspend (free : pc.isFree = true) (new : r ∉ s.suspended) :
    Step s pc (.call (.suspend r)) (.load (.suspend r)) { s with suspended := r :: s.suspended }
  | callCancel (free : pc.isFree = true) : Step s pc (.call (.cancel r)) (.cancel r)
      { s with cancellable := s.cancellable.erase r }
  | callWake (free : pc.isFree = true) : Step s pc (.call (.wake value)) (.load (.wake value false)) s
  | callClose (free : pc.isFree = true) : Step s pc (.call (.close value)) (.load (.wake value true)) s
  | load (opened : s.waiter ≠ .closed) : Step s (.load update) .next (.exchange update s.waiter) s
  | loadClosed (closed : s.waiter = .closed) :
    Step s (.load update) .next (afterUpdate update .closed) s
  | exchange : Step s (.exchange update s.waiter) (.exchange false) (afterUpdate update s.waiter)
      { s with waiter := update.waiter }
  | retry (opened : s.waiter ≠ .closed) :
    Step s (.exchange update prev) (.exchange spurious) (.exchange update s.waiter) s
  | retryClosed (closed : s.waiter = .closed) :
    Step s (.exchange update prev) (.exchange spurious) (afterUpdate update .closed) s
  | block : Step s (.shouldBlock r prev) (.block true) (afterCheck s r prev none).1
      (afterCheck s r prev none).2
  | noBlock : Step s (.shouldBlock r prev) (.block false) (.cancelWait r prev) s
  | takeBack (waiter : s.waiter = .request r) : Step s (.cancelWait r prev) .next
      (afterCheck { s with waiter := .null } r prev (some .cancelled)).1
      (afterCheck { s with waiter := .null } r prev (some .cancelled)).2
  | missed : Step s (.cancelWait r prev) .next (afterCheck s r prev none).1
      (afterCheck s r prev none).2
  | replace : Step s (.replace r prev error) .next
      (finish (s.resolve prev (.inr (.error .cancelled))) r error).1
      (finish (s.resolve prev (.inr (.error .cancelled))) r error).2
  | wake : Step s (.wake prev value) .next (.returned (.wake true)) (s.resolve prev (.inr (.ok value)))
  | cancel (waiter : s.waiter = .request r) : Step s (.cancel r) .next (.cancelled r)
      { s with waiter := .null }
  | cancelMissed : Step s (.cancel r) .next (.returned .cancelled) s
  | cancelled : Step s (.cancelled r) .next (.returned .cancelled)
      (s.resolve r (.inr (.error .cancelled)))

private theorem start_step [DecidableEq ρ] {s s' : AtomicWaiter ρ α} {pc pc' : Pc ρ α}
    {call : Call ρ α} (free : pc.isFree = true) (started : start s call = some (pc',s')) :
    Step s pc (.call call) pc' s' := by
  cases call with
  | suspend r =>
    simp only [start,Option.ite_none_left_eq_some,Option.some.injEq,Prod.mk.injEq] at started
    obtain ⟨new,rfl,rfl⟩ := started
    exact .suspend free new
  | cancel r =>
    simp only [start,Option.ite_none_right_eq_some,Option.some.injEq,Prod.mk.injEq] at started
    obtain ⟨_,rfl,rfl⟩ := started
    exact .callCancel free
  | wake value => obtain ⟨rfl,rfl⟩ := Prod.mk.inj (Option.some.inj started); exact .callWake free
  | close value => obtain ⟨rfl,rfl⟩ := Prod.mk.inj (Option.some.inj started); exact .callClose free

theorem prog_step [DecidableEq ρ] {t : θ} {label : Label ρ α} {s s' : AtomicWaiter ρ α}
    {pc pc' : Pc ρ α} (stepped : prog t label pc s = some (pc',s')) : Step s pc label pc' s' := by
  unfold prog at stepped
  split at stepped
  · exact start_step rfl stepped
  · exact start_step rfl stepped
  · obtain ⟨rfl,rfl⟩ := Prod.mk.inj (Option.some.inj stepped)
    split
    · exact .loadClosed ‹_›
    · exact .load ‹_›
  · split at stepped
    · rename_i same
      obtain ⟨rfl,rfl⟩ := same
      obtain ⟨rfl,rfl⟩ := Prod.mk.inj (Option.some.inj stepped)
      exact .exchange
    · split at stepped
      all_goals
        rename_i closed
        obtain ⟨rfl,rfl⟩ := Prod.mk.inj (Option.some.inj stepped)
      · exact .retryClosed closed
      · exact .retry closed
  · rename_i block
    cases block <;> obtain ⟨rfl,rfl⟩ := Prod.mk.inj (Option.some.inj stepped)
    · exact .noBlock
    · exact .block
  · split at stepped
    all_goals
      rename_i waiter
      obtain ⟨rfl,rfl⟩ := Prod.mk.inj (Option.some.inj stepped)
    · exact .takeBack waiter
    · exact .missed
  · obtain ⟨rfl,rfl⟩ := Prod.mk.inj (Option.some.inj stepped); exact .replace
  · obtain ⟨rfl,rfl⟩ := Prod.mk.inj (Option.some.inj stepped); exact .wake
  · split at stepped
    all_goals
      rename_i waiter
      obtain ⟨rfl,rfl⟩ := Prod.mk.inj (Option.some.inj stepped)
    · exact .cancel waiter
    · exact .cancelMissed
  · obtain ⟨rfl,rfl⟩ := Prod.mk.inj (Option.some.inj stepped); exact .cancelled
  · contradiction

/-- Where a request stands. -/
inductive Phase (θ α : Type) where
  | fresh
  | held (owner : θ)
  | stored
  | resolved (resolution : WaitError ⊕ Except WaitError α)

def Phase.reported : Phase θ α → List (WaitError ⊕ Except WaitError α)
  | .resolved resolution => [resolution]
  | _ => []

/-- The requests that a thread has to resolve or to store. -/
def Pc.holds : Pc ρ α → List ρ
  | .load (.suspend r) | .exchange (.suspend r) _ | .shouldBlock r .closed | .cancelWait r .closed
  | .cancelled r => [r]
  | .shouldBlock _ (.request prev) | .cancelWait _ (.request prev) | .replace _ prev none
  | .wake prev _ => [prev]
  | .replace r prev (some _) => [prev,r]
  | _ => []

abbrev Phases (θ ρ α : Type) := ρ → Phase θ α

structure SharedInv (a : Phases θ ρ α) (s : AtomicWaiter ρ α) : Prop where
  fresh : ∀ r, a r = .fresh ↔ r ∉ s.suspended
  stored : ∀ r, a r = .stored ↔ s.waiter = .request r
  resolutions : ∀ r, s.resolutions r = (a r).reported

structure ThreadInv (a : Phases θ ρ α) (t : θ) (pc : Pc ρ α) : Prop where
  holds : ∀ r, r ∈ pc.holds ↔ a r = .held t
  nodup : pc.holds.Nodup
  opened : ∀ update, pc ≠ .exchange update .closed

def outline : Threads.Outline (Phases θ ρ α) θ (AtomicWaiter ρ α) (Pc ρ α) :=
  ⟨SharedInv,fun a t _ pc => ThreadInv a t pc⟩

/-- A step of `t` moves nothing in or out of the hands of another thread. -/
def Moves (t : θ) (a a' : Phases θ ρ α) : Prop := ∀ u, u ≠ t → ∀ r, a' r = .held u ↔ a r = .held u

theorem keeps_of_moves {a a' : Phases θ ρ α} {c : Config θ ρ α} {t : θ} {s' : AtomicWaiter ρ α}
    {pc' : Pc ρ α} (holds : outline.Holds a c) (moves : Moves t a a') (shared : SharedInv a' s')
    (own : ThreadInv a' t pc') : outline.Keeps a a' t s' pc' c := by
  refine ⟨shared,own,fun u ne => ⟨fun r => ?_,(holds.2 u).nodup,(holds.2 u).opened⟩⟩
  rw [moves u ne]
  exact (holds.2 u).holds r

theorem init_holds : outline.Holds (fun _ => .fresh) (init : Config θ ρ α) := by
  refine ⟨?_,fun t => ?_⟩
  · constructor <;> simp [init,new,Phase.reported]
  · constructor <;> simp [init,Pc.holds]

theorem Moves.trans {t : θ} {a b d : Phases θ ρ α} (first : Moves t a b) (second : Moves t b d) :
    Moves t a d :=
  fun u ne r => (second u ne r).trans (first u ne r)

variable [DecidableEq ρ]

theorem Moves.update {t : θ} {a : Phases θ ρ α} {r : ρ} {phase : Phase θ α}
    (before : ∀ u, u ≠ t → a r ≠ .held u) (after : ∀ u, u ≠ t → phase ≠ .held u) :
    Moves t a (Function.update a r phase) := by
  intro u ne x
  by_cases same : x = r
  · subst same
    simp [before u ne,after u ne]
  · simp [same]

/-- A held request is resolved. -/
theorem SharedInv.resolve {a : Phases θ ρ α} {s : AtomicWaiter ρ α} {t : θ} {r : ρ}
    (inv : SharedInv a s) (held : a r = .held t) (resolution : WaitError ⊕ Except WaitError α) :
    SharedInv (Function.update a r (.resolved resolution)) (s.resolve r resolution) := by
  refine ⟨fun x => ?_,fun x => ?_,fun x => ?_⟩
  all_goals by_cases same : x = r
  · subst same
    have := inv.fresh x
    simpa [AtomicWaiter.resolve,held] using this
  · simpa [AtomicWaiter.resolve,same] using inv.fresh x
  · subst same
    have := inv.stored x
    simpa [AtomicWaiter.resolve,held] using this
  · simpa [AtomicWaiter.resolve,same] using inv.stored x
  · subst same
    simp [AtomicWaiter.resolve,inv.resolutions,held,Phase.reported]
  · simpa [AtomicWaiter.resolve,same] using inv.resolutions x

/-- The end of `suspend` resolves its request if it returns `Done`. -/
theorem finish_inv {a : Phases θ ρ α} {s : AtomicWaiter ρ α} {t : θ} {r : ρ}
    (inv : SharedInv a s) (error : Option WaitError)
    (held : ∀ x, a x = .held t ↔ error ≠ none ∧ x = r) :
    ∃ a', Moves t a a' ∧ SharedInv a' (finish s r error).2 ∧ ThreadInv a' t (finish s r error).1 := by
  cases error with
  | none =>
    refine ⟨a,fun _ _ _ => .rfl,⟨inv.fresh,inv.stored,inv.resolutions⟩,⟨fun x => ?_,?_,?_⟩⟩
    · simp [held,finish,Pc.holds]
    · simp [finish,Pc.holds]
    · simp [finish]
  | some error =>
    have mine : a r = .held t := (held r).mpr ⟨nofun,rfl⟩
    refine ⟨_,.update ?_ ?_,inv.resolve mine (.inl error),⟨fun x => ?_,?_,?_⟩⟩
    · simp [mine,eq_comm]
    · simp
    · by_cases same : x = r
      · subst same; simp [finish,Pc.holds]
      · simp [finish,Pc.holds,same,held]
    · simp [finish,Pc.holds]
    · simp [finish]

theorem afterCheck_inv {a : Phases θ ρ α} {s : AtomicWaiter ρ α} {t : θ} {r : ρ} {prev : ReqPtr ρ}
    (inv : SharedInv a s) (error : Option WaitError)
    (held : ∀ x, a x = .held t ↔ prev = .request x ∨ ((error ≠ none ∨ prev = .closed) ∧ x = r))
    (other : prev = .request r → error = none) :
    ∃ a', Moves t a a' ∧ SharedInv a' (afterCheck s r prev error).2 ∧
      ThreadInv a' t (afterCheck s r prev error).1 := by
  cases prev with
  | null => exact finish_inv inv error (by simpa using held)
  | closed => exact finish_inv inv (some .closed) (by simpa using held)
  | request prev =>
    refine ⟨a,fun _ _ _ => .rfl,inv,⟨fun x => ?_,?_,?_⟩⟩
    · rw [held]
      cases error <;> simp [afterCheck,Pc.holds,eq_comm]
    · cases error with
      | none => simp [afterCheck,Pc.holds]
      | some error =>
        have ne : prev ≠ r := by
          rintro rfl
          exact absurd (other rfl) nofun
        simp [afterCheck,Pc.holds,ne]
    · simp [afterCheck]

/-- The request in the word goes to the thread that swaps it out. -/
def Phases.take (a : Phases θ ρ α) (s : AtomicWaiter ρ α) (t : θ) : Phases θ ρ α :=
  fun r => if s.waiter = .request r then .held t else a r

theorem SharedInv.take_moves {a : Phases θ ρ α} {s : AtomicWaiter ρ α} (inv : SharedInv a s)
    (t : θ) : Moves t a (a.take s t) := by
  intro u ne r
  by_cases at_ : s.waiter = .request r
  · simp [Phases.take,at_,(inv.stored r).mpr at_,ne.symm]
  · simp [Phases.take,at_]

theorem SharedInv.take {a : Phases θ ρ α} {s : AtomicWaiter ρ α} (inv : SharedInv a s) (t : θ)
    (waiter : ReqPtr ρ) (empty : ∀ r, waiter ≠ .request r) :
    SharedInv (a.take s t) { s with waiter } := by
  refine ⟨fun r => ?_,fun r => ?_,fun r => ?_⟩
  all_goals by_cases at_ : s.waiter = .request r
  · have := inv.fresh r
    simpa [Phases.take,at_,(inv.stored r).mpr at_] using this
  · simpa [Phases.take,at_] using inv.fresh r
  · simp [Phases.take,at_,empty]
  · have := inv.stored r
    simpa [Phases.take,at_,empty] using this
  · have := inv.resolutions r
    simpa [Phases.take,at_,(inv.stored r).mpr at_,Phase.reported] using this
  · simpa [Phases.take,at_] using inv.resolutions r

/-- A held request is stored in an empty word. -/
theorem SharedInv.store {a : Phases θ ρ α} {s : AtomicWaiter ρ α} {t : θ} {r : ρ}
    (inv : SharedInv a s) (held : a r = .held t) (empty : ∀ r, s.waiter ≠ .request r) :
    SharedInv (Function.update a r .stored) { s with waiter := .request r } := by
  refine ⟨fun x => ?_,fun x => ?_,fun x => ?_⟩
  all_goals by_cases same : x = r
  · subst same
    have := inv.fresh x
    simpa [held] using this
  · simpa [same] using inv.fresh x
  · simp [same]
  · have := inv.stored x
    simpa [same,Ne.symm same,empty] using this
  · subst same
    have := inv.resolutions x
    simpa [held,Phase.reported] using this
  · simpa [same] using inv.resolutions x

theorem held_update {a : Phases θ ρ α} {t : θ} {r : ρ} {phase : Phase θ α} (x : ρ)
    (gone : phase ≠ .held t) : Function.update a r phase x = .held t ↔ x ≠ r ∧ a x = .held t := by
  by_cases same : x = r
  · simp [same,gone]
  · simp [same]

theorem Phases.take_held {a : Phases θ ρ α} {s : AtomicWaiter ρ α} {t : θ} {r : ρ} :
    a.take s t r = .held t ↔ s.waiter = .request r ∨ a r = .held t := by
  by_cases at_ : s.waiter = .request r
  · simp [Phases.take,at_]
  · simp [Phases.take,at_]

/-- A new request is in the hands of the thread that suspends it. -/
theorem SharedInv.suspend {a : Phases θ ρ α} {s : AtomicWaiter ρ α} {r : ρ} (inv : SharedInv a s)
    (t : θ) (new : r ∉ s.suspended) :
    SharedInv (Function.update a r (.held t)) { s with suspended := r :: s.suspended } := by
  have fresh : a r = .fresh := (inv.fresh r).mpr new
  refine ⟨fun x => ?_,fun x => ?_,fun x => ?_⟩
  all_goals by_cases same : x = r
  · simp [same]
  · simpa [same] using inv.fresh x
  · subst same
    have := inv.stored x
    simpa [fresh] using this
  · simpa [same] using inv.stored x
  · subst same
    have := inv.resolutions x
    simpa [fresh,Phase.reported] using this
  · simpa [same] using inv.resolutions x

/-- `compare_exchange_weak` takes what is in the word and stores the new request. -/
theorem exchange_inv {a : Phases θ ρ α} {s : AtomicWaiter ρ α} {t : θ} {update : Update ρ α}
    (shared : SharedInv a s) (own : ThreadInv a t (.exchange update s.waiter)) :
    ∃ a', Moves t a a' ∧ SharedInv a' { s with waiter := update.waiter } ∧
      ThreadInv a' t (afterUpdate update s.waiter) := by
  cases update with
  | suspend r =>
    have mine : a r = .held t := (own.holds r).mp (by simp [Pc.holds])
    have held : a.take s t r = .held t := Phases.take_held.mpr (.inr mine)
    refine ⟨_,(shared.take_moves t).trans (.update ?_ ?_),
      (shared.take t .null (by simp)).store held (by simp),⟨fun x => ?_,?_,by simp [afterUpdate]⟩⟩
    · simp +contextual [held,eq_comm]
    · simp
    · rw [held_update x (by simp),Phases.take_held,← own.holds]
      cases at_ : s.waiter with
      | null => simp +contextual [afterUpdate,Pc.holds]
      | closed => exact absurd (at_ ▸ rfl) (own.opened (.suspend r))
      | request prev =>
        have ne : prev ≠ r := by
          rintro rfl
          simp [(shared.stored prev).mpr at_] at mine
        simp [afterUpdate,Pc.holds]
        grind
    · cases s.waiter <;> simp [afterUpdate,Pc.holds]
  | wake value closing =>
    refine ⟨_,shared.take_moves t,shared.take t _ ?_,⟨fun x => ?_,?_,?_⟩⟩
    · cases closing <;> simp [Update.waiter]
    · rw [Phases.take_held,← own.holds]
      cases s.waiter <;> simp [afterUpdate,Pc.holds,eq_comm]
    · cases s.waiter <;> simp [afterUpdate,Pc.holds]
    · cases s.waiter <;> simp [afterUpdate]

/-- What a step does to the requests in the hands of its thread. -/
theorem step_moves {a : Phases θ ρ α} {s s' : AtomicWaiter ρ α} {t : θ} {pc pc' : Pc ρ α}
    {label : Label ρ α} (shared : SharedInv a s) (own : ThreadInv a t pc)
    (stepped : Step s pc label pc' s') :
    ∃ a', Moves t a a' ∧ SharedInv a' s' ∧ ThreadInv a' t pc' := by
  have stay {pc' : Pc ρ α} {s' : AtomicWaiter ρ α} (shared : SharedInv a s')
      (same : pc'.holds = pc.holds) (opened : ∀ update, pc' ≠ .exchange update .closed) :
      ∃ a', Moves t a a' ∧ SharedInv a' s' ∧ ThreadInv a' t pc' :=
    ⟨a,fun _ _ _ => .rfl,shared,⟨by rw [same]; exact own.holds,by rw [same]; exact own.nodup,opened⟩⟩
  have idle (free : pc.isFree = true) : pc.holds = [] := by
    cases pc <;> simp_all [Pc.isFree,Pc.holds]
  cases stepped with
  | @suspend r _ free new =>
    have fresh : a r = .fresh := (shared.fresh r).mpr new
    refine ⟨_,.update (by simp [fresh]) ?_,shared.suspend t new,⟨fun x => ?_,?_,by simp⟩⟩
    · simp +contextual [eq_comm]
    · by_cases same : x = r
      · simp [same,Pc.holds]
      · have := own.holds x
        rw [idle free] at this
        simpa [same,Pc.holds] using this
    · simp [Pc.holds]
  | callCancel free =>
    exact stay ⟨shared.fresh,shared.stored,shared.resolutions⟩ (idle free).symm (by simp)
  | callWake free => exact stay shared (idle free).symm (by simp)
  | callClose free => exact stay shared (idle free).symm (by simp)
  | load opened =>
    rename_i update
    exact stay shared (by cases update <;> rfl) (by simp [opened])
  | loadClosed closed =>
    rename_i update
    exact stay shared (by cases update <;> rfl) (by cases update <;> simp [afterUpdate])
  | retry opened =>
    rename_i update prev _
    exact stay shared (by cases update <;> rfl) (by simp [opened])
  | retryClosed closed =>
    rename_i update prev _
    exact stay shared (by cases update <;> rfl) (by cases update <;> simp [afterUpdate])
  | exchange => exact exchange_inv shared own
  | block =>
    apply afterCheck_inv shared none
    · intro x
      rw [← own.holds]
      rename_i prev
      cases prev <;> simp [Pc.holds,eq_comm]
    · simp
  | noBlock =>
    rename_i r prev
    exact stay shared (by cases prev <;> rfl) (by simp)
  | @takeBack r prev waiter =>
    have stored : a r = .stored := (shared.stored r).mpr waiter
    have apart : r ∉ (Pc.cancelWait r prev : Pc ρ α).holds := by
      rw [own.holds,stored]
      simp
    have held (x : ρ) : a.take s t x = .held t ↔
        prev = .request x ∨ ((some WaitError.cancelled ≠ none ∨ prev = .closed) ∧ x = r) := by
      rw [Phases.take_held,← own.holds,waiter]
      cases prev <;> simp [Pc.holds] at apart ⊢ <;> grind
    obtain ⟨a',moves,more⟩ := afterCheck_inv (shared.take t .null (by simp)) _ held (by
      rintro rfl
      simp [Pc.holds] at apart)
    exact ⟨a',(shared.take_moves t).trans moves,more⟩
  | missed =>
    apply afterCheck_inv shared none
    · intro x
      rw [← own.holds]
      rename_i prev
      cases prev <;> simp [Pc.holds,eq_comm]
    · simp
  | @replace r prev error =>
    have mine : a prev = .held t := (own.holds prev).mp (by cases error <;> simp [Pc.holds])
    have held (x : ρ) : Function.update a prev (.resolved (.inr (.error .cancelled))) x = .held t ↔
        error ≠ none ∧ x = r := by
      rw [held_update x (by simp),← own.holds]
      have := own.nodup
      cases error <;> simp [Pc.holds] at this ⊢
      grind
    obtain ⟨a',moves,more⟩ := finish_inv (shared.resolve mine _) error held
    exact ⟨a',.trans (.update (by simp +contextual [mine,eq_comm]) (by simp)) moves,more⟩
  | @wake prev value =>
    have mine : a prev = .held t := (own.holds prev).mp (by simp [Pc.holds])
    refine ⟨_,.update ?_ (by simp),shared.resolve mine _,⟨fun x => ?_,by simp [Pc.holds],by simp⟩⟩
    · simp +contextual [mine,eq_comm]
    · rw [held_update x (by simp),← own.holds]
      simp [Pc.holds]
  | @cancel r waiter =>
    refine ⟨_,shared.take_moves t,shared.take t .null (by simp),⟨fun x => ?_,by simp [Pc.holds],by simp⟩⟩
    rw [Phases.take_held,← own.holds,waiter]
    simp [Pc.holds,eq_comm]
  | cancelMissed => exact stay shared rfl (by simp)
  | @cancelled r =>
    have mine : a r = .held t := (own.holds r).mp (by simp [Pc.holds])
    refine ⟨_,.update ?_ (by simp),shared.resolve mine _,⟨fun x => ?_,by simp [Pc.holds],by simp⟩⟩
    · simp +contextual [mine,eq_comm]
    · rw [held_update x (by simp),← own.holds]
      simp [Pc.holds]

/-- `set_waiter` and `cancel_wait` leave the mark alone. -/
theorem step_closed {s s' : AtomicWaiter ρ α} {pc pc' : Pc ρ α} {label : Label ρ α}
    (stepped : Step s pc label pc' s') (opened : ∀ update, pc ≠ .exchange update .closed)
    (closed : s.waiter = .closed) : s'.waiter = .closed := by
  have finish (s : AtomicWaiter ρ α) (r : ρ) (error : Option WaitError) :
      (finish s r error).2.waiter = s.waiter := by
    cases error <;> rfl
  have afterCheck (s : AtomicWaiter ρ α) (r : ρ) (prev : ReqPtr ρ) (error : Option WaitError) :
      (afterCheck s r prev error).2.waiter = s.waiter := by
    cases prev <;> simp [AtomicWaiter.afterCheck,finish]
  cases stepped with
  | @exchange update => exact absurd (by rw [closed]) (opened update)
  | takeBack waiter => simp [closed] at waiter
  | cancel waiter => simp [closed] at waiter
  | block => rw [afterCheck,closed]
  | missed => rw [afterCheck,closed]
  | replace => rw [finish]; exact closed
  | _ => exact closed

/-- `fetch_update` gives up when it sees the mark. -/
def Pc.Opened (pc : Pc ρ α) : Prop := ∀ update, pc ≠ .exchange update .closed

theorem Step.opened {s s' : AtomicWaiter ρ α} {pc pc' : Pc ρ α} {label : Label ρ α}
    (stepped : Step s pc label pc' s') : pc'.Opened := by
  intro update
  cases stepped with
  | load opened => simp [opened]
  | retry opened => simp [opened]
  | loadClosed => cases ‹Update ρ α› <;> simp [afterUpdate]
  | retryClosed => cases ‹Update ρ α› <;> simp [afterUpdate]
  | exchange =>
    rename_i update
    cases update <;> cases s.waiter <;> simp [afterUpdate]
  | block => rename_i prev; cases prev <;> simp [afterCheck,finish]
  | takeBack => rename_i prev _; cases prev <;> simp [afterCheck,finish]
  | missed => rename_i prev; cases prev <;> simp [afterCheck,finish]
  | replace => rename_i error; cases error <;> simp [finish]
  | _ => simp

/-- A call of `close` that has not returned: from its exchange on the word is closed. -/
def Closes (s : AtomicWaiter ρ α) : Pc ρ α → Prop
  | .load (.wake _ true) | .exchange (.wake _ true) _ => True
  | .wake _ _ => s.waiter = .closed
  | _ => False

theorem Step.closes {s s' : AtomicWaiter ρ α} {pc pc' : Pc ρ α} {label : Label ρ α}
    (stepped : Step s pc label pc' s') (closes : Closes s pc) :
    Closes s' pc' ∨ (∃ value, pc' = .returned value) ∧ s'.waiter = .closed := by
  cases stepped with
  | load opened =>
    rename_i update
    rcases update with r | ⟨value,_ | _⟩ <;> exact .inl closes
  | retry opened =>
    rename_i update _ _
    rcases update with r | ⟨value,_ | _⟩ <;> exact .inl closes
  | loadClosed closed =>
    rename_i update
    rcases update with r | ⟨value,_ | _⟩
    · exact closes.elim
    · exact closes.elim
    · exact .inr ⟨⟨_,rfl⟩,closed⟩
  | retryClosed closed =>
    rename_i update _ _
    rcases update with r | ⟨value,_ | _⟩
    · exact closes.elim
    · exact closes.elim
    · exact .inr ⟨⟨_,rfl⟩,closed⟩
  | exchange =>
    rename_i update
    rcases update with r | ⟨value,_ | _⟩
    · exact closes.elim
    · exact closes.elim
    · cases s.waiter
      · exact .inr ⟨⟨_,rfl⟩,rfl⟩
      · exact .inl rfl
      · exact .inr ⟨⟨_,rfl⟩,rfl⟩
  | wake => exact .inr ⟨⟨_,rfl⟩,closes⟩
  | suspend free | callCancel free | callWake free | callClose free =>
    cases pc <;> simp_all [Pc.isFree,Closes]
  | _ => exact closes.elim

/-- A call that is running and is not a close. -/
def Pc.quiet : Pc ρ α → Bool
  | .idle | .returned _ | .load (.wake _ true) | .exchange (.wake _ true) _ => false
  | _ => true

theorem Step.quiet {s s' : AtomicWaiter ρ α} {pc pc' : Pc ρ α} {label : Label ρ α}
    (stepped : Step s pc label pc' s') (quiet : pc.quiet = true) :
    (pc'.quiet = true ∨ ∃ value, pc' = .returned value) ∧
      (s'.waiter = .closed → s.waiter = .closed) := by
  have finish (s : AtomicWaiter ρ α) (r : ρ) (error : Option WaitError) :
      (∃ value, (finish s r error).1 = .returned value) ∧
        (finish s r error).2.waiter = s.waiter := by
    cases error <;> exact ⟨⟨_,rfl⟩,rfl⟩
  have afterCheck (s : AtomicWaiter ρ α) (r : ρ) (prev : ReqPtr ρ) (error : Option WaitError) :
      ((afterCheck s r prev error).1.quiet = true ∨
        ∃ value, (afterCheck s r prev error).1 = .returned value) ∧
        (afterCheck s r prev error).2.waiter = s.waiter := by
    cases prev with
    | null => exact ⟨.inr (finish s r error).1,(finish s r error).2⟩
    | closed => exact ⟨.inr (finish s r _).1,(finish s r _).2⟩
    | request prev => exact ⟨.inl rfl,rfl⟩
  cases stepped with
  | load opened =>
    rename_i update
    rcases update with r | ⟨value,_ | _⟩ <;> exact ⟨.inl quiet,id⟩
  | retry opened =>
    rename_i update _ _
    rcases update with r | ⟨value,_ | _⟩ <;> exact ⟨.inl quiet,id⟩
  | loadClosed closed =>
    rename_i update
    cases update <;> simp_all [afterUpdate,Pc.quiet]
  | retryClosed closed =>
    rename_i update _ _
    cases update <;> simp_all [afterUpdate,Pc.quiet]
  | exchange =>
    rename_i update
    rcases update with r | ⟨value,_ | _⟩
    · exact ⟨.inl rfl,nofun⟩
    · cases s.waiter
      · exact ⟨.inr ⟨_,rfl⟩,nofun⟩
      · exact ⟨.inl rfl,nofun⟩
      · exact ⟨.inr ⟨_,rfl⟩,nofun⟩
    · simp [Pc.quiet] at quiet
  | block => exact ⟨(afterCheck s _ _ _).1,fun closed => (afterCheck s _ _ _).2.symm.trans closed⟩
  | missed => exact ⟨(afterCheck s _ _ _).1,fun closed => (afterCheck s _ _ _).2.symm.trans closed⟩
  | takeBack waiter =>
    refine ⟨(afterCheck _ _ _ _).1,fun closed => ?_⟩
    rw [(afterCheck _ _ _ _).2] at closed
    contradiction
  | replace =>
    refine ⟨.inr (finish _ _ _).1,fun closed => ?_⟩
    rw [(finish _ _ _).2] at closed
    exact closed
  | suspend free | callCancel free | callWake free | callClose free =>
    cases pc <;> simp_all [Pc.isFree,Pc.quiet]
  | cancel => exact ⟨.inl rfl,nofun⟩
  | wake => exact ⟨.inr ⟨_,rfl⟩,id⟩
  | cancelMissed => exact ⟨.inr ⟨_,rfl⟩,id⟩
  | cancelled => exact ⟨.inr ⟨_,rfl⟩,id⟩
  | noBlock => exact ⟨.inl rfl,id⟩

variable [DecidableEq θ]

theorem step_holds {c c' : Config θ ρ α} {label : θ × Label ρ α} {a : Phases θ ρ α}
    (holds : outline.Holds a c) (stepped : step c label = some c') : ∃ a', outline.Holds a' c' := by
  obtain ⟨t,choice⟩ := label
  obtain ⟨pc,s,ran,rfl⟩ := Threads.step_eq_some.mp stepped
  obtain ⟨a',moves,shared,own⟩ := step_moves holds.1 (holds.2 t) (prog_step ran)
  exact ⟨a',(keeps_of_moves holds moves shared own).holds⟩

theorem reachable_holds {labels : List (θ × Label ρ α)} {c : Config θ ρ α}
    (path : Transition.Path step Transition.anyStep init labels c) : ∃ a, outline.Holds a c := by
  apply path.invariant (fun c => ∃ a, outline.Holds a c)
  · rintro c label c' ⟨a,holds⟩ - stepped
    exact step_holds holds stepped
  · exact ⟨_,init_holds⟩

theorem closed_stays {a : Phases θ ρ α} {labels : List (θ × Label ρ α)} {c c' : Config θ ρ α}
    (holds : outline.Holds a c) (closed : c.shared.waiter = .closed)
    (path : Transition.Path step Transition.anyStep c labels c') : c'.shared.waiter = .closed := by
  apply (path.invariant (fun c => (∃ a, outline.Holds a c) ∧ c.shared.waiter = .closed) ?_
    ⟨⟨a,holds⟩,closed⟩).2
  rintro c ⟨t,choice⟩ c' ⟨⟨a,holds⟩,closed⟩ - stepped
  refine ⟨step_holds holds stepped,?_⟩
  obtain ⟨pc,s,ran,rfl⟩ := Threads.step_eq_some.mp stepped
  exact step_closed (prog_step ran) (holds.2 t).opened closed

/-- Each request is resolved at most once, by the thread that has it. Those that are not resolved
are in the word or in the hands of a thread that is still running. -/
structure Resolves (c : Config θ ρ α) : Prop where
  once : ∀ r, (c.shared.resolutions r).length ≤ 1
  suspended : ∀ r ∈ c.shared.suspended, (c.shared.resolutions r).length = 1 ∨
    c.shared.waiter = .request r ∨ ∃ t, r ∈ (c.locals t).holds
  stored : ∀ r, c.shared.waiter = .request r → r ∈ c.shared.suspended ∧ c.shared.resolutions r = []
  held : ∀ t, ∀ r ∈ (c.locals t).holds, r ∈ c.shared.suspended ∧ c.shared.resolutions r = [] ∧
    c.shared.waiter ≠ .request r ∧ ∀ u, r ∈ (c.locals u).holds → u = t
  returned : (∀ t, (c.locals t).isFree = true) → ∀ r ∈ c.shared.suspended,
    (c.shared.resolutions r).length = 1 ∨ c.shared.waiter = .request r
  closed : c.shared.waiter = .closed → ∀ labels c',
    Transition.Path step Transition.anyStep c labels c' → c'.shared.waiter = .closed

theorem requests_resolve {labels : List (θ × Label ρ α)} {c : Config θ ρ α}
    (path : Transition.Path step Transition.anyStep init labels c) : Resolves c := by
  obtain ⟨a,holds⟩ := reachable_holds path
  have ⟨shared,threads⟩ := holds
  have resolutions (r : ρ) := shared.resolutions r
  have known (r : ρ) (phase : a r ≠ .fresh) : r ∈ c.shared.suspended := by
    by_contra new
    exact phase ((shared.fresh r).mpr new)
  have suspended (r : ρ) (mem : r ∈ c.shared.suspended) : (c.shared.resolutions r).length = 1 ∨
      c.shared.waiter = .request r ∨ ∃ t, r ∈ (c.locals t).holds := by
    cases phase : a r with
    | fresh => exact absurd mem ((shared.fresh r).mp phase)
    | held t => exact .inr (.inr ⟨t,((threads t).holds r).mpr phase⟩)
    | stored => exact .inr (.inl ((shared.stored r).mp phase))
    | resolved resolution =>
      left
      simp [resolutions,phase,Phase.reported]
  refine ⟨fun r => ?_,suspended,fun r stored => ?_,fun t r mem => ?_,fun free r mem => ?_,
    fun closed _ _ path => closed_stays holds closed path⟩
  · rw [resolutions]
    cases a r <;> simp [Phase.reported]
  · have phase := (shared.stored r).mpr stored
    exact ⟨known r (by simp [phase]),by simp [resolutions,phase,Phase.reported]⟩
  · have phase := ((threads t).holds r).mp mem
    refine ⟨known r (by simp [phase]),by simp [resolutions,phase,Phase.reported],?_,?_⟩
    · intro stored
      simp [(shared.stored r).mpr stored] at phase
    · intro u also
      simpa [phase,eq_comm] using ((threads u).holds r).mp also
  · rcases suspended r mem with resolved | stored | ⟨t,held⟩
    · exact .inl resolved
    · exact .inr stored
    · have := free t
      cases pc : c.locals t <;> simp_all [Pc.isFree,Pc.holds]

/-- A wake has swapped the only request out of the word and not completed it yet. -/
def wakeTrace : List (Bool × Label Nat Unit) :=
  [(true,.call (.suspend 0)),(true,.next),(true,.exchange false),(true,.block true),
    (false,.call (.wake ())),(false,.next),(false,.exchange false)]

theorem requests_not_always_resolve :
    ¬ ∀ (labels : List (Bool × Label Nat Unit)) c,
      Transition.Path step Transition.anyStep init labels c → ∀ r ∈ c.shared.suspended,
      (c.shared.resolutions r).length = 1 ∨ c.shared.waiter = .request r := by
  intro always
  obtain ⟨c,executed,suspended,unresolved,waiter⟩ : ∃ c,
      Transition.run step wakeTrace init = some c ∧ c.shared.suspended = [0] ∧
      c.shared.resolutions 0 = [] ∧ c.shared.waiter = .null := ⟨_,rfl,rfl,rfl,rfl⟩
  have resolved := always _ c (Transition.run_path (fun _ _ _ => trivial) executed) 0
    (by simp [suspended])
  simp [unresolved,waiter] at resolved

/-- The second request replaces the first one, and a close completes it. -/
def closeTrace : List (Bool × Label Nat Unit) :=
  [(true,.call (.suspend 0)),(true,.next),(true,.exchange false),(true,.block true),
    (false,.call (.suspend 1)),(false,.next),(false,.exchange false),(false,.block true),
    (false,.next),(true,.call (.close ())),(true,.next),(true,.exchange false),(true,.next)]

theorem requests_resolve_closed : ∃ c : Config Bool Nat Unit,
    Transition.run step closeTrace init = some c ∧ Resolves c ∧ c.shared.waiter = .closed ∧
      c.shared.resolutions 0 = [.inr (.error .cancelled)] ∧
      c.shared.resolutions 1 = [.inr (.ok ())] := by
  obtain ⟨c,executed,more⟩ : ∃ c : Config Bool Nat Unit,
      Transition.run step closeTrace init = some c ∧ c.shared.waiter = .closed ∧
      c.shared.resolutions 0 = [.inr (.error .cancelled)] ∧
      c.shared.resolutions 1 = [.inr (.ok ())] := ⟨_,rfl,rfl,rfl,rfl⟩
  exact ⟨c,executed,requests_resolve (Transition.run_path (fun _ _ _ => trivial) executed),more⟩

end XxCore.Sync.AtomicWaiter
