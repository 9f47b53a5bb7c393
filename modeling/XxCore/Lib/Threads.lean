import Mathlib.Logic.Function.Basic
import XxCore.Lib.Transition

/-! Threads that share a state. One label lets one thread make one atomic step; an invariant is
an assertion about the shared state and one about each thread, over an auxiliary value. -/
namespace Threads

variable {θ : Type u} {S : Type v} {L : Type w} {C : Type x} {A : Type y}

structure Config (θ : Type u) (S : Type v) (L : Type w) where
  shared : S
  locals : θ → L

/-- What one atomic step of a thread does to its local state and to the shared one. -/
abbrev Program (θ : Type u) (C : Type x) (L : Type w) (S : Type v) := θ → C → L → S → Option (L × S)

def step [DecidableEq θ] (prog : Program θ C L S) (c : Config θ S L) (label : θ × C) :
    Option (Config θ S L) :=
  (prog label.1 label.2 (c.locals label.1) c.shared).map fun next =>
    ⟨next.2,Function.update c.locals label.1 next.1⟩

theorem step_eq_some [DecidableEq θ] {prog : Program θ C L S} {c next : Config θ S L} {t : θ}
    {choice : C} : step prog c (t,choice) = some next ↔
      ∃ l s, prog t choice (c.locals t) c.shared = some (l,s) ∧
        next = ⟨s,Function.update c.locals t l⟩ := by
  simp only [step,Option.map_eq_some_iff,Prod.exists]
  constructor
  · rintro ⟨l,s,eq,rfl⟩; exact ⟨l,s,eq,rfl⟩
  · rintro ⟨l,s,eq,rfl⟩; exact ⟨l,s,eq,rfl⟩

/-- A step of the thread whose local state was set last. -/
theorem step_update [DecidableEq θ] {prog : Program θ C L S} {t : θ} {choice : C} {l l' : L}
    {s s' : S} (locals : θ → L) (ran : prog t choice l s = some (l',s')) :
    step prog ⟨s,Function.update locals t l⟩ (t,choice) =
      some ⟨s',Function.update locals t l'⟩ := by
  simp [step,ran]

/-- A thread that takes no step keeps its local state. -/
theorem run_other [DecidableEq θ] {prog : Program θ C L S} {labels : List (θ × C)}
    {c final : Config θ S L} (executed : Transition.run (step prog) labels c = some final) {t : θ}
    (quiet : ∀ label ∈ labels, label.1 ≠ t) : final.locals t = c.locals t := by
  induction labels generalizing c with
  | nil => cases executed; rfl
  | cons label rest ih =>
    obtain ⟨next,stepped,more⟩ := Option.bind_eq_some_iff.mp executed
    obtain ⟨l,s,_,rfl⟩ := step_eq_some.mp stepped
    rw [ih more fun l mem => quiet l (by simp [mem])]
    exact Function.update_of_ne (quiet label (by simp)).symm ..

/-- A part of each state, as a configuration of its own. -/
def Config.map {S' : Type z} {L' : Type z'} (shared : S → S') (local_ : L → L')
    (c : Config θ S L) : Config θ S' L' := ⟨shared c.shared,fun t => local_ (c.locals t)⟩

section map
variable [DecidableEq θ] {S' : Type z} {L' : Type z'} {shared : S → S'} {local_ : L → L'}
  {c : Config θ S L} {t : θ} {s : S} {l : L}

theorem Config.map_update : Config.map shared local_ ⟨s,Function.update c.locals t l⟩ =
    ⟨shared s,Function.update (c.map shared local_).locals t (local_ l)⟩ := by
  simp only [Config.map,Config.mk.injEq,true_and]
  funext u
  by_cases same : u = t
  · subst same
    simp
  · simp [same]

/-- A step that the part does not notice. -/
theorem Config.map_same (sameShared : shared s = shared c.shared)
    (sameLocal : local_ l = local_ (c.locals t)) :
    Config.map shared local_ ⟨s,Function.update c.locals t l⟩ = c.map shared local_ := by
  rw [map_update,sameShared,sameLocal]
  exact congrArg _ (Function.update_eq_self t _)

/-- A step that is one of the part. -/
theorem Config.map_step {prog : Program θ C L' S'} {choice : C}
    (ran : prog t choice (local_ (c.locals t)) (shared c.shared) = some (local_ l,shared s)) :
    step prog (c.map shared local_) (t,choice) =
      some (Config.map shared local_ ⟨s,Function.update c.locals t l⟩) := by
  rw [map_update]
  exact step_eq_some.mpr ⟨_,_,ran,rfl⟩

end map

/-- An assertion about the shared state and one about each thread. -/
structure Outline (A : Type y) (θ : Type u) (S : Type v) (L : Type w) where
  shared : A → S → Prop
  thread : A → θ → S → L → Prop

def Outline.Holds (o : Outline A θ S L) (a : A) (c : Config θ S L) : Prop :=
  o.shared a c.shared ∧ ∀ t, o.thread a t c.shared (c.locals t)

/-- A step re-establishes the assertions about the shared state and about its own thread, and
interferes with no assertion about another thread. -/
structure Outline.Keeps (o : Outline A θ S L) (a a' : A) (t : θ) (s' : S) (l' : L)
    (c : Config θ S L) : Prop where
  shared : o.shared a' s'
  own : o.thread a' t s' l'
  others : ∀ u, u ≠ t → o.thread a' u s' (c.locals u)

theorem Outline.Keeps.holds [DecidableEq θ] {o : Outline A θ S L} {a a' : A} {t : θ} {s' : S}
    {l' : L} {c : Config θ S L} (keeps : o.Keeps a a' t s' l' c) :
    o.Holds a' ⟨s',Function.update c.locals t l'⟩ := by
  refine ⟨keeps.shared,fun u => ?_⟩
  by_cases same : u = t
  · subst same
    simpa using keeps.own
  · simpa [same] using keeps.others u same

end Threads
