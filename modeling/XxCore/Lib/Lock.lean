import Mathlib.Data.Option.Basic
import XxCore.Lib.Threads

/-! Locks. A program whose threads take a lock in one step, when nobody holds it, is carried out by one
in which they make the attempts of a lock in memory. -/
namespace Threads

variable {θ : Type u} {S : Type v} {L : Type w} {C : Type x} {P : Type z} {F : Type z'}

/-- A lock in memory: where a thread starts to acquire it, what one of its atomic steps does there,
after which it has the lock or goes on, and the release. -/
structure Lock (P : Type z) (F : Type z') where
  start : P
  attempt : P → F → Option P × F
  unlock : F → F

/-- A thread that makes this many attempts alone has the lock. -/
def Lock.gets (lock : Lock P F) : Nat → P → F → Bool
  | 0,_,_ => false
  | n + 1,p,f =>
    match lock.attempt p f with
    | (none,_) => true
    | (some p,f) => lock.gets n p f

/-- `locked` tells from the memory whether the lock is held. A held lock is not acquired, a free one
at once, and after `bound` attempts also by a thread that has found it held before. -/
structure Lock.Lawful (lock : Lock P F) (locked : F → Bool) (bound : Nat) : Prop where
  acquired : ∀ {p f f'}, lock.attempt p f = (none,f') → locked f = false ∧ locked f' = true
  refused : ∀ {p p' f f'}, lock.attempt p f = (some p',f') → locked f' = locked f
  unlocked : ∀ f, locked (lock.unlock f) = false
  starts : ∀ {f}, locked f = false → (lock.attempt lock.start f).1 = none
  gets : ∀ {f}, locked f = false → ∀ p, lock.gets bound p f = true

/-- How a program uses a lock whose holder is a part of its state: where its threads wait for the lock
and where they release it. -/
structure UsesLock (prog : Program θ C L S) (holder : S → Option θ) (waits : L → C → Bool)
    (unlocks : L → Bool) : Prop where
  enabled : ∀ {t choice l s}, waits l choice = true → holder s = none →
    (prog t choice l s).isSome = true
  takes : ∀ {t choice l s l' s'}, waits l choice = true → prog t choice l s = some (l',s') →
    holder s = none ∧ holder s' = some t
  gives : ∀ {t choice l s l' s'}, waits l choice = false → unlocks l = true →
    prog t choice l s = some (l',s') → holder s' = none
  keeps : ∀ {t choice l s l' s'}, waits l choice = false → unlocks l = false →
    prog t choice l s = some (l',s') → holder s' = holder s

/-- The program on a lock in memory. Whether a thread gets on depends on that alone. -/
def Lock.carry (lock : Lock P F) (prog : Program θ C L S) (waits : L → C → Bool)
    (unlocks : L → Bool) : Program θ C (L × P) (S × F) := fun t choice l s =>
  if waits l.1 choice then
    match lock.attempt l.2 s.2 with
    | (none,f) => (prog t choice l.1 s.1).map fun next => ((next.1,lock.start),(next.2,f))
    | (some p,f) => some ((l.1,p),(s.1,f))
  else
    (prog t choice l.1 s.1).map fun next =>
      ((next.1,lock.start),(next.2,if unlocks l.1 then lock.unlock s.2 else s.2))

/-- The program's own part of a configuration. -/
def Config.client (c : Config θ (S × F) (L × P)) : Config θ S L := c.map Prod.fst Prod.fst

/-- The memory says that the lock is held if and only if it has a holder. -/
def Agrees (holder : S → Option θ) (locked : F → Bool) (c : Config θ (S × F) (L × P)) : Prop :=
  locked c.shared.2 = (holder c.shared.1).isSome

section carry
variable [DecidableEq θ] {lock : Lock P F} {prog : Program θ C L S} {holder : S → Option θ}
  {waits : L → C → Bool} {unlocks : L → Bool} {locked : F → Bool} {bound : Nat}
  {c next : Config θ (S × F) (L × P)} {t : θ} {choice : C}

/-- What a step on a lock in memory is: one of the program, or an attempt that has not been enough. -/
theorem Lock.carry_cases {l : L × P} {s : S × F} {l' : L × P} {s' : S × F}
    (ran : lock.carry prog waits unlocks t choice l s = some (l',s')) :
    (prog t choice l.1 s.1 = some (l'.1,s'.1) ∧
        (waits l.1 choice = true ∧ lock.attempt l.2 s.2 = (none,s'.2) ∨
          waits l.1 choice = false ∧ s'.2 = if unlocks l.1 then lock.unlock s.2 else s.2)) ∨
      waits l.1 choice = true ∧ l'.1 = l.1 ∧ s'.1 = s.1 ∧
        lock.attempt l.2 s.2 = (some l'.2,s'.2) := by
  rw [Lock.carry] at ran
  split at ran
  next waiting =>
    rcases tried : lock.attempt l.2 s.2 with ⟨more,f⟩
    rw [tried] at ran
    cases more with
    | none =>
      obtain ⟨q,own,eq⟩ := Option.map_eq_some_iff.mp ran
      obtain ⟨rfl,rfl⟩ := Prod.mk.inj eq
      exact .inl ⟨own,.inl ⟨waiting,rfl⟩⟩
    | some p =>
      obtain ⟨rfl,rfl⟩ := Prod.mk.inj (Option.some.inj ran)
      exact .inr ⟨waiting,rfl,rfl,rfl⟩
  next busy =>
    obtain ⟨q,own,eq⟩ := Option.map_eq_some_iff.mp ran
    obtain ⟨rfl,rfl⟩ := Prod.mk.inj eq
    exact .inl ⟨own,.inr ⟨by simpa using busy,rfl⟩⟩

/-- A step on a lock in memory is one of the program, or the program does not notice it. -/
theorem carry_step (lawful : lock.Lawful locked bound) (uses : UsesLock prog holder waits unlocks)
    (agrees : Agrees holder locked c)
    (stepped : step (lock.carry prog waits unlocks) c (t,choice) = some next) :
    Agrees holder locked next ∧
      (step prog c.client (t,choice) = some next.client ∨
        waits (c.locals t).1 choice = true ∧ next.client = c.client) := by
  obtain ⟨l,s,ran,rfl⟩ := step_eq_some.mp stepped
  rcases Lock.carry_cases ran with ⟨own,how⟩ | ⟨waiting,sameLocal,sameShared,tried⟩
  · refine ⟨?_,.inl (Config.map_step own)⟩
    rcases how with ⟨waiting,tried⟩ | ⟨busy,memory⟩
    · obtain ⟨_,held⟩ := uses.takes waiting own
      simp [Agrees,held,(lawful.acquired tried).2]
    · cases unlocking : unlocks (c.locals t).1 with
      | true => simp [Agrees,memory,unlocking,uses.gives busy unlocking own,lawful.unlocked]
      | false => simpa [Agrees,memory,unlocking,uses.keeps busy unlocking own] using agrees
  · refine ⟨?_,.inr ⟨waiting,Config.map_same sameShared sameLocal⟩⟩
    exact (lawful.refused tried).trans (agrees.trans (by rw [sameShared]))

/-- A thread that waits for the lock is never blocked. -/
theorem carry_enabled (lawful : lock.Lawful locked bound) (uses : UsesLock prog holder waits unlocks)
    (agrees : Agrees holder locked c) (waiting : waits (c.locals t).1 choice = true) :
    ∃ next, step (lock.carry prog waits unlocks) c (t,choice) = some next := by
  rcases tried : lock.attempt (c.locals t).2 c.shared.2 with ⟨more,f⟩
  simp only [step,Lock.carry,if_pos waiting,tried]
  cases more with
  | some p => exact ⟨_,rfl⟩
  | none =>
    have free : holder c.shared.1 = none := by
      rw [← Option.not_isSome_iff_eq_none,← agrees,(lawful.acquired tried).1]
      simp
    obtain ⟨next,own⟩ := Option.isSome_iff_exists.mp (uses.enabled (t := t) waiting free)
    rw [own]
    exact ⟨_,rfl⟩

/-- A thread that waits for a free lock has it after some steps of its own, if it runs alone. -/
theorem carry_gets (lawful : lock.Lawful locked bound) (uses : UsesLock prog holder waits unlocks)
    (agrees : Agrees holder locked c) (waiting : waits (c.locals t).1 choice = true) {n : Nat}
    (gets : lock.gets n (c.locals t).2 c.shared.2 = true) :
    ∃ k ≤ n, ∃ next, Transition.run (step (lock.carry prog waits unlocks))
        (List.replicate k (t,choice)) c = some next ∧
      step prog c.client (t,choice) = some next.client := by
  induction n generalizing c with
  | zero => contradiction
  | succ n ih =>
    obtain ⟨next,stepped⟩ := carry_enabled lawful uses agrees waiting
    obtain ⟨l,s,ran,is⟩ := step_eq_some.mp stepped
    obtain ⟨agrees',_⟩ := carry_step lawful uses agrees stepped
    rcases Lock.carry_cases ran with ⟨own,_⟩ | ⟨_,sameLocal,sameShared,tried⟩
    · refine ⟨1,by omega,next,?_,?_⟩
      · simp [Transition.run,stepped]
      · rw [is]
        exact Config.map_step own
    · have locals : next.locals t = l := by simp [is]
      have still : next.client = c.client := by
        rw [is]
        exact Config.map_same sameShared sameLocal
      rw [Lock.gets,tried] at gets
      obtain ⟨k,le,final,more,own⟩ := ih agrees' (by rw [locals,sameLocal]; exact waiting)
        (by rw [locals,is]; exact gets)
      refine ⟨k + 1,by omega,final,?_,still ▸ own⟩
      rw [List.replicate_succ]
      simpa [Transition.run,stepped] using more

/-- A configuration in which no thread is in the middle of its attempts. -/
def Fresh (lock : Lock P F) (c : Config θ (S × F) (L × P)) : Prop := ∀ t, (c.locals t).2 = lock.start

/-- A step of the program is one on a lock in memory, that of a thread which gets it at once. -/
theorem carry_matches (lawful : lock.Lawful locked bound) (uses : UsesLock prog holder waits unlocks)
    (agrees : Agrees holder locked c) (fresh : Fresh lock c) {final : Config θ S L}
    (stepped : step prog c.client (t,choice) = some final) :
    ∃ next, step (lock.carry prog waits unlocks) c (t,choice) = some next ∧ Fresh lock next ∧
      next.client = final := by
  obtain ⟨l,s,own,rfl⟩ := step_eq_some.mp stepped
  have own : prog t choice (c.locals t).1 c.shared.1 = some (l,s) := own
  have goes : ∃ f, lock.carry prog waits unlocks t choice (c.locals t) c.shared =
      some ((l,lock.start),(s,f)) := by
    rw [Lock.carry]
    split
    next waiting =>
      obtain ⟨free,_⟩ := uses.takes waiting own
      have unlocked : locked c.shared.2 = false := by rw [agrees,free]; rfl
      have first := lawful.starts unlocked
      rw [← fresh t] at first
      rcases tried : lock.attempt (c.locals t).2 c.shared.2 with ⟨more,f⟩
      rw [tried] at first
      obtain rfl : more = none := first
      exact ⟨f,by rw [own]; rfl⟩
    next => exact ⟨_,by rw [own]; rfl⟩
  obtain ⟨f,ran⟩ := goes
  refine ⟨_,step_eq_some.mpr ⟨_,_,ran,rfl⟩,fun u => ?_,Config.map_update⟩
  by_cases same : u = t
  · subst same
    simp
  · simpa [same] using fresh u

theorem carry_matches_run (lawful : lock.Lawful locked bound)
    (uses : UsesLock prog holder waits unlocks) {labels : List (θ × C)} {first final : Config θ S L}
    (path : Transition.Path (step prog) Transition.anyStep first labels final)
    (agrees : Agrees holder locked c) (fresh : Fresh lock c) (client : c.client = first) :
    ∃ low, Transition.Path (step (lock.carry prog waits unlocks)) Transition.anyStep c labels low ∧
      low.client = final := by
  induction path generalizing c with
  | nil => exact ⟨c,.nil,client⟩
  | cons _ stepped _ ih =>
    rw [← client] at stepped
    obtain ⟨next,ran,fresh',client'⟩ := carry_matches lawful uses agrees fresh stepped
    obtain ⟨low,more,is⟩ := ih (carry_step lawful uses agrees ran).1 fresh' client'
    exact ⟨low,.cons trivial ran more,is⟩

end carry

end Threads
