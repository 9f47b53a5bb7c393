import Mathlib.Data.List.Basic

/-! Values that are dropped one after another when what holds them goes away. A destructor that
panics ends the sweep; a guard sweeps once more then, and a second panic aborts. -/
universe u v

namespace Sweep

variable {S : Type u} {V : Type v}

/-- What a sweep leaves, and what it dropped. The value whose destructor panicked is the last one. -/
structure Swept (S : Type u) (V : Type v) where
  state : S
  dropped : List V
  panicked : Bool

inductive Ended where
  | finished
  | unwound
  | aborted
  deriving DecidableEq

structure Cleared (S : Type u) (V : Type v) where
  state : S
  dropped : List V
  ended : Ended

/-- A sweep of values that a list holds. -/
def sweep (panics : V → Bool) : List V → Swept (List V) V
  | [] => ⟨[],[],false⟩
  | value :: rest =>
    if panics value then ⟨rest,[value],true⟩
    else
      let swept := sweep panics rest
      ⟨swept.state,value :: swept.dropped,swept.panicked⟩

/-- A sweep under a guard. -/
def guarded (all : S → Swept S V) (s : S) : Cleared S V :=
  let first := all s
  if first.panicked then
    let again := all first.state
    ⟨again.state,first.dropped ++ again.dropped,if again.panicked then .aborted else .unwound⟩
  else ⟨first.state,first.dropped,.finished⟩

/-- A sweep of the values that a state holds. -/
structure Sweeps (panics : V → Bool) (holds : S → List V → Prop) (all : S → Swept S V) : Prop where
  state : ∀ s values, holds s values → holds (all s).state (sweep panics values).state
  dropped : ∀ s values, holds s values → (all s).dropped = (sweep panics values).dropped
  panicked : ∀ s values, holds s values → (all s).panicked = (sweep panics values).panicked

variable {panics : V → Bool}

/-- A sweep goes on where the one before it ended. -/
theorem dropped_append_state (panics : V → Bool) (values : List V) :
    (sweep panics values).dropped ++ (sweep panics values).state = values := by
  induction values with
  | nil => rfl
  | cons value rest ih =>
    rw [sweep]
    split
    · rfl
    · exact congrArg (value :: ·) ih

theorem state_of_finished {values : List V} (finished : (sweep panics values).panicked = false) :
    (sweep panics values).state = [] := by
  induction values with
  | nil => rfl
  | cons value rest ih =>
    rw [sweep] at finished ⊢
    split at finished
    · contradiction
    · rw [if_neg ‹_›]
      exact ih finished

theorem panicked_eq (panics : V → Bool) (values : List V) : (sweep panics values).panicked = values.any panics := by
  induction values with
  | nil => rfl
  | cons value rest ih =>
    rw [sweep,List.any_cons]
    split
    next here => rw [here,Bool.true_or]
    next other => rw [ih,Bool.eq_false_iff.mpr other,Bool.false_or]

/-- A panic is one of those that there can be. -/
theorem state_of_panicked {values : List V} (one : (values.filter panics).length ≤ 1)
    (panicked : (sweep panics values).panicked = true) :
    (sweep panics values).state.any panics = false := by
  induction values with
  | nil => contradiction
  | cons value rest ih =>
    rw [sweep] at panicked ⊢
    split at panicked
    next here =>
      rw [if_pos here]
      rw [List.filter_cons_of_pos here,List.length_cons] at one
      have none : rest.filter panics = [] := List.length_eq_zero_iff.mp (by omega)
      rw [List.any_eq_false]
      exact fun other has => List.filter_eq_nil_iff.mp none other has
    next other =>
      rw [if_neg other]
      rw [List.filter_cons_of_neg other] at one
      exact ih one panicked

/-- Where at most one destructor panics, a sweep under a guard drops each value once. -/
theorem Sweeps.guarded {holds : S → List V → Prop} {all : S → Swept S V}
    (sweeps : Sweeps panics holds all) {s : S} {values : List V} (held : holds s values)
    (one : (values.filter panics).length ≤ 1) :
    (guarded all s).dropped = values ∧ holds (guarded all s).state [] ∧
      (guarded all s).ended = if values.any panics then .unwound else .finished := by
  have first := sweeps.state s values held
  have dropped := sweeps.dropped s values held
  have panicked := sweeps.panicked s values held
  have split := dropped_append_state panics values
  rw [panicked_eq] at panicked
  rw [Sweep.guarded]
  cases any : values.any panics with
  | true =>
    rw [any] at panicked
    have none : ((sweep panics values).state).any panics = false :=
      state_of_panicked one ((panicked_eq panics values).trans any)
    have again := sweeps.panicked _ _ first
    rw [panicked_eq,none] at again
    have finished := (panicked_eq panics (sweep panics values).state).trans none
    have rest := sweeps.dropped _ _ first
    have whole := dropped_append_state panics (sweep panics values).state
    rw [state_of_finished finished,List.append_nil] at whole
    have last := sweeps.state _ _ first
    rw [state_of_finished finished] at last
    simp only [panicked,again,if_true]
    refine ⟨?_,last,rfl⟩
    rw [dropped,rest,whole,split]
  | false =>
    rw [any] at panicked
    have finished := (panicked_eq panics values).trans any
    rw [state_of_finished finished] at first split
    rw [List.append_nil] at split
    simp only [panicked]
    exact ⟨dropped.trans split,first,rfl⟩

end Sweep
