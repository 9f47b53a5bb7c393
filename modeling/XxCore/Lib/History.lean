import Mathlib.Data.List.Basic

/-! Logs with the newest event first, in which every event is judged by what happened before it. -/
namespace History

variable {E : Type u}

/-- Every event fits what happened before it. -/
def Sound (fits : List E → E → Prop) : List E → Prop
  | [] => True
  | event :: earlier => fits earlier event ∧ Sound fits earlier

variable {fits : List E → E → Prop} {log later earlier : List E} {event : E}

theorem Sound.suffix (sound : Sound fits (later ++ earlier)) : Sound fits earlier := by
  induction later with
  | nil => exact sound
  | cons _ _ ih => exact ih sound.2

theorem Sound.split (sound : Sound fits log) (shape : log = later ++ event :: earlier) :
    fits earlier event := by
  subst shape
  exact sound.suffix.1

section Latest

variable {K : Type v} {V : Type w} [DecidableEq K] {sets : E → Option (K × V)} {start : V}

/-- The value of a key after a log, when an event sets the value of at most one key. -/
def latest (sets : E → Option (K × V)) (start : V) : List E → K → V
  | [],_ => start
  | event :: earlier,k =>
    match sets event with
    | some (key,value) => if key = k then value else latest sets start earlier k
    | none => latest sets start earlier k

theorem latest_of_none (silent : sets event = none) (k : K) :
    latest sets start (event :: log) k = latest sets start log k := by
  simp [latest,silent]

theorem latest_self {k : K} {value : V} (set : sets event = some (k,value)) :
    latest sets start (event :: log) k = value := by
  simp [latest,set]

theorem latest_other {key k : K} {value : V} (set : sets event = some (key,value)) (other : key ≠ k) :
    latest sets start (event :: log) k = latest sets start log k := by
  simp [latest,set,other]

/-- A count that every event moves as it moves a weight of the key's value. -/
theorem Sound.countP (sound : Sound fits log) (p : E → Bool) (weight : V → Nat) (k : K)
    (zero : weight start = 0)
    (adds : ∀ earlier event, fits earlier event → weight (latest sets start (event :: earlier) k) =
      weight (latest sets start earlier k) + (p event).toNat) :
    log.countP p = weight (latest sets start log k) := by
  induction log with
  | nil => exact zero.symm
  | cons event log ih =>
    rw [adds log event sound.1,← ih sound.2,List.countP_cons]
    cases p event <;> rfl

end Latest

end History
