import XxCore.ThreadPool.Pool

/-! What a log of the pool says of a submission, and the order in which its events may come. -/
namespace XxCore.ThreadPool

open History

/-- How far a submission has come. -/
inductive Status (θ : Type) where
  | unknown
  | queued
  | working (t : θ) (stage : Stage)
  | done (result : Bool)
  | resumed (result : Bool)
  deriving DecidableEq, Repr

variable {θ ω : Type} [DecidableEq θ] [DecidableEq ω]

namespace Event

def status : Event θ ω → Option (Nat × Status θ)
  | submitted n _ => some (n,.queued)
  | took t n => some (n,.working t .calling)
  | called t n => some (n,.working t .running)
  | returned t n => some (n,.working t .returned)
  | completed n result => some (n,.done result)
  | resumed n result => some (n,.resumed result)
  | observed .. | released .. | marked .. => none

/-- The submission that a worker is at. -/
def current : Event θ ω → Option (θ × Option Nat)
  | took t n => some (t,some n)
  | released t => some (t,none)
  | _ => none

def isCall (n : Nat) : Event θ ω → Bool
  | called _ m => m = n
  | _ => false

def isReturn (n : Nat) : Event θ ω → Bool
  | returned _ m => m = n
  | _ => false

def isCompletion (n : Nat) : Event θ ω → Bool
  | completed m _ => m = n
  | _ => false

end Event

def statusOf (log : List (Event θ ω)) (n : Nat) : Status θ := latest Event.status .unknown log n

def currentOf (log : List (Event θ ω)) (t : θ) : Option Nat := latest Event.current none log t

/-- The submission was completed. -/
def Status.Done (status : Status θ) (result : Bool) : Prop :=
  status = .done result ∨ status = .resumed result

/-- What has happened to a submission before the next event. -/
def Fits (earlier : List (Event θ ω)) : Event θ ω → Prop
  | .submitted n _ => statusOf earlier n = .unknown
  | .took t n => statusOf earlier n = .queued ∧ currentOf earlier t = none
  | .called t n => statusOf earlier n = .working t .calling
  | .observed t n =>
    statusOf earlier n = .working t .running ∧ .marked t n ∈ earlier
  | .returned t n => statusOf earlier n = .working t .running
  | .completed n true => ∃ t, statusOf earlier n = .working t .returned
  | .completed n false => statusOf earlier n = .queued
  | .released t => ∃ n, currentOf earlier t = some n ∧ (statusOf earlier n).Done true
  | .marked t n => currentOf earlier t = some n
  | .resumed n result => statusOf earlier n = .done result

variable {log earlier : List (Event θ ω)} {event : Event θ ω} {n : Nat} {t : θ} {result : Bool}

theorem statusOf_cons_other {m : Nat} {status : Status θ} (sets : event.status = some (m,status))
    (other : m ≠ n) : statusOf (event :: log) n = statusOf log n :=
  latest_other sets other

theorem statusOf_cons_self (log : List (Event θ ω)) {status : Status θ}
    (sets : event.status = some (n,status)) :
    statusOf (event :: log) n = status :=
  latest_self sets

theorem statusOf_cons_silent (silent : event.status = none) (n : Nat) :
    statusOf (event :: log) n = statusOf log n :=
  latest_of_none silent n

theorem currentOf_cons_silent (silent : event.current = none) (t : θ) :
    currentOf (event :: log) t = currentOf log t :=
  latest_of_none silent t

namespace Status

/-- The calls of the callback that a status stands for. -/
def calls : Status θ → Nat
  | working _ .running | working _ .returned => 1
  | done result | resumed result => result.toNat
  | _ => 0

def returns : Status θ → Nat
  | working _ .returned => 1
  | done result | resumed result => result.toNat
  | _ => 0

def completions : Status θ → Nat
  | done _ | resumed _ => 1
  | _ => 0

end Status

theorem calls_of_status (sound : Sound Fits log) (n : Nat) :
    log.countP (Event.isCall n) = (statusOf log n).calls := by
  apply sound.countP (Event.isCall n) Status.calls n rfl
  intro earlier event fits
  cases event with
  | completed m result => cases result <;> grind [Fits,statusOf,latest,Event.status,Event.isCall,Status.calls]
  | _ => grind [Fits,statusOf,latest,Event.status,Event.isCall,Status.calls]

theorem returns_of_status (sound : Sound Fits log) (n : Nat) :
    log.countP (Event.isReturn n) = (statusOf log n).returns := by
  apply sound.countP (Event.isReturn n) Status.returns n rfl
  intro earlier event fits
  cases event with
  | completed m result =>
    cases result <;> grind [Fits,statusOf,latest,Event.status,Event.isReturn,Status.returns]
  | _ => grind [Fits,statusOf,latest,Event.status,Event.isReturn,Status.returns]

theorem completions_of_status (sound : Sound Fits log) (n : Nat) :
    log.countP (Event.isCompletion n) = (statusOf log n).completions := by
  apply sound.countP (Event.isCompletion n) Status.completions n rfl
  intro earlier event fits
  cases event with
  | completed m result =>
    cases result <;> grind [Fits,statusOf,latest,Event.status,Event.isCompletion,Status.completions]
  | _ => grind [Fits,statusOf,latest,Event.status,Event.isCompletion,Status.completions]

/-- A completion is what the status keeps from then on. -/
theorem completed_iff (sound : Sound Fits log) (n : Nat) (result : Bool) :
    .completed n result ∈ log ↔ (statusOf log n).Done result := by
  induction log with
  | nil => simp [statusOf,latest,Status.Done]
  | cons event log ih =>
    obtain ⟨fits,sound⟩ := sound
    rw [List.mem_cons,ih sound]
    cases event with
    | completed m r => cases r <;> grind [Fits,statusOf,latest,Event.status,Status.Done]
    | _ => grind [Fits,statusOf,latest,Event.status,Status.Done]

/-- A worker is at the submission that it works on. -/
theorem current_of_working {stage : Stage} (sound : Sound Fits log)
    (working : statusOf log n = .working t stage) : currentOf log t = some n := by
  induction log generalizing stage with
  | nil => simp [statusOf,latest] at working
  | cons event log ih =>
    obtain ⟨fits,sound⟩ := sound
    have ih {stage : Stage} (before : statusOf log n = .working t stage) :=
      ih sound before
    cases event with
    | completed m r =>
      cases r <;> grind [Fits,statusOf,currentOf,latest,Event.status,Event.current]
    | _ => grind [Fits,statusOf,currentOf,latest,Event.status,Event.current,Status.Done]

/-- A worker has not been back since it took the submission that it is at. -/
theorem taken_of_current (current : currentOf log t = some n) :
    ∃ since before, log = since ++ .took t n :: before ∧ .released t ∉ since := by
  induction log with
  | nil => simp [currentOf,latest] at current
  | cons event log ih =>
    have older (same : currentOf log t = some n) (other : event ≠ .released t) :
        ∃ since before, event :: log = since ++ .took t n :: before ∧ .released t ∉ since := by
      obtain ⟨since,before,rfl,away⟩ := ih same
      refine ⟨event :: since,before,rfl,?_⟩
      simp [other.symm,away]
    cases event with
    | took u m =>
      by_cases same : u = t
      · subst same
        simp only [currentOf,latest,Event.current,if_true,Option.some.injEq] at current
        exact ⟨[],log,by rw [current]; rfl,by simp⟩
      · exact older (by simpa [currentOf,latest,Event.current,same] using current) (by simp)
    | released u =>
      by_cases same : u = t
      · simp [currentOf,latest,Event.current,same] at current
      · exact older (by simpa [currentOf,latest,Event.current,same] using current) (by simp [same])
    | _ => exact older (by simpa [currentOf,latest,Event.current] using current) (by simp)

theorem known_of_submitted {work : ω} (submitted : .submitted n work ∈ log) :
    statusOf log n ≠ .unknown := by
  induction log with
  | nil => simp at submitted
  | cons event log ih => cases event <;> grind [statusOf,latest,Event.status]

end XxCore.ThreadPool
