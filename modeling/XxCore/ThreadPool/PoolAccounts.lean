import XxCore.ThreadPool.PoolSteps

/-! Every submission is completed once, by the worker that called it or by who took it out of the
queue. -/
namespace XxCore.ThreadPool

open History Transition

variable {θ ω : Type} [DecidableEq θ] [DecidableEq ω]

/-- A submission is a number, and works of other submissions may have used its address. A worker
is at a submission from when it took its work until it resets `cur_work`. -/
structure Accounts (log : List (Event θ ω)) : Prop where
  atMostOnce : ∀ n, log.countP (Event.isCompletion n) ≤ 1
  trueAfterCall : ∀ n later earlier, log = later ++ .completed n true :: earlier →
    earlier.countP (Event.isCall n) = 1 ∧ earlier.countP (Event.isReturn n) = 1 ∧
      log.countP (Event.isCall n) = 1
  falseNeverCalled : ∀ n t, .completed n false ∈ log → .called t n ∉ log
  markedAtWork : ∀ t n later earlier, log = later ++ .marked t n :: earlier →
    ∃ since before, earlier = since ++ .took t n :: before ∧ .released t ∉ since
  observedOwn : ∀ t n later earlier, log = later ++ .observed t n :: earlier → .marked t n ∈ earlier

theorem Status.calls_of_done {status : Status θ} {result : Bool} (done : status.Done result) :
    status.calls = result.toNat := by
  rcases done with rfl | rfl <;> rfl

theorem Status.completions_le (status : Status θ) : status.completions ≤ 1 := by
  cases status <;> simp [Status.completions]

variable {log : List (Event θ ω)}

theorem accounts_of_sound (sound : Sound Fits log) : Accounts log := by
  constructor
  case atMostOnce =>
    intro n
    rw [completions_of_status sound]
    exact Status.completions_le _
  case trueAfterCall =>
    intro n later earlier shape
    obtain ⟨t,status⟩ := sound.split shape
    have before : Sound Fits earlier := by
      rw [shape] at sound
      exact sound.suffix.2
    have done := (completed_iff sound n true).mp (by simp [shape])
    refine ⟨?_,?_,?_⟩
    · rw [calls_of_status before,status]
      rfl
    · rw [returns_of_status before,status]
      rfl
    · rw [calls_of_status sound,Status.calls_of_done done]
      rfl
  case falseNeverCalled =>
    intro n t completed called
    have done := (completed_iff sound n false).mp completed
    have none : log.countP (Event.isCall n) = 0 := by
      rw [calls_of_status sound,Status.calls_of_done done]
      rfl
    have notCall := List.countP_eq_zero.mp none _ called
    simp [Event.isCall] at notCall
  case markedAtWork =>
    intro t n later earlier shape
    exact taken_of_current (sound.split shape)
  case observedOwn =>
    intro t n later earlier shape
    exact (sound.split shape).2

variable [Fintype θ] {labels : List (Label θ ω)} {s : State θ ω}

/-- Whatever the submitters, the workers and the cancellers do and in whatever order: every
submission is completed at most once, with `true` after its callback was called exactly once and
with `false` if it is never called; a cancel marks only the worker that is at its own submission,
and a callback that sees the mark was canceled itself; once the queue is dropped, every submission
was completed. -/
theorem pool_accounts (path : Path step anyStep (init θ ω) labels s) :
    Accounts s.log ∧ (s.pool = .queueDropped →
      ∀ n work, .submitted n work ∈ s.log → ∃ result, .completed n result ∈ s.log) := by
  have consistent := consistent_of_path path
  refine ⟨accounts_of_sound consistent.sound,?_⟩
  intro dropped n work submitted
  obtain ⟨empty,exited⟩ := consistent.dropped dropped
  cases status : statusOf s.log n with
  | unknown => exact absurd status (known_of_submitted submitted)
  | queued =>
    obtain ⟨a,live⟩ := consistent.found n (by simp [status]) (by simp [status])
    obtain ⟨record,_,is⟩ := (consistent.placed a).owned n live
    have linked := is.linked.mpr status
    simp [empty] at linked
  | working t stage =>
    have current := current_of_working consistent.sound status
    have atWork := consistent.atWork t
    simp [AtWork,exited t,current] at atWork
  | done result => exact ⟨result,(completed_iff consistent.sound n result).mpr (.inl status)⟩
  | resumed result => exact ⟨result,(completed_iff consistent.sound n result).mpr (.inr status)⟩

/-- A submission is canceled while its callback runs, and another is in the queue until the drop. -/
theorem pool_accounts_dropped : ∃ s : State (Fin 2) Nat,
    Path step anyStep (init (Fin 2) Nat)
      [.newWork 0,.submit 0,.newWork 1,.submit 1,.lock 0,.call 0,.cancelDirect 0 0,.observe 0,
        .return_ 0,.complete 0,.dropPool,.dropCancel,.lock 0,.lock 1,.dropQueue] s ∧
    s.log.countP (Event.isCompletion 0) ≤ 1 ∧ .marked 0 0 ∈ s.log ∧
    ∃ result, .completed 1 result ∈ s.log := by
  have run : ∃ s : State (Fin 2) Nat,
      Path step anyStep (init (Fin 2) Nat)
        [.newWork 0,.submit 0,.newWork 1,.submit 1,.lock 0,.call 0,.cancelDirect 0 0,.observe 0,
          .return_ 0,.complete 0,.dropPool,.dropCancel,.lock 0,.lock 1,.dropQueue] s ∧
      s.pool = .queueDropped ∧ .submitted 1 1 ∈ s.log ∧ .marked 0 0 ∈ s.log :=
    ⟨_,run_path (fun _ _ _ => trivial) rfl,rfl,by decide,by decide⟩
  obtain ⟨s,path,dropped,submitted,marked⟩ := run
  obtain ⟨accounts,completed⟩ := pool_accounts path
  exact ⟨s,path,accounts.atMostOnce 0,marked,completed dropped 1 1 submitted⟩

end XxCore.ThreadPool
