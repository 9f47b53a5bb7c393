import XxCore.ThreadPool.PoolLog

/-! What holds between the sections of the pool. Submissions and workers are told apart by the log,
and the works in memory and the phases of the workers follow it. -/
namespace XxCore.ThreadPool

open History Transition

variable {θ ω : Type} [DecidableEq θ] [DecidableEq ω] {s next : State θ ω} {a b : ω} {n m : Nat}
  {t u : θ}

/-- The work of a submission in progress. `worker` is what `cancel_direct` goes by, and
`current` is why an address that was used before does not mislead it. -/
structure Record (s : State θ ω) (work : ω) (n : Nat) (record : Work θ) : Prop where
  request : record.request = some n
  known : statusOf s.log n ≠ .unknown
  waiting : ∀ result, statusOf s.log n ≠ .resumed result
  linked : work ∈ s.queue ↔ statusOf s.log n = .queued
  worker : record.worker = none ↔ statusOf s.log n = .queued ∨ statusOf s.log n = .done false
  taker : ∀ t stage, statusOf s.log n = .working t stage → record.worker = some t
  callback : record.callback = true → statusOf s.log n = .queued ∨
    statusOf s.log n = .done false ∨ ∃ t, statusOf s.log n = .working t .calling
  current : ∀ t, record.worker = some t → s.curWork t = some work → currentOf s.log t = some n

/-- An address without a submission in progress, whose work may be submitted. -/
structure Unused (s : State θ ω) (work : ω) : Prop where
  unlinked : work ∉ s.queue
  worker : ∀ record, s.works work = some record → record.callback = true → record.worker = none

structure Placed (s : State θ ω) (work : ω) : Prop where
  owned : ∀ n, s.live work = some n → ∃ record, s.works work = some record ∧ Record s work n record
  unused : s.live work = none → Unused s work

def AtWork (s : State θ ω) (t : θ) : Prop :=
  match s.phase t with
  | .locking | .exited => s.curWork t = none ∧ currentOf s.log t = none
  | .working stage work n =>
    s.curWork t = some work ∧ s.live work = some n ∧ statusOf s.log n = .working t stage
  | .returning => ∃ n, currentOf s.log t = some n ∧ (statusOf s.log n).Done true

structure Consistent (s : State θ ω) : Prop where
  sound : Sound Fits s.log
  fresh : ∀ n, s.submissions ≤ n → statusOf s.log n = .unknown
  distinct : ∀ a b n, s.live a = some n → s.live b = some n → a = b
  found : ∀ n, statusOf s.log n ≠ .unknown → (∀ result, statusOf s.log n ≠ .resumed result) →
    ∃ work, s.live work = some n
  nodup : s.queue.Nodup
  placed : ∀ work, Placed s work
  atWork : ∀ t, AtWork s t
  flag : ∀ t n, s.cancelled t = true → currentOf s.log t = some n → .marked t n ∈ s.log
  dropped : s.pool = .queueDropped → s.queue = [] ∧ ∀ t, s.phase t = .exited

theorem consistent_init : Consistent (init θ ω) := by
  constructor
  case placed =>
    intro work
    constructor
    · intro n here
      simp [init] at here
    · intro _
      constructor <;> simp [init]
  all_goals simp [init,Sound,statusOf,currentOf,latest,AtWork]

/-- The address that a step is about. -/
theorem Placed.of_record {record : Work θ} (live : s.live a = some n) (there : s.works a = some record)
    (is : Record s a n record) : Placed s a := by
  constructor
  · intro m here
    obtain rfl := Option.some.inj (live.symm.trans here)
    exact ⟨record,there,is⟩
  · intro free
    simp [live] at free

/-- What a step leaves alone at an address. -/
theorem Placed.frame (placed : Placed s a) (live : next.live a = s.live a)
    (works : next.works a = s.works a) (linked : a ∈ next.queue ↔ a ∈ s.queue)
    (status : ∀ n, s.live a = some n → statusOf next.log n = statusOf s.log n)
    (current : ∀ t, next.curWork t = some a →
      s.curWork t = some a ∧ currentOf next.log t = currentOf s.log t) : Placed next a := by
  constructor
  · intro n here
    rw [live] at here
    obtain ⟨record,there,is⟩ := placed.owned n here
    refine ⟨record,works.trans there,?_⟩
    have same := status n here
    constructor
    · exact is.request
    · rw [same]
      exact is.known
    · rw [same]
      exact is.waiting
    · rw [same,linked]
      exact is.linked
    · rw [same]
      exact is.worker
    · rw [same]
      exact is.taker
    · rw [same]
      exact is.callback
    · intro t worker at_
      obtain ⟨before,log⟩ := current t at_
      exact log.trans (is.current t worker before)
  · intro free
    have unused := placed.unused (live.symm.trans free)
    constructor
    · exact mt linked.mp unused.unlinked
    · intro record there
      exact unused.worker record (works.symm.trans there)

/-- What a step leaves alone at a worker. -/
theorem AtWork.frame (atWork : AtWork s t) (phase : next.phase t = s.phase t)
    (curWork : next.curWork t = s.curWork t) (current : currentOf next.log t = currentOf s.log t)
    (live : ∀ stage work n, s.phase t = .working stage work n → next.live work = s.live work)
    (working : ∀ n stage, statusOf s.log n = .working t stage →
      statusOf next.log n = .working t stage)
    (done : ∀ n, (statusOf s.log n).Done true → (statusOf next.log n).Done true) :
    AtWork next t := by
  unfold AtWork at atWork ⊢
  rw [phase,curWork,current]
  cases here : s.phase t with
  | working stage work n =>
    simp only [here] at atWork ⊢
    obtain ⟨at_,live_,status⟩ := atWork
    exact ⟨at_,(live _ _ _ here).trans live_,working n stage status⟩
  | returning =>
    simp only [here] at atWork ⊢
    obtain ⟨n,is,status⟩ := atWork
    exact ⟨n,is,done n status⟩
  | _ => simpa only [here] using atWork

namespace Consistent

/-- The flag, the pool and the cancels are not of the works. -/
theorem outside (consistent : Consistent s) (closed : Bool) (pool : Pool)
    (tokens : List (Nat × ω))
    (dropped : pool = .queueDropped → s.queue = [] ∧ ∀ t, s.phase t = .exited) :
    Consistent { s with closed, pool, tokens } :=
  { consistent with
    placed := fun work => (consistent.placed work).frame rfl rfl .rfl (fun _ _ => rfl)
      fun _ at_ => ⟨at_,rfl⟩
    dropped }

theorem newWork (consistent : Consistent s) (unused : s.live a = none) :
    Consistent { s with works := Function.update s.works a (some .new) } :=
  { consistent with
    placed := by
      intro work
      by_cases same : work = a
      · subst same
        refine ⟨fun n here => by simp [unused] at here,fun _ => ⟨?_,?_⟩⟩
        · exact ((consistent.placed work).unused unused).unlinked
        · intro record there _
          simp only [Function.update_self,Option.some.injEq] at there
          subst there
          rfl
      · exact (consistent.placed work).frame rfl (Function.update_of_ne same ..) .rfl
          (fun _ _ => rfl) fun _ at_ => ⟨at_,rfl⟩ }

section Step

variable {event : Event θ ω} {after : Status θ}

/-- A submission whose status an event changes, seen from the address of another one. -/
theorem status_elsewhere (consistent : Consistent s) (sets : event.status = some (n,after))
    (here : s.live a = some n) (other : b ≠ a) (there : s.live b = some m) :
    statusOf (event :: s.log) m = statusOf s.log m := by
  apply statusOf_cons_other sets
  rintro rfl
  exact other (consistent.distinct b a n there here)

theorem fresh_cons (consistent : Consistent s) (sets : event.status = some (n,after))
    (known : statusOf s.log n ≠ .unknown) (m : Nat) (later : s.submissions ≤ m) :
    statusOf (event :: s.log) m = .unknown := by
  have unknown := consistent.fresh m later
  refine (statusOf_cons_other sets ?_).trans unknown
  rintro rfl
  exact known unknown

theorem found_cons (consistent : Consistent s) (sets : event.status = some (n,after))
    (here : s.live a = some n) (m : Nat) (known : statusOf (event :: s.log) m ≠ .unknown)
    (waiting : ∀ result, statusOf (event :: s.log) m ≠ .resumed result) :
    ∃ work, s.live work = some m := by
  by_cases same : n = m
  · exact ⟨a,same ▸ here⟩
  · rw [statusOf_cons_other sets same] at known waiting
    exact consistent.found m known waiting

theorem flag_cons (consistent : Consistent s) (silent : event.current = none) (u : θ) (m : Nat)
    (cancelled : s.cancelled u = true) (at_ : currentOf (event :: s.log) u = some m) :
    .marked u m ∈ event :: s.log := by
  rw [currentOf_cons_silent silent] at at_
  exact List.mem_cons_of_mem _ (consistent.flag u m cancelled at_)

theorem fresh_silent (consistent : Consistent s) (noStatus : event.status = none) (m : Nat)
    (later : s.submissions ≤ m) : statusOf (event :: s.log) m = .unknown :=
  (statusOf_cons_silent noStatus m).trans (consistent.fresh m later)

theorem found_silent (consistent : Consistent s) (noStatus : event.status = none) (m : Nat)
    (known : statusOf (event :: s.log) m ≠ .unknown)
    (waiting : ∀ result, statusOf (event :: s.log) m ≠ .resumed result) :
    ∃ work, s.live work = some m := by
  rw [statusOf_cons_silent noStatus] at known waiting
  exact consistent.found m known waiting

/-- A worker that is not at a submission, when the status of that submission changes. -/
theorem atWork_elsewhere (consistent : Consistent s) (sets : event.status = some (n,after))
    (notWorking : ∀ stage, statusOf s.log n ≠ .working u stage)
    (notDone : (statusOf s.log n).Done true → after.Done true)
    (phase : next.phase u = s.phase u) (curWork : next.curWork u = s.curWork u)
    (current : currentOf next.log u = currentOf s.log u)
    (live : ∀ stage work n, s.phase u = .working stage work n → next.live work = s.live work)
    (log : next.log = event :: s.log) : AtWork next u := by
  apply (consistent.atWork u).frame phase curWork current live
  · intro m stage working
    rw [log]
    refine (statusOf_cons_other sets ?_).trans working
    rintro rfl
    exact notWorking stage working
  · intro m done
    rw [log]
    by_cases same : n = m
    · subst same
      rw [statusOf_cons_self s.log sets]
      exact notDone done
    · rwa [statusOf_cons_other sets same]

/-- A part of a worker's turn without the lock. -/
theorem progress (consistent : Consistent s) {stage : Stage} {record : Work θ}
    (phase : s.phase t = .working stage a n) (there : s.works a = some record)
    (sets : event.status = some (n,after)) (silent : event.current = none)
    (fits : Fits s.log event) {works : ω → Option (Work θ)} {phase' : Phase ω}
    (moves : (∃ stage, after = .working t stage ∧ phase' = .working stage a n) ∨
      after = .done true ∧ phase' = .returning)
    (called : works a = some { record with callback := false })
    (elsewhere : ∀ b, b ≠ a → works b = s.works b) :
    Consistent { s with
      works
      phase := Function.update s.phase t phase'
      log := event :: s.log } := by
  have atWork := consistent.atWork t
  simp only [AtWork,phase] at atWork
  obtain ⟨curWork,live,status⟩ := atWork
  have current := current_of_working consistent.sound status
  have notQueued : after ≠ .queued ∧ after ≠ .done false ∧ after ≠ .unknown ∧
      ∀ result, after ≠ .resumed result := by
    rcases moves with ⟨stage,rfl,_⟩ | ⟨rfl,_⟩ <;> simp
  constructor
  case sound => exact ⟨fits,consistent.sound⟩
  case fresh => exact consistent.fresh_cons sets (by simp [status])
  case distinct => exact consistent.distinct
  case found => exact consistent.found_cons sets live
  case nodup => exact consistent.nodup
  case placed =>
    intro b
    by_cases same : b = a
    · subst same
      obtain ⟨old,at_,is⟩ := (consistent.placed b).owned n live
      obtain rfl : record = old := Option.some.inj (there.symm.trans at_)
      have now := statusOf_cons_self s.log sets
      apply Placed.of_record
      · exact live
      · exact called
      constructor
      · exact is.request
      · simpa only [now] using notQueued.2.2.1
      · simpa only [now] using notQueued.2.2.2
      · have unlinked : b ∉ s.queue := fun mem => by simp [is.linked.mp mem] at status
        simpa only [now,notQueued.1,iff_false] using unlinked
      · simp [now,notQueued.1,notQueued.2.1,is.taker t stage status]
      · intro u stage' working
        rw [now] at working
        rcases moves with ⟨_,rfl,_⟩ | ⟨rfl,_⟩
        · cases working
          exact is.taker t stage status
        · cases working
      · simp
      · intro u worker at_
        exact (currentOf_cons_silent silent u).trans (is.current u worker at_)
    · exact (consistent.placed b).frame rfl (elsewhere b same) .rfl
        (fun m there => consistent.status_elsewhere sets live same there)
        fun u at_ => ⟨at_,currentOf_cons_silent silent u⟩
  case atWork =>
    intro u
    by_cases same : u = t
    · subst same
      rcases moves with ⟨stage',rfl,rfl⟩ | ⟨rfl,rfl⟩
      · simp only [AtWork,Function.update_self]
        exact ⟨curWork,live,statusOf_cons_self s.log sets⟩
      · simp only [AtWork,Function.update_self]
        refine ⟨n,(currentOf_cons_silent silent u).trans current,?_⟩
        rw [statusOf_cons_self s.log sets]
        exact .inl rfl
    · apply consistent.atWork_elsewhere sets
      · intro stage' working
        rw [status] at working
        cases working
        exact same rfl
      · intro done
        simp [status,Status.Done] at done
      · exact Function.update_of_ne same ..
      · rfl
      · exact currentOf_cons_silent silent u
      · exact fun _ _ _ _ => rfl
      · rfl
  case flag => exact consistent.flag_cons silent
  case dropped =>
    intro is
    have exited := (consistent.dropped is).2 t
    simp [phase] at exited

/-- A linked work is one of a submission in progress. -/
theorem of_linked (consistent : Consistent s) (linked : a ∈ s.queue) :
    ∃ n record, s.live a = some n ∧ s.works a = some record ∧ Record s a n record ∧
      statusOf s.log n = .queued := by
  cases live : s.live a with
  | none => exact absurd linked ((consistent.placed a).unused live).unlinked
  | some n =>
    obtain ⟨record,there,is⟩ := (consistent.placed a).owned n live
    exact ⟨n,record,rfl,there,is,is.linked.mp linked⟩

/-- A work that was in the list is taken out and completed with `false`. -/
theorem completeFalse (consistent : Consistent s) (linked : a ∈ s.queue) :
    ∃ n next, s.live a = some n ∧
      ThreadPool.completeFalse { s with queue := s.queue.erase a } a = some next ∧
      next = { s with queue := s.queue.erase a, log := .completed n false :: s.log } ∧
      Consistent next := by
  obtain ⟨n,record,live,there,is,status⟩ := consistent.of_linked linked
  have sets : Event.status (.completed n false : Event θ ω) = some (n,.done false) := rfl
  have now := statusOf_cons_self s.log sets
  have silent : Event.current (.completed n false : Event θ ω) = none := rfl
  refine ⟨n,_,live,by simp [ThreadPool.completeFalse,there,is.request],rfl,?_⟩
  constructor
  case sound => exact ⟨status,consistent.sound⟩
  case fresh => exact consistent.fresh_cons sets (by simp [status])
  case distinct => exact consistent.distinct
  case found => exact consistent.found_cons sets live
  case nodup => exact consistent.nodup.erase a
  case placed =>
    intro b
    by_cases same : b = a
    · subst same
      apply Placed.of_record
      · exact live
      · exact there
      constructor
      · exact is.request
      · simp [now]
      · simp [now]
      · simp [now,consistent.nodup.not_mem_erase]
      · simp [now,is.worker,status]
      · simp [now]
      · simp [now]
      · intro u worker at_
        exact (currentOf_cons_silent silent u).trans (is.current u worker at_)
    · exact (consistent.placed b).frame rfl rfl (List.mem_erase_of_ne same)
        (fun m there => consistent.status_elsewhere sets live same there)
        fun u at_ => ⟨at_,currentOf_cons_silent silent u⟩
  case atWork =>
    intro u
    apply consistent.atWork_elsewhere sets
    · simp [status]
    · simp [status,Status.Done]
    · rfl
    · rfl
    · exact currentOf_cons_silent silent u
    · exact fun _ _ _ _ => rfl
    · rfl
  case flag => exact consistent.flag_cons silent
  case dropped =>
    intro is
    simp [(consistent.dropped is).1] at linked

/-- `cancel_all` completes every work of the list, and empties it. -/
theorem cancelList {works : List ω} (consistent : Consistent s) (queue : s.queue = works) :
    ∃ next, ThreadPool.cancelList s works = some next ∧ Consistent next ∧ next.queue = [] ∧
      next.phase = s.phase := by
  induction works generalizing s with
  | nil =>
    have empty : { s with queue := [] } = s := by
      cases s
      simp_all
    exact ⟨s,congrArg some empty,consistent,queue,rfl⟩
  | cons work works ih =>
    obtain ⟨n,next,_,ran,rfl,kept⟩ := consistent.completeFalse (a := work) (by simp [queue])
    have rest : s.queue.erase work = works := by simp [queue]
    rw [rest] at ran kept
    obtain ⟨final,more,final_,empty,phase⟩ := ih kept rfl
    exact ⟨final,by simpa [ThreadPool.cancelList,ran] using more,final_,empty,phase⟩

end Step

end Consistent

end XxCore.ThreadPool
