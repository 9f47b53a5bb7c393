import Mathlib.Tactic.FinCases
import XxCore.ThreadPool.NotifyInvariant

/-! The workers come to rest by themselves, and then every work was completed. -/
namespace XxCore.ThreadPool

open History Transition

variable {θ ω : Type} [DecidableEq θ] [DecidableEq ω] {s next : State θ ω} {a : ω} {t : θ}

/-- The callback of a work that was not called yet. -/
structure Ready (s : State θ ω) : Prop where
  queued : ∀ work ∈ s.queue, ∃ record, s.works work = some record ∧ record.callback = true
  calling : ∀ t work n, s.phase t = .working .calling work n →
    ∃ record, s.works work = some record ∧ record.callback = true

theorem ready_init : Ready (init θ ω) := by
  constructor <;> simp [init]

namespace Ready

/-- No work that was not called yet is concerned. -/
theorem frame (ready : Ready s) (queue : ∀ work ∈ next.queue, work ∈ s.queue)
    (works : next.works = s.works)
    (phase : ∀ t work n, next.phase t = .working .calling work n →
      s.phase t = .working .calling work n) : Ready next := by
  constructor
  · intro work linked
    rw [works]
    exact ready.queued work (queue work linked)
  · intro t work n calling
    rw [works]
    exact ready.calling t work n (phase t work n calling)

/-- A worker goes on to what is no call. -/
theorem move (ready : Ready s) {phase : Phase ω} (queue : ∀ work ∈ next.queue, work ∈ s.queue)
    (works : next.works = s.works) (moved : next.phase = Function.update s.phase t phase)
    (other : ∀ work n, phase ≠ .working .calling work n) : Ready next := by
  apply ready.frame queue works
  intro u work n calling
  rw [moved] at calling
  by_cases at_ : u = t
  · subst at_
    rw [Function.update_self] at calling
    exact absurd calling (other work n)
  · rwa [Function.update_of_ne at_] at calling

/-- What the record at an address becomes. -/
theorem set (ready : Ready s) {record : Work θ} (callback : record.callback = true) :
    Ready { s with works := Function.update s.works a (some record) } := by
  constructor
  · intro work linked
    by_cases same : work = a
    · subst same
      exact ⟨record,Function.update_self ..,callback⟩
    · obtain ⟨old,there,is⟩ := ready.queued work linked
      exact ⟨old,(Function.update_of_ne same ..).trans there,is⟩
  · intro t work n calling
    by_cases same : work = a
    · subst same
      exact ⟨record,Function.update_self ..,callback⟩
    · obtain ⟨old,there,is⟩ := ready.calling t work n calling
      exact ⟨old,(Function.update_of_ne same ..).trans there,is⟩

theorem takeNext (ready : Ready s) (ran : takeNext s t = some next) : Ready next := by
  unfold ThreadPool.takeNext at ran
  split at ran
  · cases ran
    exact ready.move (fun _ => id) rfl rfl (by simp)
  · split at ran
    · cases ran
      exact ready
    next work queue first =>
      simp only [Option.bind_eq_bind,Option.bind_eq_some_iff,Option.some.injEq] at ran
      obtain ⟨record,there,n,_,rfl⟩ := ran
      obtain ⟨record',there',callback⟩ := ready.queued work (by simp [first])
      cases there.symm.trans there'
      have kept : Ready { s with
          works := Function.update s.works work (some { record with worker := some t }) } :=
        ready.set callback
      constructor
      · intro b linked
        exact kept.queued b (by simp [first,linked])
      · intro u b m calling
        by_cases at_ : u = t
        · subst at_
          simp only [Function.update_self,Phase.working.injEq] at calling
          obtain ⟨_,rfl,_⟩ := calling
          exact ⟨_,Function.update_self ..,callback⟩
        · simp only [Function.update_of_ne at_] at calling
          exact kept.calling u b m calling

/-- The work that is called now is in no list and with no other worker. -/
theorem call (ready : Ready s) (consistent : Consistent s) {n : Nat} {record : Work θ} {log : List (Event θ ω)}
    (phase : s.phase t = .working .calling a n) : Ready { s with
      works := Function.update s.works a (some record)
      phase := Function.update s.phase t (.working .running a n)
      log } := by
  have atWork := consistent.atWork t
  simp only [AtWork,phase] at atWork
  obtain ⟨_,live,status⟩ := atWork
  constructor
  · intro work linked
    have other : work ≠ a := by
      rintro rfl
      obtain ⟨m,_,live',_,_,queued⟩ := consistent.of_linked linked
      cases live.symm.trans live'
      simp [status] at queued
    obtain ⟨old,there,is⟩ := ready.queued work linked
    exact ⟨old,(Function.update_of_ne other ..).trans there,is⟩
  · intro u work m calling
    by_cases at_ : u = t
    · subst at_
      simp at calling
    · simp only [Function.update_of_ne at_] at calling
      have other : work ≠ a := by
        rintro rfl
        have atWork := consistent.atWork u
        simp only [AtWork,calling] at atWork
        obtain ⟨_,live',status'⟩ := atWork
        cases live.symm.trans live'
        rw [status] at status'
        cases status'
        exact at_ rfl
      obtain ⟨old,there,is⟩ := ready.calling u work m calling
      exact ⟨old,(Function.update_of_ne other ..).trans there,is⟩

theorem step [Fintype θ] {label : Label θ ω} (ready : Ready s) (consistent : Consistent s)
    (ran : step s label = some next) : Ready next := by
  cases label with
  | newWork work =>
    simp only [ThreadPool.step,Option.ite_none_right_eq_some,Option.some.injEq] at ran
    obtain ⟨_,rfl⟩ := ran
    exact ready.set rfl
  | submit work =>
    simp only [ThreadPool.step] at ran
    split at ran
    next record there =>
      simp only [Option.ite_none_right_eq_some,Option.some.injEq] at ran
      obtain ⟨⟨_,_,callback⟩,rfl⟩ := ran
      have kept : Ready { s with
          works := Function.update s.works work (some { record with request := some s.submissions }) } :=
        ready.set callback
      constructor
      · intro b linked
        rcases List.mem_append.mp linked with old | new
        · exact kept.queued b old
        · rw [List.mem_singleton.mp new]
          exact ⟨_,Function.update_self ..,callback⟩
      · exact kept.calling
    · cases ran
  | lock t =>
    simp only [ThreadPool.step] at ran
    split at ran
    · exact ready.takeNext ran
    · have released : Ready (release s t) := ready.move (fun _ => id) rfl rfl (by simp)
      exact released.takeNext ran
    · cases ran
  | call t =>
    simp only [ThreadPool.step] at ran
    split at ran
    next work n phase =>
      simp only [Option.bind_eq_bind,Option.bind_eq_some_iff,Option.ite_none_right_eq_some,
        Option.some.injEq] at ran
      obtain ⟨record,_,_,rfl⟩ := ran
      exact ready.call consistent phase
    · cases ran
  | observe t =>
    simp only [ThreadPool.step] at ran
    split at ran
    · simp only [Option.ite_none_right_eq_some,Option.some.injEq] at ran
      obtain ⟨_,rfl⟩ := ran
      exact ready.frame (fun _ => id) rfl fun _ _ _ => id
    · cases ran
  | return_ t =>
    simp only [ThreadPool.step] at ran
    split at ran
    · cases ran
      exact ready.move (fun _ => id) rfl rfl (by simp)
    · cases ran
  | complete t =>
    simp only [ThreadPool.step] at ran
    split at ran
    · cases ran
      exact ready.move (fun _ => id) rfl rfl (by simp)
    · cases ran
  | cancelDirect n work =>
    simp only [ThreadPool.step,Option.ite_none_right_eq_some] at ran
    obtain ⟨_,ran⟩ := ran
    unfold ThreadPool.cancelDirect at ran
    split at ran
    · simp only [completeFalse,Option.bind_eq_bind,Option.bind_eq_some_iff,Option.some.injEq] at ran
      obtain ⟨_,_,_,_,rfl⟩ := ran
      exact ready.frame (fun _ => List.mem_of_mem_erase) rfl fun _ _ _ => id
    · simp only [Option.bind_eq_bind,Option.bind_eq_some_iff] at ran
      obtain ⟨_,_,_,_,ran⟩ := ran
      split at ran
      · cases ran
        exact ready.frame (fun _ => id) rfl fun _ _ _ => id
      · cases ran
        exact ready.frame (fun _ => id) rfl fun _ _ _ => id
  | cancelAll =>
    simp only [ThreadPool.step,Option.ite_none_right_eq_some] at ran
    rw [Notify.cancelList_frame ran.2]
    exact ready.frame (by simp) rfl fun _ _ _ => id
  | close =>
    simp only [ThreadPool.step,Option.ite_none_right_eq_some,Option.some.injEq] at ran
    obtain ⟨_,rfl⟩ := ran
    exact ready.frame (fun _ => id) rfl fun _ _ _ => id
  | dropPool =>
    simp only [ThreadPool.step,Option.ite_none_right_eq_some,Option.some.injEq] at ran
    obtain ⟨_,rfl⟩ := ran
    exact ready.frame (fun _ => id) rfl fun _ _ _ => id
  | dropCancel =>
    simp only [ThreadPool.step,Option.ite_none_right_eq_some,Option.bind_eq_bind,
      Option.bind_eq_some_iff,Option.some.injEq] at ran
    obtain ⟨_,final,ran,rfl⟩ := ran
    rw [Notify.cancelList_frame ran]
    exact ready.frame (by simp) rfl fun _ _ _ => id
  | dropQueue =>
    simp only [ThreadPool.step,Option.ite_none_right_eq_some,Option.bind_eq_bind,
      Option.bind_eq_some_iff,Option.some.injEq] at ran
    obtain ⟨_,final,ran,rfl⟩ := ran
    rw [Notify.cancelList_frame ran]
    exact ready.frame (by simp) rfl fun _ _ _ => id
  | resume work result =>
    simp only [ThreadPool.step] at ran
    split at ran
    · simp only [Option.ite_none_right_eq_some,Option.some.injEq] at ran
      obtain ⟨_,rfl⟩ := ran
      exact ready.frame (fun _ => id) rfl fun _ _ _ => id
    · cases ran

end Ready

theorem ready_of_path [Fintype θ] {labels : List (Label θ ω)}
    (path : Path step anyStep (init θ ω) labels s) : Ready s :=
  (path.invariant (fun s => Consistent s ∧ Ready s)
    (fun _ _ _ kept _ ran => ⟨kept.1.step ran,kept.2.step kept.1 ran⟩)
    ⟨consistent_init,ready_init⟩).2

/-- A worker that takes the lock finds whole works in the list. -/
theorem lock_enabled [Fintype θ] (consistent : Consistent s)
    (phase : s.phase t = .locking ∨ s.phase t = .returning) :
    ∃ next, step s (.lock t) = some next := by
  have takes (pool : State θ ω) (queue : pool.queue = s.queue) (works : pool.works = s.works) :
      ∃ next, takeNext pool t = some next := by
    unfold takeNext
    split
    · exact ⟨_,rfl⟩
    · split
      · exact ⟨_,rfl⟩
      next work rest first =>
        obtain ⟨n,record,_,there,is,_⟩ := consistent.of_linked (a := work) (by simp [← queue,first])
        exact ⟨_,by simp [works,there,is.request]; rfl⟩
  rcases phase with locking | returning
  · simpa only [step,locking] using takes s rfl rfl
  · simpa only [step,returning] using takes (release s t) rfl rfl

/-- With no work in the list or at a worker, every submission was completed. -/
theorem completed_of_idle (consistent : Consistent s) (empty : s.queue = [])
    (idle : ∀ t, s.phase t = .locking ∨ s.phase t = .exited) {n : Nat}
    (submitted : .submitted n a ∈ s.log) : ∃ result, .completed n result ∈ s.log := by
  cases status : statusOf s.log n with
  | unknown => exact absurd status (known_of_submitted submitted)
  | queued =>
    obtain ⟨b,live⟩ := consistent.found n (by simp [status]) (by simp [status])
    obtain ⟨record,_,is⟩ := (consistent.placed b).owned n live
    have linked := is.linked.mpr status
    simp [empty] at linked
  | working t stage =>
    have current := current_of_working consistent.sound status
    have atWork := consistent.atWork t
    rcases idle t with phase | phase
    · simp [AtWork,phase,current] at atWork
    · simp [AtWork,phase,current] at atWork
  | done result => exact ⟨result,(completed_iff consistent.sound n result).mpr (.inl status)⟩
  | resumed result => exact ⟨result,(completed_iff consistent.sound n result).mpr (.inr status)⟩

end XxCore.ThreadPool

namespace XxCore.ThreadPool.Notify

open History Transition Roster

variable {θ ω : Type} [DecidableEq θ] [DecidableEq ω] [Fintype θ] {s next : State θ ω} {t : θ}
  {threads : Nat}

/-- The pool takes the steps of the pool, and the condition variable adds none to them. -/
theorem pool_of_step {label : Label θ ω} (ran : step s label = some next) :
    (∀ inner, label.pool = some inner → ThreadPool.step s.pool inner = some next.pool) ∧
      (label.pool = none → next.pool = s.pool) := by
  cases label with
  | submit work wakes =>
    simp only [step,Option.bind_eq_bind,Option.bind_eq_some_iff] at ran
    obtain ⟨pool,submitted,ran⟩ := ran
    have same : next.pool = pool := by
      unfold submitNotify at ran
      split at ran
      · cases wakes with
        | none =>
          simp only [notifyOne,Option.ite_none_right_eq_some,Option.some.injEq] at ran
          rw [← ran.2]
        | some t =>
          simp only [notifyOne,Option.ite_none_right_eq_some,Option.some.injEq] at ran
          rw [← ran.2]
          rfl
      · simp only [Option.ite_none_right_eq_some,Option.some.injEq] at ran
        rw [← ran.2]
    simp [Label.pool,submitted,same]
  | lock t =>
    simp only [step,lock,Option.ite_none_left_eq_some,Option.bind_eq_bind,
      Option.bind_eq_some_iff] at ran
    obtain ⟨_,pool,inner,ran⟩ := ran
    split at ran
    · cases ran
      simp [Label.pool,inner]
    · cases ran
      simp [Label.pool,inner]
  | spurious t =>
    simp only [step,Option.ite_none_right_eq_some,Option.some.injEq] at ran
    obtain ⟨_,rfl⟩ := ran
    simp [Label.pool,wake]
  | closeCancel =>
    simp only [step,Option.ite_none_left_eq_some,Option.bind_eq_bind,Option.bind_eq_some_iff,
      Option.some.injEq] at ran
    obtain ⟨_,pool,inner,rfl⟩ := ran
    simp [Label.pool,inner,notifyAll]
  | dropPool =>
    simp only [step,Option.ite_none_right_eq_some,Option.bind_eq_bind,Option.bind_eq_some_iff,
      Option.some.injEq] at ran
    obtain ⟨_,pool,inner,rfl⟩ := ran
    simp [Label.pool,inner]
  | cancelAll =>
    simp only [step,Option.bind_eq_bind,Option.bind_eq_some_iff,Option.some.injEq] at ran
    obtain ⟨pool,inner,rfl⟩ := ran
    simp [Label.pool,inner,notifyAll]
  | close =>
    simp only [step,Option.bind_eq_bind,Option.bind_eq_some_iff,Option.some.injEq] at ran
    obtain ⟨pool,inner,rfl⟩ := ran
    simp [Label.pool,inner]
  | dropCancel =>
    simp only [step,Option.bind_eq_bind,Option.bind_eq_some_iff,Option.some.injEq] at ran
    obtain ⟨pool,inner,rfl⟩ := ran
    simp [Label.pool,inner,notifyAll]
  | _ =>
    simp only [step,Label.pool,Option.bind_eq_bind,Option.bind_eq_some_iff,Option.some.injEq] at ran
    obtain ⟨inner,rfl,pool,ran,rfl⟩ := ran
    simp [Label.pool,ran]

theorem plain_of_step {label : Label θ ω} {inner : ThreadPool.Label θ ω} (plain : label.Plain)
    (is : label.pool = some inner) (ran : step s label = some next) :
    ∃ pool, ThreadPool.step s.pool inner = some pool ∧ next = { s with pool } := by
  have all : label.pool.bind (fun inner => (ThreadPool.step s.pool inner).bind
      fun pool => some { s with pool }) = some next := by
    cases label with
    | submit | lock | spurious | cancelAll | close | closeCancel | dropPool | dropCancel =>
      simp [Label.Plain] at plain
    | _ => exact ran
  simp only [is,Option.bind_some,Option.bind_eq_some_iff,Option.some.injEq] at all
  obtain ⟨pool,stepped,rfl⟩ := all
  exact ⟨pool,stepped,rfl⟩

theorem path_pool {allowed : State θ ω → Label θ ω → Prop} {labels : List (Label θ ω)}
    (path : Path step allowed s labels next) :
    Path ThreadPool.step anyStep s.pool (labels.filterMap Label.pool) next.pool :=
  path.project State.pool Label.pool
    (fun _ _ _ inner _ ran is => (pool_of_step ran).1 inner is)
    (fun _ _ _ _ ran is => (pool_of_step ran).2 is)

/-- What holds in every state of the pool with its condition variable. -/
structure Sane (threads : Nat) (s : State θ ω) : Prop where
  staffed : Staffed threads s
  consistent : Consistent s.pool
  ready : Ready s.pool

variable (fit : Fintype.card θ ≤ threads) (small : threads < 2^64)

include fit small in
theorem sane_of_path {labels : List (Label θ ω)}
    (path : Path step anyStep (init θ ω threads) labels s) : Sane threads s := by
  have pool := path_pool path
  constructor
  · exact path.invariant (Staffed threads) (fun _ _ _ staffed _ ran => staffed.step fit small ran)
      staffed_init
  · exact consistent_of_path pool
  · exact ready_of_path pool

/-- A worker that does not wait goes on. -/
theorem turn_enabled (sane : Sane threads s) (awake : s.rest t ≠ .waiting)
    (running : s.pool.phase t ≠ .exited) :
    ∃ label : Label θ ω, label.turn = some t ∧ step s label ≠ none := by
  have locks (place : s.pool.phase t = .locking ∨ s.pool.phase t = .returning) :
      step s (.lock t) ≠ none := by
    obtain ⟨pool,inner⟩ := lock_enabled sane.consistent place
    simp only [Notify.step,lock,awake,↓reduceIte,inner,Option.bind_eq_bind,Option.bind_some]
    split <;> simp
  cases phase : s.pool.phase t with
  | locking => exact ⟨.lock t,rfl,locks (.inl phase)⟩
  | returning => exact ⟨.lock t,rfl,locks (.inr phase)⟩
  | exited => exact absurd phase running
  | working stage work n =>
    cases stage with
    | calling =>
      obtain ⟨record,there,callback⟩ := sane.ready.calling t work n phase
      refine ⟨.call t,rfl,?_⟩
      simp [Notify.step,Label.pool,ThreadPool.step,phase,there,callback]
    | running =>
      refine ⟨.return_ t,rfl,?_⟩
      simp [Notify.step,Label.pool,ThreadPool.step,phase]
    | returned =>
      refine ⟨.complete t,rfl,?_⟩
      simp [Notify.step,Label.pool,ThreadPool.step,phase]

/-- How many steps a worker takes until it waits or takes a work. -/
def rank (rest : Rest) : Phase ω → Nat
  | .locking => if rest = .waiting then 0 else 1
  | .working .calling .. => 4
  | .working .running .. => 3
  | .working .returned .. => 2
  | .returning => 1
  | .exited => 0

def State.backlog (s : State θ ω) : Nat :=
  4 * s.pool.queue.length + total fun t => rank (s.rest t) (s.pool.phase t)

theorem rank_le (rest : Rest) (phase : Phase ω) : rank rest phase ≤ 4 := by
  cases phase with
  | working stage => cases stage <;> simp [rank]
  | locking =>
    simp only [rank]
    split <;> omega
  | _ => simp [rank]

theorem backlog_le (s : State θ ω) :
    s.backlog ≤ 4 * (s.pool.queue.length + Fintype.card θ) := by
  have le := total_le fun t : θ => rank_le (s.rest t) (s.pool.phase t)
  unfold State.backlog
  omega

/-- One worker moves, and may take a work. -/
theorem backlog_move (rest : ∀ u, u ≠ t → next.rest u = s.rest u)
    (phase : ∀ u, u ≠ t → next.pool.phase u = s.pool.phase u)
    (less : 4 * next.pool.queue.length + rank (next.rest t) (next.pool.phase t) <
      4 * s.pool.queue.length + rank (s.rest t) (s.pool.phase t)) : next.backlog < s.backlog := by
  have moved : (total fun t => rank (next.rest t) (next.pool.phase t)) +
      rank (s.rest t) (s.pool.phase t) =
        (total fun t => rank (s.rest t) (s.pool.phase t)) +
          rank (next.rest t) (next.pool.phase t) := by
    apply total_move t
    intro u other
    rw [rest u other,phase u other]
  unfold State.backlog
  omega

/-- Every step of a worker by itself leaves it with less to do. -/
theorem turn_descends {label : Label θ ω} (turn : label.turn = some t)
    (ran : step s label = some next) : next.backlog < s.backlog := by
  cases label with
  | lock u =>
    cases turn
    have one (awake : s.rest t ≠ .waiting) (before : s.pool.phase t = .locking ∨ s.pool.phase t = .returning) :
        rank (s.rest t) (s.pool.phase t) = 1 := by
      rcases before with locking | returning
      · simp [rank,locking,awake]
      · simp [rank,returning]
    cases step_cases ran with
    | rested awake inner open_ empty =>
      obtain ⟨before,turn⟩ := turn_of_lock inner
      apply backlog_move (t := t)
      · exact fun u other => Function.update_of_ne other ..
      · exact turn.others
      · rw [one awake before]
        rcases turn.went with ⟨closed,_⟩ | ⟨_,_,none_,phase⟩ | ⟨_,work,n,first,_⟩
        · simp [closed] at open_
        · simp [none_,phase,rank]
        · simp [first] at empty
    | went awake inner work =>
      obtain ⟨before,turn⟩ := turn_of_lock inner
      apply backlog_move (t := t)
      · exact fun u other => Function.update_of_ne other ..
      · exact turn.others
      · rw [one awake before]
        rcases turn.went with ⟨_,queue,phase⟩ | ⟨open_,empty,_⟩ | ⟨_,work,n,first,phase⟩
        · simp [queue,phase,rank]
        · simp [open_,empty] at work
        · simp only [first,phase,rank,List.length_cons]
          omega
    | aside plain => simp [Label.Plain] at plain
  | call u =>
    cases turn
    obtain ⟨pool,inner,rfl⟩ := plain_of_step (by trivial) rfl ran
    simp only [ThreadPool.step] at inner
    split at inner
    next work n phase =>
      simp only [Option.bind_eq_bind,Option.bind_eq_some_iff,Option.ite_none_right_eq_some,
        Option.some.injEq] at inner
      obtain ⟨record,_,_,rfl⟩ := inner
      apply backlog_move (t := t)
      · exact fun _ _ => rfl
      · exact fun u other => Function.update_of_ne other ..
      · simp [phase,rank]
    · cases inner
  | return_ u =>
    cases turn
    obtain ⟨pool,inner,rfl⟩ := plain_of_step (by trivial) rfl ran
    simp only [ThreadPool.step] at inner
    split at inner
    next work n phase =>
      cases inner
      apply backlog_move (t := t)
      · exact fun _ _ => rfl
      · exact fun u other => Function.update_of_ne other ..
      · simp [phase,rank]
    · cases inner
  | complete u =>
    cases turn
    obtain ⟨pool,inner,rfl⟩ := plain_of_step (by trivial) rfl ran
    simp only [ThreadPool.step] at inner
    split at inner
    next work n phase =>
      cases inner
      apply backlog_move (t := t)
      · exact fun _ _ => rfl
      · exact fun u other => Function.update_of_ne other ..
      · simp [phase,rank]
    · cases inner
  | _ => simp [Label.turn] at turn

include fit small in
/-- However the submitters, the cancellers and the workers interleave, and whichever worker each
notification wakes: `idle_count` is exactly how many workers are idle, so that a submission
notifies whenever a worker waits. A worker waits only while the works in the queue are no more than
the workers that are on their way to the lock, and it does not miss that the pool was closed. -/
theorem waiting_workers {labels : List (Label θ ω)}
    (path : Path step anyStep (init θ ω threads) labels s) :
    s.idleCount + Fintype.card θ = threads + s.idle ∧
      ∀ t, s.rest t = .waiting → s.idleCount ≠ 0 ∧
        (s.pool.closed = false → s.pool.queue.length ≤ s.coming) ∧
        (s.pool.closed = true → s.closers ≠ 0 ∨ s.pool.pool = .closing) := by
  have staffed := (sane_of_path fit small path).staffed
  refine ⟨staffed.count,fun t waiting => ⟨?_,staffed.enough t waiting,staffed.closing t waiting⟩⟩
  have counted := staffed.counted (t := t) fit (by simp [waiting,Rest.idle])
  omega

/-- A worker waits while another is notified of a work. -/
theorem waiting_workers_one : ∃ s : State (Fin 2) Nat,
    Path step anyStep (init (Fin 2) Nat 2) [.lock 0,.lock 1,.newWork 0,.submit 0 (some 1)] s ∧
    s.rest 0 = .waiting ∧ s.idleCount ≠ 0 ∧ s.pool.queue.length ≤ s.coming := by
  have run : ∃ s : State (Fin 2) Nat,
      Path step anyStep (init (Fin 2) Nat 2) [.lock 0,.lock 1,.newWork 0,.submit 0 (some 1)] s ∧
      s.rest 0 = .waiting ∧ s.pool.closed = false :=
    ⟨_,run_path (fun _ _ _ => trivial) rfl,rfl,rfl⟩
  obtain ⟨s,path,waiting,open_⟩ := run
  obtain ⟨_,waits⟩ := waiting_workers (by decide) (by decide) path
  obtain ⟨some_,enough,_⟩ := waits 0 waiting
  exact ⟨s,path,waiting,some_,enough open_⟩

/-- No worker can go on by itself, and no call that closes the pool is under way. -/
structure Settled (s : State θ ω) : Prop where
  turns : ∀ label : Label θ ω, label.turn ≠ none → step s label = none
  closers : s.closers = 0
  pool : s.pool.pool ≠ .closing

include fit small in
theorem settled_of_sane (sane : Sane threads s) (settled : Settled s) :
    (s.pool.closed = true → ∀ t, s.pool.phase t = .exited) ∧
      (s.pool.closed = false → (∀ t, s.rest t = .waiting) ∧ (Nonempty θ → s.pool.queue = [])) := by
  have rests (t : θ) : s.rest t = .waiting ∨ s.pool.phase t = .exited := by
    by_cases waiting : s.rest t = .waiting
    · exact .inl waiting
    · by_cases exited : s.pool.phase t = .exited
      · exact .inr exited
      · obtain ⟨label,turn,enabled⟩ := turn_enabled sane waiting exited
        exact absurd (settled.turns label (by simp [turn])) enabled
  constructor
  · intro closed t
    refine (rests t).resolve_left fun waiting => ?_
    rcases sane.staffed.closing t waiting closed with closers | closing
    · exact closers settled.closers
    · exact settled.pool closing
  · intro open_
    have waiting (t : θ) : s.rest t = .waiting := by
      refine (rests t).resolve_right fun exited => ?_
      simp [sane.staffed.exited t exited] at open_
    refine ⟨waiting,?_⟩
    rintro ⟨t⟩
    have enough := sane.staffed.enough t (waiting t) open_
    have nobody : s.coming = 0 := total_zero fun u => by rw [waiting u]; rfl
    exact List.eq_nil_of_length_eq_zero (by omega)

include fit small in
/-- Left to themselves the workers settle: from any state that is reached they can take no more
than so many steps. Where they can take no further one, either the pool is closed and all have
left, or every submission there was has been completed and all wait for another. -/
theorem workers_settle {labels : List (Label θ ω)}
    (path : Path step anyStep (init θ ω threads) labels s) :
    (∀ turns final, Path step (fun _ label => label.turn ≠ none) s turns final →
      turns.length ≤ 4 * (s.pool.queue.length + Fintype.card θ)) ∧
    (Settled s → if s.pool.closed then ∀ t, s.pool.phase t = .exited
      else (∀ t, s.rest t = .waiting) ∧ (Nonempty θ → ∀ n work,
        .submitted n work ∈ s.pool.log → ∃ result, .completed n result ∈ s.pool.log)) := by
  have sane := sane_of_path fit small path
  constructor
  · intro turns final turned
    have bound := turned.descends (fun _ => True) State.backlog (by
      intro s label next _ turn ran
      obtain ⟨t,is⟩ := Option.ne_none_iff_exists'.mp turn
      exact ⟨trivial,turn_descends is ran⟩) trivial
    have le := backlog_le s
    omega
  · intro settled
    obtain ⟨left,waits⟩ := settled_of_sane fit small sane settled
    split
    next closed => exact left closed
    next open_ =>
      rw [Bool.not_eq_true] at open_
      obtain ⟨waiting,empty⟩ := waits open_
      refine ⟨waiting,fun some_ n work submitted => ?_⟩
      apply completed_of_idle sane.consistent (empty some_)
      · intro t
        have busy := sane.staffed.busy t
        rw [waiting t] at busy
        exact .inl (by simpa using busy)
      · exact submitted

/-- Two workers wait, one is notified of a work and waits again after it. -/
theorem workers_settle_twice : ∃ s : State (Fin 2) Nat,
    Path step anyStep (init (Fin 2) Nat 2)
      [.lock 0,.lock 1,.newWork 0,.submit 0 (some 1),.lock 1,.call 1,.return_ 1,.complete 1,.lock 1]
      s ∧ s.idleCount = 2 ∧ (∀ t, s.rest t = .waiting) ∧
    ∃ result, .completed 0 result ∈ s.pool.log := by
  have run : ∃ s : State (Fin 2) Nat,
      Path step anyStep (init (Fin 2) Nat 2)
        [.lock 0,.lock 1,.newWork 0,.submit 0 (some 1),.lock 1,.call 1,.return_ 1,.complete 1,
          .lock 1] s ∧
      s.pool.closed = false ∧ s.idleCount = 2 ∧ .submitted 0 0 ∈ s.pool.log ∧ Settled s := by
    refine ⟨_,run_path (fun _ _ _ => trivial) rfl,rfl,rfl,by decide,?_,rfl,by decide⟩
    intro label turn
    cases label with
    | lock t => fin_cases t <;> rfl
    | call t => fin_cases t <;> rfl
    | return_ t => fin_cases t <;> rfl
    | complete t => fin_cases t <;> rfl
    | _ => simp [Label.turn] at turn
  obtain ⟨s,path,open_,count,submitted,settled⟩ := run
  obtain ⟨_,settles⟩ := workers_settle (by decide) (by decide) path
  have rest := settles settled
  simp only [open_,Bool.false_eq_true,↓reduceIte] at rest
  exact ⟨s,path,count,rest.1,rest.2 ⟨0⟩ 0 0 submitted⟩

end XxCore.ThreadPool.Notify
