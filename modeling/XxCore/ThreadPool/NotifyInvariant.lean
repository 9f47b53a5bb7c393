import XxCore.ThreadPool.Notify
import XxCore.ThreadPool.PoolSteps

/-! No work is left in the queue for a worker that waits: those that were notified and have not
come yet are enough for it. -/
namespace XxCore.ThreadPool.Notify

open History Transition Roster

variable {θ ω : Type} [DecidableEq θ] [DecidableEq ω] {s next : State θ ω} {t : θ} {threads : Nat}

/-- Besides the queue, a `cancel_all` changes the log alone. -/
theorem cancelList_frame {pool after : ThreadPool.State θ ω} {works : List ω}
    (ran : cancelList pool works = some after) :
    after = { pool with queue := [], log := after.log } := by
  induction works generalizing pool with
  | nil =>
    cases ran
    rfl
  | cons work works ih =>
    simp only [cancelList,completeFalse,Option.bind_eq_bind,Option.bind_eq_some_iff,
      Option.some.injEq] at ran
    obtain ⟨_,⟨record,there,n,request,rfl⟩,ran⟩ := ran
    have rest := ih ran
    exact rest

/-- What a step of the pool leaves alone that is about no lock section of a worker, no submission
and no `cancel_all`. -/
structure Aside (pool after : ThreadPool.State θ ω) : Prop where
  queue : after.queue.length ≤ pool.queue.length
  closed : after.closed = pool.closed
  closing : after.pool = .closing ↔ pool.pool = .closing
  shared : pool.pool = .shared → after.pool = .shared
  locking : ∀ t, after.phase t = .locking ↔ pool.phase t = .locking
  exited : ∀ t, after.phase t = .exited ↔ pool.phase t = .exited

theorem Aside.of_same {pool after : ThreadPool.State θ ω} (queue : after.queue = pool.queue)
    (closed : after.closed = pool.closed) (same : after.pool = pool.pool)
    (phase : after.phase = pool.phase) : Aside pool after := by
  constructor <;> simp [queue,closed,same,phase]

theorem Aside.of_phase {pool after : ThreadPool.State θ ω} {phase : Phase ω} (queue : after.queue = pool.queue)
    (closed : after.closed = pool.closed) (same : after.pool = pool.pool)
    (moved : after.phase = Function.update pool.phase t phase)
    (before : pool.phase t ≠ .locking ∧ pool.phase t ≠ .exited)
    (later : phase ≠ .locking ∧ phase ≠ .exited) : Aside pool after := by
  constructor
  · simp [queue]
  · exact closed
  · simp [same]
  · simp [same]
  · intro u
    rw [moved]
    by_cases at_ : u = t
    · subst at_
      simp [before,later]
    · rw [Function.update_of_ne at_]
  · intro u
    rw [moved]
    by_cases at_ : u = t
    · subst at_
      simp [before,later]
    · rw [Function.update_of_ne at_]

/-- The steps that concern neither the count nor the condition variable. -/
def Label.Plain : Label θ ω → Prop
  | .newWork _ | .call _ | .observe _ | .return_ _ | .complete _ | .cancelDirect .. | .dropQueue
  | .resume .. => True
  | _ => False

variable [Fintype θ]

theorem aside_of_step {label : Label θ ω} {inner : ThreadPool.Label θ ω}
    {after : ThreadPool.State θ ω} (plain : label.Plain) (is : label.pool = some inner)
    (ran : ThreadPool.step s.pool inner = some after) : Aside s.pool after := by
  cases label with
  | newWork work =>
    cases is
    simp only [ThreadPool.step,Option.ite_none_right_eq_some,Option.some.injEq] at ran
    obtain ⟨_,rfl⟩ := ran
    exact .of_same rfl rfl rfl rfl
  | call t =>
    cases is
    simp only [ThreadPool.step] at ran
    split at ran
    next work n phase =>
      simp only [Option.bind_eq_bind,Option.bind_eq_some_iff,Option.ite_none_right_eq_some,
        Option.some.injEq] at ran
      obtain ⟨record,_,_,rfl⟩ := ran
      exact .of_phase rfl rfl rfl rfl (by simp [phase]) (by simp)
    · cases ran
  | observe t =>
    cases is
    simp only [ThreadPool.step] at ran
    split at ran
    · simp only [Option.ite_none_right_eq_some,Option.some.injEq] at ran
      obtain ⟨_,rfl⟩ := ran
      exact .of_same rfl rfl rfl rfl
    · cases ran
  | return_ t =>
    cases is
    simp only [ThreadPool.step] at ran
    split at ran
    next work n phase =>
      cases ran
      exact .of_phase rfl rfl rfl rfl (by simp [phase]) (by simp)
    · cases ran
  | complete t =>
    cases is
    simp only [ThreadPool.step] at ran
    split at ran
    next work n phase =>
      cases ran
      exact .of_phase rfl rfl rfl rfl (by simp [phase]) (by simp)
    · cases ran
  | cancelDirect n work =>
    cases is
    simp only [ThreadPool.step,Option.ite_none_right_eq_some] at ran
    obtain ⟨_,ran⟩ := ran
    unfold ThreadPool.cancelDirect at ran
    split at ran
    · simp only [completeFalse,Option.bind_eq_bind,Option.bind_eq_some_iff,
        Option.some.injEq] at ran
      obtain ⟨record,_,m,_,rfl⟩ := ran
      constructor <;> simp [List.length_erase_le]
    · simp only [Option.bind_eq_bind,Option.bind_eq_some_iff] at ran
      obtain ⟨record,_,worker,_,ran⟩ := ran
      split at ran
      · cases ran
        exact .of_same rfl rfl rfl rfl
      · cases ran
        exact .of_same rfl rfl rfl rfl
  | dropQueue =>
    cases is
    simp only [ThreadPool.step,Option.ite_none_right_eq_some,Option.bind_eq_bind,
      Option.bind_eq_some_iff,Option.some.injEq] at ran
    obtain ⟨⟨dropped,_⟩,final,ran,rfl⟩ := ran
    rw [cancelList_frame ran]
    constructor <;> simp [dropped]
  | resume work result =>
    cases is
    simp only [ThreadPool.step] at ran
    split at ran
    · simp only [Option.ite_none_right_eq_some,Option.some.injEq] at ran
      obtain ⟨_,rfl⟩ := ran
      exact .of_same rfl rfl rfl rfl
    · cases ran
  | _ => simp [Label.Plain] at plain

/-- What each step does. -/
inductive Step (s : State θ ω) : Label θ ω → State θ ω → Prop where
  | unheard {work : ω} {record : Work θ} :
    s.idleCount = 0 ∨ (∀ t, s.rest t ≠ .waiting) →
    Step s (.submit work none) { s with pool := submitDirect s.pool work record }
  | heard {work : ω} {record : Work θ} {t : θ} : s.rest t = .waiting →
    Step s (.submit work (some t)) (wake { s with pool := submitDirect s.pool work record } t)
  /-- a worker with nothing to do -/
  | rested {t : θ} {pool : ThreadPool.State θ ω} : s.rest t ≠ .waiting →
    ThreadPool.step s.pool (.lock t) = some pool → s.pool.closed = false → s.pool.queue = [] →
    Step s (.lock t) { s with
      pool
      idleCount := fetchAdd (if s.rest t = .busy then s.idleCount else fetchSub s.idleCount)
      rest := Function.update s.rest t .waiting }
  | went {t : θ} {pool : ThreadPool.State θ ω} : s.rest t ≠ .waiting →
    ThreadPool.step s.pool (.lock t) = some pool → (s.pool.closed = true ∨ s.pool.queue ≠ []) →
    Step s (.lock t) { s with
      pool
      idleCount := if s.rest t = .busy then s.idleCount else fetchSub s.idleCount
      rest := Function.update s.rest t .busy }
  | spurious {t : θ} : s.rest t = .waiting → Step s (.spurious t) (wake s t)
  | cancelAll {log : List (Event θ ω)} : s.pool.pool = .shared →
    Step s .cancelAll (notifyAll { s with pool := { s.pool with queue := [], log } })
  | close : s.pool.pool = .shared →
    Step s .close { s with pool := { s.pool with closed := true }, closers := s.closers + 1 }
  | closeCancel {log : List (Event θ ω)} : s.pool.pool = .shared → s.closers ≠ 0 →
    Step s .closeCancel (notifyAll { s with
      pool := { s.pool with queue := [], log }
      closers := s.closers - 1 })
  | dropPool : s.closers = 0 →
    Step s .dropPool { s with pool := { s.pool with closed := true, pool := .closing } }
  | dropCancel {log : List (Event θ ω)} : s.pool.pool = .closing →
    Step s .dropCancel
      (notifyAll { s with pool := { s.pool with queue := [], log, pool := .dropped } })
  | aside {label : Label θ ω} {pool : ThreadPool.State θ ω} : label.Plain →
    Aside s.pool pool → Step s label { s with pool }

theorem step_cases {label : Label θ ω} (ran : step s label = some next) : Step s label next := by
  cases label with
  | submit work wakes =>
    simp only [step,Option.bind_eq_bind,Option.bind_eq_some_iff] at ran
    obtain ⟨pool,submitted,ran⟩ := ran
    simp only [ThreadPool.step] at submitted
    split at submitted
    next record _ =>
      simp only [Option.ite_none_right_eq_some,Option.some.injEq] at submitted
      obtain ⟨_,rfl⟩ := submitted
      simp only [submitNotify,ite_not] at ran
      split at ran
      next none_ =>
        simp only [Option.ite_none_right_eq_some,Option.some.injEq] at ran
        obtain ⟨rfl,rfl⟩ := ran
        exact .unheard (.inl none_)
      · cases wakes with
        | none =>
          simp only [notifyOne,Option.ite_none_right_eq_some,Option.some.injEq] at ran
          obtain ⟨nobody,rfl⟩ := ran
          exact .unheard (.inr nobody)
        | some t =>
          simp only [notifyOne,Option.ite_none_right_eq_some,Option.some.injEq] at ran
          obtain ⟨waiting,rfl⟩ := ran
          exact .heard waiting
    · cases submitted
  | lock t =>
    simp only [step,lock,Option.ite_none_left_eq_some,Option.bind_eq_bind,
      Option.bind_eq_some_iff] at ran
    obtain ⟨awake,pool,inner,ran⟩ := ran
    split at ran
    next empty =>
      cases ran
      exact .rested awake inner empty.1 empty.2
    next work =>
      cases ran
      refine .went awake inner ?_
      cases closed : s.pool.closed with
      | true => exact .inl rfl
      | false => exact .inr fun empty => work ⟨closed,empty⟩
  | spurious t =>
    simp only [step,Option.ite_none_right_eq_some,Option.some.injEq] at ran
    obtain ⟨waiting,rfl⟩ := ran
    exact .spurious waiting
  | cancelAll =>
    simp only [step,ThreadPool.step,Option.bind_eq_bind,Option.bind_eq_some_iff,
      Option.ite_none_right_eq_some,Option.some.injEq] at ran
    obtain ⟨pool,⟨shared,ran⟩,rfl⟩ := ran
    rw [cancelList_frame ran]
    exact .cancelAll shared
  | close =>
    simp only [step,ThreadPool.step,Option.bind_eq_bind,Option.bind_eq_some_iff,
      Option.ite_none_right_eq_some,Option.some.injEq] at ran
    obtain ⟨_,⟨shared,rfl⟩,rfl⟩ := ran
    exact .close shared
  | closeCancel =>
    simp only [step,ThreadPool.step,Option.bind_eq_bind,Option.ite_none_left_eq_some,
      Option.bind_eq_some_iff,Option.ite_none_right_eq_some,Option.some.injEq] at ran
    obtain ⟨some_,pool,⟨shared,ran⟩,rfl⟩ := ran
    rw [cancelList_frame ran]
    exact .closeCancel shared some_
  | dropPool =>
    simp only [step,ThreadPool.step,Option.bind_eq_bind,Option.bind_eq_some_iff,
      Option.ite_none_right_eq_some,Option.some.injEq] at ran
    obtain ⟨none_,_,⟨_,rfl⟩,rfl⟩ := ran
    exact .dropPool none_
  | dropCancel =>
    simp only [step,ThreadPool.step,Option.bind_eq_bind,Option.bind_eq_some_iff,
      Option.ite_none_right_eq_some,Option.some.injEq] at ran
    obtain ⟨_,⟨closing,pool,ran,rfl⟩,rfl⟩ := ran
    rw [cancelList_frame ran]
    exact .dropCancel closing
  | _ =>
    simp only [step,Option.bind_eq_bind,Option.bind_eq_some_iff,Option.some.injEq] at ran
    obtain ⟨inner,is,pool,ran,rfl⟩ := ran
    refine .aside trivial (aside_of_step ?_ is ran)
    trivial

/-- The lock section of the worker `t`. -/
structure Turn (pool : ThreadPool.State θ ω) (t : θ) (after : ThreadPool.State θ ω) : Prop where
  others : ∀ u, u ≠ t → after.phase u = pool.phase u
  closed : after.closed = pool.closed
  same : after.pool = pool.pool
  went : pool.closed = true ∧ after.queue = pool.queue ∧ after.phase t = .exited ∨
    pool.closed = false ∧ pool.queue = [] ∧ after.queue = [] ∧ after.phase t = .locking ∨
    pool.closed = false ∧ ∃ work n, pool.queue = work :: after.queue ∧
      after.phase t = .working .calling work n

theorem turn_of_takeNext {pool after : ThreadPool.State θ ω} (locking : pool.phase t = .locking)
    (ran : takeNext pool t = some after) : Turn pool t after := by
  unfold takeNext at ran
  split at ran
  next closed =>
    cases ran
    constructor
    · exact fun u other => Function.update_of_ne other ..
    · rfl
    · rfl
    · exact .inl ⟨closed,rfl,Function.update_self ..⟩
  next open_ =>
    rw [Bool.not_eq_true] at open_
    split at ran
    next empty =>
      cases ran
      constructor
      · exact fun _ _ => rfl
      · rfl
      · rfl
      · exact .inr (.inl ⟨open_,empty,empty,locking⟩)
    next work queue first =>
      simp only [Option.bind_eq_bind,Option.bind_eq_some_iff,Option.some.injEq] at ran
      obtain ⟨record,_,n,_,rfl⟩ := ran
      constructor
      · exact fun u other => Function.update_of_ne other ..
      · rfl
      · rfl
      · exact .inr (.inr ⟨open_,work,n,first,Function.update_self ..⟩)

theorem turn_of_lock {pool after : ThreadPool.State θ ω}
    (ran : ThreadPool.step pool (.lock t) = some after) :
    (pool.phase t = .locking ∨ pool.phase t = .returning) ∧ Turn pool t after := by
  simp only [ThreadPool.step] at ran
  split at ran
  next locking => exact ⟨.inl locking,turn_of_takeNext locking ran⟩
  next returning =>
    have turn := turn_of_takeNext (Function.update_self ..) ran
    refine ⟨.inr returning,?_⟩
    constructor
    · exact fun u other => (turn.others u other).trans (Function.update_of_ne other ..)
    · exact turn.closed
    · exact turn.same
    · exact turn.went
  · cases ran

/-- How many workers `idle_count` should have, and how many take the lock next. -/
def State.idle (s : State θ ω) : Nat := total fun t => (s.rest t).idle.toNat

def State.coming (s : State θ ω) : Nat := total fun t => (s.rest t).coming.toNat

/-- What holds between the lock sections. -/
structure Staffed (threads : Nat) (s : State θ ω) : Prop where
  count : s.idleCount + Fintype.card θ = threads + s.idle
  enough : ∀ t, s.rest t = .waiting → s.pool.closed = false → s.pool.queue.length ≤ s.coming
  closing : ∀ t, s.rest t = .waiting → s.pool.closed = true →
    s.closers ≠ 0 ∨ s.pool.pool = .closing
  busy : ∀ t, s.rest t = .busy ↔ s.pool.phase t ≠ .locking
  exited : ∀ t, s.pool.phase t = .exited → s.pool.closed = true
  borrowed : s.closers ≠ 0 → s.pool.pool = .shared

theorem staffed_init : Staffed threads (init θ ω threads) := by
  constructor
  · simp [init,State.idle,Rest.idle,total_const]
  all_goals simp [init,ThreadPool.init]

/-- What a worker weighs before and after it moves alone. -/
theorem idle_move (t : θ) {before after : State θ ω}
    (others : ∀ u, u ≠ t → after.rest u = before.rest u) :
    after.idle + (before.rest t).idle.toNat = before.idle + (after.rest t).idle.toNat := by
  unfold State.idle
  apply total_move t
  intro u other
  rw [others u other]

theorem coming_move (t : θ) {before after : State θ ω}
    (others : ∀ u, u ≠ t → after.rest u = before.rest u) :
    after.coming + (before.rest t).coming.toNat = before.coming + (after.rest t).coming.toNat := by
  unfold State.coming
  apply total_move t
  intro u other
  rw [others u other]

theorem idle_le (s : State θ ω) : s.idle ≤ Fintype.card θ := by
  unfold State.idle
  rw [← Nat.one_mul (Fintype.card θ)]
  exact total_le fun t => Bool.toNat_le _

/-- A worker that is not counted makes room. -/
theorem idle_lt (s : State θ ω) (t : θ) :
    s.idle < Fintype.card θ + (s.rest t).idle.toNat := by
  have full : State.idle { s with rest := Function.update s.rest t .woken } + (s.rest t).idle.toNat =
      s.idle + (Function.update s.rest t .woken t).idle.toNat :=
    idle_move t fun u other => Function.update_of_ne other ..
  have le := idle_le { s with rest := Function.update s.rest t .woken }
  have one : Rest.woken.idle.toNat = 1 := rfl
  rw [Function.update_self] at full
  omega

theorem le_idle (s : State θ ω) (t : θ) : (s.rest t).idle.toNat ≤ s.idle := by
  exact weight_le_total (fun t => (s.rest t).idle.toNat) t

namespace Staffed

variable (fit : Fintype.card θ ≤ threads) (small : threads < 2^64)

theorem notifyAll {pool : ThreadPool.State θ ω} {closers : Nat} (staffed : Staffed threads s)
    (phase : pool.phase = s.pool.phase) (closed : pool.closed = s.pool.closed)
    (borrowed : closers ≠ 0 → pool.pool = .shared) :
    Staffed threads (notifyAll { s with pool, closers }) := by
  have nobody (t : θ) : (Notify.notifyAll { s with pool, closers }).rest t ≠ .waiting := by
    simp only [Notify.notifyAll]
    split <;> simp_all
  constructor
  · have same : (Notify.notifyAll { s with pool, closers }).idle = s.idle := by
      apply total_congr
      intro t
      simp only [Notify.notifyAll]
      split
      · simp_all [Rest.idle]
      · rfl
    rw [same]
    exact staffed.count
  · exact fun t waiting => absurd waiting (nobody t)
  · exact fun t waiting => absurd waiting (nobody t)
  · intro t
    have before := staffed.busy t
    simp only [Notify.notifyAll,phase]
    split
    next waiting => simpa [waiting] using before
    · exact before
  · intro t exited
    exact closed.trans (staffed.exited t (phase ▸ exited))
  · exact borrowed

/-- A worker that waits is on its way. -/
theorem wake (staffed : Staffed threads s) (waiting : s.rest t = .waiting) :
    Staffed threads (wake s t) := by
  have others (u : θ) (other : u ≠ t) : (Notify.wake s t).rest u = s.rest u :=
    Function.update_of_ne other ..
  have here : (Notify.wake s t).rest t = .woken := Function.update_self ..
  have idle := idle_move t others
  have coming := coming_move t others
  have apart {u : θ} (is : (Notify.wake s t).rest u = .waiting) : u ≠ t := by
    rintro rfl
    simp [here] at is
  rw [here,waiting] at idle coming
  simp only [Rest.idle,Rest.coming,Bool.toNat_true,Bool.toNat_false] at idle coming
  constructor
  · have count := staffed.count
    change s.idleCount + _ = _
    omega
  · intro u is open_
    rw [others u (apart is)] at is
    have enough := staffed.enough u is open_
    change s.pool.queue.length ≤ _
    omega
  · intro u is closed
    rw [others u (apart is)] at is
    exact staffed.closing u is closed
  · intro u
    by_cases at_ : u = t
    · subst at_
      have before := staffed.busy u
      rw [waiting] at before
      rw [here]
      simpa [Notify.wake] using before
    · rw [others u at_]
      exact staffed.busy u
  · exact staffed.exited
  · exact staffed.borrowed

/-- Works come and go, and no worker changes its place. -/
theorem aside (staffed : Staffed threads s) {pool : ThreadPool.State θ ω} (aside : Aside s.pool pool) :
    Staffed threads { s with pool } := by
  constructor
  · exact staffed.count
  · intro t waiting open_
    exact Nat.le_trans aside.queue (staffed.enough t waiting (aside.closed ▸ open_))
  · intro t waiting closed
    exact (staffed.closing t waiting (aside.closed ▸ closed)).imp_right aside.closing.mpr
  · intro t
    rw [staffed.busy t]
    exact not_congr (aside.locking t).symm
  · intro t exited
    exact aside.closed.trans (staffed.exited t ((aside.exited t).mp exited))
  · exact fun closers => aside.shared (staffed.borrowed closers)

include fit in
/-- `idle_count` has every worker that waits. -/
theorem counted (staffed : Staffed threads s) (idle : (s.rest t).idle = true) : 0 < s.idleCount := by
  have count := staffed.count
  have here := le_idle s t
  rw [idle,Bool.toNat_true] at here
  omega

theorem submitted (staffed : Staffed threads s) {work : ω} {record : Work θ}
    (nobody : ∀ t, s.rest t ≠ .waiting) :
    Staffed threads { s with pool := submitDirect s.pool work record } := by
  constructor
  · exact staffed.count
  · exact fun t waiting => absurd waiting (nobody t)
  · exact fun t waiting => absurd waiting (nobody t)
  · exact staffed.busy
  · exact staffed.exited
  · exact staffed.borrowed

/-- The worker that is notified will take one work more. -/
theorem notified (staffed : Staffed threads s) {work : ω} {record : Work θ}
    (waiting : s.rest t = .waiting) :
    Staffed threads (Notify.wake { s with pool := submitDirect s.pool work record } t) := by
  have woken := staffed.wake waiting
  have coming : (Notify.wake s t).coming + (s.rest t).coming.toNat =
      s.coming + ((Notify.wake s t).rest t).coming.toNat :=
    coming_move t fun u other => Function.update_of_ne other ..
  have here : (Notify.wake s t).rest t = .woken := Function.update_self ..
  rw [here,waiting] at coming
  simp only [Rest.coming,Bool.toNat_true,Bool.toNat_false] at coming
  constructor
  · exact woken.count
  · intro u _ open_
    have enough := staffed.enough t waiting open_
    change (s.pool.queue ++ [work]).length ≤ (Notify.wake s t).coming
    rw [List.length_append,List.length_singleton]
    omega
  · exact woken.closing
  · exact woken.busy
  · exact woken.exited
  · exact woken.borrowed

/-- A worker comes to the lock, and waits exactly if it finds nothing to do. -/
theorem turned (staffed : Staffed threads s) (awake : s.rest t ≠ .waiting)
    (turn : Turn s.pool t next.pool) (others : ∀ u, u ≠ t → next.rest u = s.rest u)
    (count : next.idleCount + (s.rest t).idle.toNat = s.idleCount + (next.rest t).idle.toNat)
    (closers : next.closers = s.closers)
    (rests : next.rest t = .waiting ∧ s.pool.closed = false ∧ s.pool.queue = [] ∨
      next.rest t = .busy ∧ (s.pool.closed = true ∨ s.pool.queue ≠ [])) :
    Staffed threads next := by
  have idle := idle_move t others
  have coming := coming_move t others
  have asleep {u : θ} (waiting : next.rest u = .waiting) (other : next.rest t ≠ .waiting) :
      s.rest u = .waiting := by
    by_cases at_ : u = t
    · exact absurd (at_ ▸ waiting) other
    · rwa [others u at_] at waiting
  constructor
  · have before := staffed.count
    omega
  · intro u waiting open_
    rw [turn.closed] at open_
    rcases turn.went with ⟨closed,_⟩ | ⟨_,_,empty,_⟩ | ⟨_,work,n,first,_⟩
    · simp [closed] at open_
    · simp [empty]
    · rcases rests with ⟨_,_,none_⟩ | ⟨busy,_⟩
      · simp [none_] at first
      · have enough := staffed.enough u (asleep waiting (by simp [busy])) open_
        rw [first,List.length_cons] at enough
        have gone : (next.rest t).coming.toNat = 0 := by rw [busy]; rfl
        have le := Bool.toNat_le (s.rest t).coming
        omega
  · intro u waiting closed
    rw [turn.closed] at closed
    rw [closers,turn.same]
    rcases rests with ⟨_,open_,_⟩ | ⟨busy,_⟩
    · simp [open_] at closed
    · exact staffed.closing u (asleep waiting (by simp [busy])) closed
  · intro u
    by_cases at_ : u = t
    · subst at_
      rcases turn.went with ⟨closed,_,phase⟩ | ⟨open_,none_,_,phase⟩ | ⟨open_,work,n,first,phase⟩
      · simp_all
      · simp_all
      · simp_all
    · rw [others u at_,turn.others u at_]
      exact staffed.busy u
  · intro u exited
    rw [turn.closed]
    by_cases at_ : u = t
    · subst at_
      rcases turn.went with ⟨closed,_⟩ | ⟨_,_,_,phase⟩ | ⟨_,work,n,_,phase⟩
      · exact closed
      · simp [phase] at exited
      · simp [phase] at exited
    · rw [turn.others u at_] at exited
      exact staffed.exited u exited
  · intro some_
    rw [closers] at some_
    exact turn.same.trans (staffed.borrowed some_)

include fit in
theorem count_le (staffed : Staffed threads s) : s.idleCount ≤ threads := by
  have count := staffed.count
  have idle := idle_le s
  omega

include fit small in
/-- What a worker has of the count when it takes the lock. -/
theorem left (staffed : Staffed threads s) (awake : s.rest t ≠ .waiting) :
    (if s.rest t = .busy then s.idleCount else fetchSub s.idleCount) + (s.rest t).idle.toNat =
      s.idleCount := by
  have le := staffed.count_le fit
  split
  next busy => simp [busy,Rest.idle]
  next idle =>
    have is : (s.rest t).idle = true := by
      cases place : s.rest t <;> simp_all [Rest.idle]
    have counted := staffed.counted fit is
    rw [is,Bool.toNat_true,fetchSub]
    omega

include fit small in
/-- No step loses or wraps the count. -/
theorem step {label : Label θ ω} (staffed : Staffed threads s)
    (ran : step s label = some next) : Staffed threads next := by
  cases step_cases ran with
  | unheard unheard =>
    apply staffed.submitted
    rcases unheard with none_ | nobody
    · intro t waiting
      have counted := staffed.counted (t := t) fit (by simp [waiting,Rest.idle])
      omega
    · exact nobody
  | heard waiting => exact staffed.notified waiting
  | spurious waiting => exact staffed.wake waiting
  | aside _ aside => exact staffed.aside aside
  | @rested t pool awake inner open_ empty =>
    have left := staffed.left fit small awake
    have count := staffed.count
    have here : Function.update s.rest t .waiting t = .waiting := Function.update_self ..
    apply staffed.turned awake (turn_of_lock inner).2
    · exact fun u other => Function.update_of_ne other ..
    · have less : s.idle < Fintype.card θ + (s.rest t).idle.toNat :=
        idle_lt s t
      have one : Rest.waiting.idle.toNat = 1 := rfl
      simp only [Function.update_self,fetchAdd]
      omega
    · rfl
    · exact .inl ⟨here,open_,empty⟩
  | @went t pool awake inner work =>
    have left := staffed.left fit small awake
    have here : Function.update s.rest t .busy t = .busy := Function.update_self ..
    apply staffed.turned awake (turn_of_lock inner).2
    · exact fun u other => Function.update_of_ne other ..
    · simpa [Rest.idle] using left
    · rfl
    · exact .inr ⟨here,work⟩
  | cancelAll shared => exact staffed.notifyAll rfl rfl fun _ => shared
  | close shared =>
    constructor
    · exact staffed.count
    · intro t _ open_
      cases open_
    · exact fun t _ _ => .inl (Nat.succ_ne_zero _)
    · exact staffed.busy
    · exact fun _ _ => rfl
    · exact fun _ => shared
  | closeCancel shared some_ => exact staffed.notifyAll rfl rfl fun _ => shared
  | dropPool none_ =>
    constructor
    · exact staffed.count
    · intro t _ open_
      cases open_
    · exact fun t _ _ => .inr rfl
    · exact staffed.busy
    · exact fun _ _ => rfl
    · exact fun some_ => absurd none_ some_
  | dropCancel closing =>
    apply staffed.notifyAll
    · rfl
    · rfl
    · intro some_
      have shared := staffed.borrowed some_
      simp [closing] at shared

end Staffed

end XxCore.ThreadPool.Notify
