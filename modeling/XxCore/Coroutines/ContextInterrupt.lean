import XxCore.Coroutines.Context
import XxCore.Lib.History

/-! Interrupts, guards and cancels over all runs of a context. -/
namespace XxCore.Coroutines.Context

open Transition

variable {ε : Type} {s next : State ε}

/-- The results of the calls of `interrupt` that ran no cancel. -/
def plainResult (interrupted : Bool) : InterruptResult ε :=
  if interrupted then .error .alreadyInProgress else .ok ()

/-- What must have happened before an event. -/
def Fits (earlier : List (Event ε)) : Event ε → Prop
  | .ran _ block => .entered block ∈ earlier ∧ .resumed block ∉ earlier ∧ held earlier = 0 ∧
      ∀ call, .ran call block ∉ earlier
  | .took answer => answer = (held earlier == 0 && pending earlier)
  | .returned call result =>
      (∃ block before, earlier = .cancelReturned call result :: before ∧ .ran call block ∈ before) ∨
      (∃ before, earlier = .interrupted call :: before ∧ result = plainResult (pending before) ∧
        ∀ block, .ran call block ∉ before)
  | _ => True

theorem update_fields {d data : Data Nat} {rel : Int} (updated : d.updateGuardCount rel = some data) :
    (data.guards : Int) = d.guards + rel ∧ data.guards < UInt32.size ∧
      data.interrupted = d.interrupted ∧ data.cancel = d.cancel := by
  simp only [Data.updateGuardCount] at updated
  split at updated
  next range =>
    obtain rfl := Option.some.inj updated
    exact ⟨Int.toNat_of_nonneg range.1,range.2,rfl,rfl⟩
  next => cases updated

/-- Either the cancel is there to be run and no guard is held, or the result depends on whether an
interrupt was pending. -/
theorem interrupt_cases (d : Data Nat) :
    (∃ block, d.guards = 0 ∧ d.cancel = some block ∧ d.interrupt (ε := ε) =
      (.inl block,{ d with interrupted := true, cancel := none })) ∨
    d.interrupt (ε := ε) = (.inr (plainResult d.interrupted),{ d with interrupted := true }) := by
  by_cases guarded : 0 < d.guards
  · exact .inr (by simp [Data.interrupt,guarded,plainResult])
  · cases canceller : d.cancel with
    | none => exact .inr (by simp [Data.interrupt,canceller,plainResult])
    | some block =>
      exact .inl ⟨block,by omega,rfl,by simp [Data.interrupt,guarded,canceller]⟩

structure Inv (s : State ε) : Prop where
  guards : s.data.guards = held s.log
  small : s.data.guards < UInt32.size
  flag : s.data.interrupted = pending s.log
  sound : History.Sound Fits s.log
  /-- a worker that is blocked was not resumed -/
  blocked : ∀ block threadSafe completed, s.worker = .blocked block threadSafe completed →
    .entered block ∈ s.log ∧ .resumed block ∉ s.log ∧ block < s.blocks
  /-- the cancel is the one of the block, and it did not run -/
  cancel : ∀ block, s.data.cancel = some block →
    (∃ threadSafe completed, s.worker = .blocked block threadSafe completed) ∧
    ∀ call, .ran call block ∉ s.log
  canceling : ∀ call ∈ s.canceling, ∃ block, .ran call block ∈ s.log
  blocks : ∀ block, .resumed block ∈ s.log ∨ (∃ call, .ran call block ∈ s.log) → block < s.blocks
  calls : ∀ call block, .ran call block ∈ s.log → call < s.calls

namespace Inv

theorem init (waker : Bool) : Inv (Context.init ε waker) := by
  constructor <;> simp [Context.init,Data.new,held,pending,History.Sound]

/-- An event that neither starts a cancel nor resumes the worker. -/
theorem record {data : Data Nat} {canceling : List Nat} {calls : Nat} {event : Event ε} (inv : Inv s)
    (plain : ∀ block, event ≠ .resumed block ∧ ∀ call, event ≠ .ran call block)
    (fits : Fits s.log event) (guards : data.guards = held (event :: s.log))
    (small : data.guards < UInt32.size) (flag : data.interrupted = pending (event :: s.log)) (same : data.cancel = s.data.cancel)
    (fewer : ∀ call ∈ canceling, call ∈ s.canceling) (later : s.calls ≤ calls) :
    Inv { s with data, canceling, calls, log := event :: s.log } := by
  have noRun : ∀ call block, .ran call block ∈ event :: s.log ↔ .ran call block ∈ s.log := by
    intro call block
    simp [Ne.symm ((plain block).2 call)]
  have noResume : ∀ block, .resumed block ∈ event :: s.log ↔ .resumed block ∈ s.log := by
    intro block
    simp [Ne.symm (plain block).1]
  constructor
  · exact guards
  · exact small
  · exact flag
  · exact ⟨fits,inv.sound⟩
  · intro block threadSafe completed is
    obtain ⟨entered,notResumed,below⟩ := inv.blocked block threadSafe completed is
    exact ⟨List.mem_cons_of_mem _ entered,fun mem => notResumed ((noResume block).mp mem),below⟩
  · intro block is
    obtain ⟨waits,never⟩ := inv.cancel block (same.symm.trans is)
    exact ⟨waits,fun call mem => never call ((noRun call block).mp mem)⟩
  · intro call mem
    obtain ⟨block,ran⟩ := inv.canceling call (fewer call mem)
    exact ⟨block,List.mem_cons_of_mem _ ran⟩
  · rintro block (mem | ⟨call,mem⟩)
    · exact inv.blocks block (.inl ((noResume block).mp mem))
    · exact inv.blocks block (.inr ⟨call,(noRun call block).mp mem⟩)
  · intro call block mem
    exact Nat.lt_of_lt_of_le (inv.calls call block ((noRun call block).mp mem)) later

/-- The worker starts to block: its block is new. -/
theorem enter {threadSafe : Bool} (inv : Inv s) :
    Inv { s with
      data := s.data.block s.blocks
      worker := .blocked s.blocks threadSafe false
      blocks := s.blocks + 1
      log := .entered s.blocks :: s.log } := by
  have new : ∀ block, .resumed block ∈ s.log ∨ (∃ call, .ran call block ∈ s.log) → block ≠ s.blocks :=
    fun block mem => Nat.ne_of_lt (inv.blocks block mem)
  constructor
  · exact inv.guards
  · exact inv.small
  · exact inv.flag
  · exact ⟨trivial,inv.sound⟩
  · intro block safe completed is
    cases is
    simp only [List.mem_cons,true_or,true_and,reduceCtorEq,false_or]
    exact ⟨fun mem => new _ (.inl mem) rfl,Nat.lt_succ_self _⟩
  · intro block is
    cases is
    refine ⟨⟨threadSafe,false,rfl⟩,fun call mem => ?_⟩
    simp only [List.mem_cons,reduceCtorEq,false_or] at mem
    exact new _ (.inr ⟨call,mem⟩) rfl
  · intro call mem
    obtain ⟨block,ran⟩ := inv.canceling call mem
    exact ⟨block,List.mem_cons_of_mem _ ran⟩
  · intro block mem
    simp only [List.mem_cons,reduceCtorEq,false_or] at mem
    exact Nat.lt_succ_of_lt (inv.blocks block mem)
  · intro call block mem
    simp only [List.mem_cons,reduceCtorEq,false_or] at mem
    exact inv.calls call block mem

/-- The future completes while the worker is blocked. -/
theorem completed {block : Nat} {threadSafe : Bool} (inv : Inv s)
    (waits : s.worker = .blocked block threadSafe false) :
    Inv { s with worker := .blocked block threadSafe true, log := .completed block :: s.log } := by
  have recorded : Inv { s with log := .completed block :: s.log } :=
    inv.record (by simp) trivial inv.guards inv.small inv.flag rfl (fun _ mem => mem) le_rfl
  constructor
  · exact recorded.guards
  · exact recorded.small
  · exact recorded.flag
  · exact recorded.sound
  · intro other safe done is
    cases is
    exact recorded.blocked block threadSafe false waits
  · intro other is
    obtain ⟨⟨safe,done,same⟩,never⟩ := recorded.cancel other is
    cases waits.symm.trans same
    exact ⟨⟨_,_,rfl⟩,never⟩
  · exact recorded.canceling
  · exact recorded.blocks
  · exact recorded.calls

/-- The worker goes on, and the cancel is gone. -/
theorem resume {block : Nat} {threadSafe completed : Bool} (inv : Inv s)
    (waits : s.worker = .blocked block threadSafe completed) : Inv (Context.resume s block) := by
  have below := (inv.blocked block threadSafe completed waits).2.2
  constructor
  · exact inv.guards
  · exact inv.small
  · exact inv.flag
  · exact ⟨trivial,inv.sound⟩
  · intro other safe done is
    cases is
  · intro other is
    cases is
  · intro call mem
    obtain ⟨other,ran⟩ := inv.canceling call mem
    exact ⟨other,List.mem_cons_of_mem _ ran⟩
  · intro other mem
    simp only [Context.resume,List.mem_cons,Event.resumed.injEq,reduceCtorEq,false_or] at mem
    rcases mem with (rfl | mem) | ran
    · exact below
    · exact inv.blocks other (.inl mem)
    · exact inv.blocks other (.inr ran)
  · intro call other mem
    simp only [Context.resume,List.mem_cons,reduceCtorEq,false_or] at mem
    exact inv.calls call other mem

/-- An interrupt takes the cancel and starts to run it. -/
theorem run {block : Nat} (inv : Inv s) (free : s.data.guards = 0)
    (canceller : s.data.cancel = some block) :
    Inv { s with
      data := { s.data with interrupted := true, cancel := none }
      canceling := s.calls :: s.canceling
      calls := s.calls + 1
      log := .ran s.calls block :: .interrupted s.calls :: s.log } := by
  obtain ⟨⟨threadSafe,completed,waits⟩,never⟩ := inv.cancel block canceller
  obtain ⟨entered,notResumed,below⟩ := inv.blocked block threadSafe completed waits
  constructor
  · exact inv.guards
  · exact inv.small
  · rfl
  · refine ⟨?_,trivial,inv.sound⟩
    simpa [Fits,held,entered,notResumed,never] using inv.guards.symm.trans free
  · intro other safe done is
    simpa using inv.blocked other safe done is
  · intro other is
    cases is
  · intro call mem
    rcases List.mem_cons.mp mem with rfl | mem
    · exact ⟨block,by simp⟩
    · obtain ⟨other,ran⟩ := inv.canceling call mem
      exact ⟨other,by simp [ran]⟩
  · intro other mem
    simp only [List.mem_cons,Event.ran.injEq,reduceCtorEq,false_or] at mem
    rcases mem with mem | ⟨call,⟨_,rfl⟩ | mem⟩
    · exact inv.blocks other (.inl mem)
    · exact below
    · exact inv.blocks other (.inr ⟨call,mem⟩)
  · intro call other mem
    simp only [List.mem_cons,Event.ran.injEq,reduceCtorEq,false_or] at mem
    rcases mem with ⟨rfl,_⟩ | mem
    · exact Nat.lt_succ_self _
    · exact Nat.lt_succ_of_lt (inv.calls call other mem)

theorem interrupt (inv : Inv s) (stepped : Context.step s .interrupt = some next) : Inv next := by
  rcases interrupt_cases (ε := ε) s.data with ⟨block,free,canceller,is⟩ | is
  · simp only [Context.step,is] at stepped
    obtain rfl := Option.some.inj stepped
    exact inv.run free canceller
  · simp only [Context.step,is] at stepped
    obtain rfl := Option.some.inj stepped
    have arrived : Inv { s with
        data := { s.data with interrupted := true }
        calls := s.calls + 1
        log := .interrupted s.calls :: s.log } :=
      inv.record (by simp) trivial inv.guards inv.small rfl rfl (fun _ mem => mem) (Nat.le_succ _)
    apply arrived.record (by simp) _ arrived.guards arrived.small rfl rfl (fun _ mem => mem) le_rfl
    refine .inr ⟨s.log,rfl,by rw [inv.flag],fun block mem => ?_⟩
    exact Nat.lt_irrefl _ (inv.calls _ block mem)

theorem cancelReturn {result : InterruptResult ε} (inv : Inv s)
    (stepped : Context.step s (.cancelReturn result) = some next) : Inv next := by
  simp only [Context.step] at stepped
  split at stepped
  next => cases stepped
  next call canceling shape =>
    obtain rfl := Option.some.inj stepped
    obtain ⟨block,ran⟩ := inv.canceling call (by simp [shape])
    have fewer : ∀ other ∈ canceling, other ∈ s.canceling := fun other mem => by simp [shape,mem]
    have first : Inv { s with canceling, log := .cancelReturned call result :: s.log } :=
      inv.record (by simp) trivial inv.guards inv.small inv.flag rfl fewer le_rfl
    apply first.record (by simp) _ first.guards first.small first.flag rfl (fun _ mem => mem) le_rfl
    exact .inl ⟨block,s.log,rfl,ran⟩

theorem takeInterrupt (inv : Inv s) (stepped : Context.step s .takeInterrupt = some next) :
    Inv next := by
  simp only [Context.step,Data.takeInterrupt] at stepped
  have answer : s.data.isInterrupted = (held s.log == 0 && pending s.log) := by
    rw [Data.isInterrupted,inv.guards,inv.flag]
  split at stepped
  next is =>
    obtain rfl := Option.some.inj stepped
    exact inv.record (by simp) (is.symm.trans answer) inv.guards inv.small rfl rfl (fun _ mem => mem) le_rfl
  next isNot =>
    obtain rfl := Option.some.inj stepped
    rw [Bool.not_eq_true] at isNot
    exact inv.record (by simp) (isNot.symm.trans answer) inv.guards inv.small inv.flag rfl (fun _ mem => mem)
      le_rfl

theorem step {l : Label ε} (inv : Inv s) (allowed : Allowed s l)
    (stepped : Context.step s l = some next) : Inv next := by
  cases l with
  | blockOn threadSafe done =>
    simp only [Context.step] at stepped
    split at stepped
    next =>
      split at stepped
      next => exact Option.some.inj stepped ▸ inv
      next => exact Option.some.inj stepped ▸ inv.enter
    next => cases stepped
  | complete =>
    simp only [Context.step] at stepped
    split at stepped
    next block threadSafe waits =>
      have completed := inv.completed waits
      obtain rfl := Option.some.inj stepped
      split
      next => exact completed
      next => exact completed.resume rfl
    next => cases stepped
  | wake =>
    simp only [Context.step] at stepped
    split at stepped
    next block waits => exact Option.some.inj stepped ▸ inv.resume waits
    next => cases stepped
  | guard | dropGuard =>
    simp only [Context.step,Option.bind_eq_bind,Option.bind_eq_some_iff] at stepped
    obtain ⟨data,updated,same⟩ := stepped
    obtain rfl := Option.some.inj same
    obtain ⟨guards,small,flag,cancel⟩ := update_fields updated
    refine inv.record (by simp) trivial ?_ small (flag.trans inv.flag) cancel (fun _ mem => mem) le_rfl
    simp only [held,← inv.guards]
    omega
  | clearInterrupt =>
    obtain rfl := Option.some.inj stepped
    exact inv.record (by simp) trivial inv.guards inv.small rfl rfl (fun _ mem => mem) le_rfl
  | takeInterrupt => exact inv.takeInterrupt stepped
  | decreaseBudget =>
    obtain rfl := Option.some.inj stepped
    exact { inv with }
  | interrupt => exact inv.interrupt stepped
  | cancelReturn result => exact inv.cancelReturn stepped

end Inv

/-- A guard that was not dropped yet can be dropped. -/
theorem Inv.drop (inv : Inv s) (guarded : 0 < held s.log) :
    ∃ next, Context.step s .dropGuard = some next := by
  have range : 0 ≤ (s.data.guards : Int) + -1 ∧
      ((s.data.guards : Int) + -1).toNat < UInt32.size := by
    have counter := inv.guards
    have small := inv.small
    omega
  simp only [Context.step,Data.updateGuardCount,range,and_self,if_true]
  exact ⟨_,rfl⟩

/-- Every run of a context: the counter and the flag are what the history says, a cancel runs at
most once for each block, between its start and its end and while no guard is held, and what
`take_interrupt` and `interrupt` return. -/
theorem interrupts_account {waker : Bool} {labels : List (Label ε)}
    (path : Path step Allowed (init ε waker) labels s) :
    s.data.guards = held s.log ∧
    s.data.isInterrupted = (held s.log == 0 && pending s.log) ∧
    (∀ later call block earlier, s.log = later ++ .ran call block :: earlier →
      .entered block ∈ earlier ∧ .resumed block ∉ earlier ∧ held earlier = 0 ∧
      ∀ other, .ran other block ∉ earlier) ∧
    (∀ later answer earlier, s.log = later ++ .took answer :: earlier →
      answer = (held earlier == 0 && pending earlier)) ∧
    (∀ later call result earlier, s.log = later ++ .returned call result :: earlier →
      (∃ block before, earlier = .cancelReturned call result :: before ∧ .ran call block ∈ before) ∨
      (∃ before, earlier = .interrupted call :: before ∧
        result = (if pending before then .error .alreadyInProgress else .ok ()) ∧
        ∀ block, .ran call block ∉ before)) ∧
    (0 < held s.log → ∃ next, step s .dropGuard = some next) := by
  have inv : Inv s := path.invariant Inv (fun _ _ _ inv allowed stepped => inv.step allowed stepped)
    (.init waker)
  refine ⟨inv.guards,?_,?_,?_,?_,inv.drop⟩
  · rw [Data.isInterrupted,inv.guards,inv.flag]
  · exact fun later call block earlier shape => inv.sound.split shape
  · exact fun later answer earlier shape => inv.sound.split shape
  · exact fun later call result earlier shape => inv.sound.split shape

/-- An interrupt under a guard runs no cancel and is seen once the guard is dropped; the cancel runs
with the next interrupt, and the worker resumes while it does. -/
theorem interrupts_account_guarded : ∃ s : State Unit,
    run step [.guard,.blockOn false false,.interrupt,.takeInterrupt,.dropGuard,.interrupt,.complete,
      .cancelReturn (.ok ())] (init Unit false) = some s ∧ s.data.isInterrupted = true ∧
    s.data.isInterrupted = (held s.log == 0 && pending s.log) := by
  let checked (s : State Unit) (l : Label Unit) : Bool := decide (Allowed s l)
  have sound : ∀ s l, checked s l = true → Allowed s l := fun s l => of_decide_eq_true
  obtain ⟨s,ran,interrupted⟩ : ∃ s, run (fun s l => if checked s l then step s l else none)
      [.guard,.blockOn false false,.interrupt,.takeInterrupt,.dropGuard,.interrupt,.complete,
        .cancelReturn (.ok ())] (init Unit false) = some s ∧ s.data.isInterrupted = true :=
    ⟨_,rfl,rfl⟩
  have path := run_path_checked checked sound ran
  exact ⟨s,path.executed,interrupted,(interrupts_account path).2.1⟩

end XxCore.Coroutines.Context
