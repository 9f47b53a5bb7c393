import XxCore.Coroutines.Spawn
import XxCore.Lib.History

/-! The output, the cancel and the reference of a spawned task over all its runs. -/
namespace XxCore.Coroutines.Spawn

open Transition

variable {ο : Type} {s next : State ο} {log : List (Event ο)}

/-! What the log says. -/

/-- The outputs of the task itself. -/
def produced : List (Event ο) → List (MaybePanic ο) := List.filterMap fun event =>
  match event with
  | .produced output => some output
  | _ => none

/-- The outputs that the spawner got, as `Progress::Done` or through its request. -/
def given : List (Event ο) → List (MaybePanic ο) := List.filterMap fun event =>
  match event with
  | .progressDone output | .requestCompleted output => some output
  | _ => none

/-- The outputs that left the handle. -/
def received : List (Event ο) → List (MaybePanic ο) := List.filterMap fun event =>
  match event with
  | .taken output | .joinerCompleted output => some output
  | _ => none

/-- What must have happened before an event. -/
def Fits (earlier : List (Event ο)) : Event ο → Prop
  | .produced _ => produced earlier = []
  | .progressDone output => earlier = [.produced output]
  | .requestCompleted output => .suspended ∈ earlier ∧ ∃ before, earlier = .produced output :: before
  | .cancelRun => produced earlier = [] ∧ .progressPending ∈ earlier ∧ .cancelRun ∉ earlier
  | .intoRaw => produced earlier = [] ∧ .intoRaw ∉ earlier
  | .fromRaw => .intoRaw ∈ earlier ∧ .fromRaw ∉ earlier ∧
      ∃ output before, earlier = .requestCompleted output :: .produced output :: before
  | .released => .fromRaw ∈ earlier ∧ .released ∉ earlier
  | _ => True

/-- The references that the spawner's side holds. -/
def Holder.count : Holder → Nat
  | .dropped => 0
  | _ => 1

/-- The states before the spawner has its handle, and those of a task that finished before it was
suspended. -/
inductive Synchronous : State ο → Prop where
  | created : Synchronous (init ο)
  | running : Synchronous ⟨.pending,false,.new,.running,.spawning,1,[]⟩
  | suspended : Synchronous ⟨.pending,false,.new,.suspended,.spawning,1,[.suspended]⟩
  | finished : Synchronous ⟨.done r,false,.new,.exited,.spawning,1,[.produced r]⟩
  | held : Synchronous ⟨.uninit,false,⟨false,some r,false⟩,.exited,.held,1,[.progressDone r,.produced r]⟩
  | taken : Synchronous
      ⟨.uninit,false,⟨false,none,false⟩,.exited,.dropped,0,[.taken r,.progressDone r,.produced r]⟩
  | dropped : Synchronous
      ⟨.uninit,false,⟨false,some r,false⟩,.exited,.dropped,0,[.progressDone r,.produced r]⟩

/-- A task that was suspended and did not finish. -/
structure Unfinished (s : State ο) : Prop where
  worker : s.worker = .running ∨ s.worker = .suspended
  holder : s.holder = .held ∨ s.holder = .joining ∨ s.holder = .canceling ∨ s.holder = .dropped
  isAsync : s.isAsync = true
  output : s.handle.output = none
  waiter : s.holder = .held → s.handle.waiter = false
  joining : s.holder = .joining → s.handle.waiter = true
  cancel : s.handle.cancel = true → .cancelRun ∉ s.log
  strong : s.strong = s.holder.count + 1
  produced : produced s.log = []
  given : given s.log = []
  received : received s.log = []
  suspended : .suspended ∈ s.log
  pending : .progressPending ∈ s.log
  intoRaw : .intoRaw ∈ s.log
  fromRaw : .fromRaw ∉ s.log
  released : .released ∉ s.log

/-- The handle moves, and no output is there to move with it. -/
theorem Unfinished.move {worker : Worker} {holder : Holder} {handle : SpawnHandle ο} {strong : Nat}
    (phase : Unfinished s) (works : worker = .running ∨ worker = .suspended)
    (holds : holder = .held ∨ holder = .joining ∨ holder = .canceling ∨ holder = .dropped)
    (output : handle.output = none) (held : holder = .held → handle.waiter = false)
    (joining : holder = .joining → handle.waiter = true)
    (cancel : handle.cancel = true → s.handle.cancel = true) (counted : strong = holder.count + 1) :
    Unfinished { s with worker, holder, handle, strong } :=
  { phase with
    worker := works
    holder := holds
    output := output
    waiter := held
    joining := joining
    cancel := fun is => phase.cancel (cancel is)
    strong := counted }

/-- A task that finished after it was suspended. -/
structure Finished (s : State ο) : Prop where
  worker : s.worker = .completing ∧ .released ∉ s.log ∧ s.strong = s.holder.count + 1 ∨
    s.worker = .exited ∧ .released ∈ s.log ∧ s.strong = s.holder.count
  holder : s.holder = .held ∨ s.holder = .joined ∨ s.holder = .canceling ∨ s.holder = .dropped
  output : s.holder = .held → s.handle.output.isSome
  produced : (produced s.log).length = 1
  given : given s.log = Spawn.produced s.log
  received : received s.log ++ s.handle.output.toList = Spawn.produced s.log
  intoRaw : .intoRaw ∈ s.log
  fromRaw : .fromRaw ∈ s.log

/-- A reference is dropped. -/
theorem Finished.drop {holder : Holder} (phase : Finished s) (is : s.holder = holder)
    (live : holder ≠ .dropped) :
    Finished { s with holder := .dropped, strong := s.strong - 1 } := by
  have one : s.holder.count = 1 := by
    rw [is]
    cases holder <;> first | rfl | exact absurd rfl live
  exact { phase with
    worker := by
      have := phase.worker
      simp only [one] at this
      rcases this with ⟨works,fresh,strong⟩ | ⟨works,fresh,strong⟩
      · exact .inl ⟨works,fresh,by simp [strong,Holder.count]⟩
      · exact .inr ⟨works,fresh,by simp [strong,Holder.count]⟩
    holder := by simp
    output := by simp }

/-- The invariant. -/
structure Inv (s : State ο) : Prop where
  sound : History.Sound Fits s.log
  phase : Synchronous s ∨ Unfinished s ∨ Finished s

namespace Inv

theorem init : Inv (Spawn.init ο) := ⟨trivial,.inl .created⟩

theorem synchronous {l : Label ο} (inv : Inv s) (phase : Synchronous s)
    (stepped : step s l = some next) : Inv next := by
  cases phase with
  | created =>
    cases l with
    | start =>
      obtain rfl := Option.some.inj stepped
      exact ⟨trivial,.inl .running⟩
    | _ => simp [step,Spawn.init] at stepped
  | running =>
    cases l with
    | suspend =>
      obtain rfl := Option.some.inj stepped
      exact ⟨⟨trivial,trivial⟩,.inl .suspended⟩
    | finish r =>
      obtain rfl := Option.some.inj stepped
      exact ⟨⟨rfl,trivial⟩,.inl .finished⟩
    | _ => simp [step] at stepped
  | suspended =>
    cases l with
    | spawnReturn =>
      obtain rfl := Option.some.inj stepped
      refine ⟨⟨⟨rfl,by simp⟩,trivial,inv.sound⟩,.inr (.inl ?_)⟩
      constructor <;> simp [produced,given,received,SpawnHandle.new,Holder.count]
    | _ => simp [step] at stepped
  | finished =>
    cases l with
    | spawnReturn =>
      obtain rfl := Option.some.inj stepped
      exact ⟨⟨rfl,inv.sound⟩,.inl .held⟩
    | _ => simp [step] at stepped
  | held =>
    cases l with
    | requestCancel =>
      obtain rfl := Option.some.inj stepped
      exact ⟨inv.sound,.inl .held⟩
    | tryJoin =>
      obtain rfl := Option.some.inj stepped
      exact ⟨⟨trivial,inv.sound⟩,.inl .taken⟩
    | dropHandle =>
      obtain rfl := Option.some.inj stepped
      exact ⟨inv.sound,.inl .dropped⟩
    | _ => simp [step] at stepped
  | taken => cases l <;> simp [step] at stepped
  | dropped => cases l <;> simp [step] at stepped

/-- The cancel is taken for good and run before the task finishes. -/
theorem run {holder : Holder} (inv : Inv s) (phase : Unfinished s)
    (holds : holder = s.holder ∨ s.holder = .joining ∧ holder = .canceling) :
    Inv { cancel s s.handle.tryCancel with holder } := by
  have counted : holder.count = s.holder.count := by
    rcases holds with rfl | ⟨before,rfl⟩
    · rfl
    · rw [before]
      rfl
  have moved : Unfinished { s with holder, handle := { s.handle with cancel := false } } := by
    apply phase.move phase.worker _ _ _ _ (by simp) (counted ▸ phase.strong)
    · rcases holds with rfl | ⟨_,rfl⟩
      · exact phase.holder
      · simp
    · exact phase.output
    · rcases holds with rfl | ⟨_,rfl⟩
      · exact phase.waiter
      · simp
    · rcases holds with rfl | ⟨_,rfl⟩
      · exact phase.joining
      · simp
  cases is : s.handle.cancel with
  | false =>
    simp only [cancel,SpawnHandle.tryCancel,is,Bool.false_eq_true,if_false]
    exact ⟨inv.sound,.inr (.inl moved)⟩
  | true =>
    simp only [cancel,SpawnHandle.tryCancel,is,if_true]
    refine ⟨⟨⟨phase.produced,phase.pending,phase.cancel is⟩,inv.sound⟩,.inr (.inl ?_)⟩
    exact { moved with
      cancel := by simp
      suspended := List.mem_cons_of_mem _ phase.suspended
      pending := List.mem_cons_of_mem _ phase.pending
      intoRaw := List.mem_cons_of_mem _ phase.intoRaw
      fromRaw := by simp [phase.fromRaw]
      released := by simp [phase.released] }

theorem finish {result : MaybePanic ο} (inv : Inv s) (phase : Unfinished s) :
    Inv (Spawn.finish s result) := by
  have logged : History.Sound Fits
      (.fromRaw :: .requestCompleted result :: .produced result :: s.log) := by
    refine ⟨⟨?_,?_,result,s.log,rfl⟩,⟨?_,s.log,rfl⟩,phase.produced,inv.sound⟩
    · simp [phase.intoRaw]
    · simp [phase.fromRaw]
    · simp [phase.suspended]
  have counts : produced (.produced result :: s.log) = [result] ∧ given (.produced result :: s.log) = []
      ∧ received (.produced result :: s.log) = [] :=
    ⟨congrArg (result :: ·) phase.produced,phase.given,phase.received⟩
  rw [Spawn.finish,if_pos phase.isAsync]
  cases waits : s.handle.waiter with
  | false =>
    have notJoining : s.holder ≠ .joining := fun is => by
      have := phase.joining is
      simp [waits] at this
    simp only [SpawnHandle.spawnComplete,waits,Bool.false_eq_true,if_false]
    refine ⟨logged,.inr (.inr ?_)⟩
    exact {
      worker := .inl ⟨rfl,by simp [phase.released],phase.strong⟩
      holder := by
        rcases phase.holder with is | is | is
        · exact .inl is
        · exact absurd is notJoining
        · exact .inr (.inr is)
      output := fun _ => rfl
      produced := congrArg List.length counts.1
      given := (congrArg (result :: ·) counts.2.1).trans counts.1.symm
      received := (congrArg (· ++ [result]) counts.2.2).trans counts.1.symm
      intoRaw := by simp [phase.intoRaw]
      fromRaw := by simp }
  | true =>
    have notHeld : s.holder ≠ .held := fun is => by
      have := phase.waiter is
      simp [waits] at this
    simp only [SpawnHandle.spawnComplete,waits,if_true]
    refine ⟨⟨trivial,logged⟩,.inr (.inr ?_)⟩
    exact {
      worker := by
        refine .inl ⟨rfl,by simp [phase.released],?_⟩
        split
        next is => simpa [is,Holder.count] using phase.strong
        next => exact phase.strong
      holder := by
        rcases phase.holder with is | is | is | is <;> simp [is] at notHeld ⊢
      output := by
        rcases phase.holder with is | is | is | is <;> simp [is] at notHeld ⊢
      produced := congrArg List.length counts.1
      given := (congrArg (result :: ·) counts.2.1).trans counts.1.symm
      received := by
        change result :: (received s.log ++ s.handle.output.toList) = _
        rw [phase.received,phase.output]
        exact counts.1.symm
      intoRaw := by simp [phase.intoRaw]
      fromRaw := by simp }

theorem unfinished {l : Label ο} (inv : Inv s) (phase : Unfinished s)
    (stepped : step s l = some next) : Inv next := by
  cases l with
  | start =>
    rcases phase.worker with is | is <;> simp [step,is] at stepped
  | suspend =>
    rcases phase.worker with is | is <;> simp only [step,is,reduceCtorEq] at stepped
    obtain rfl := Option.some.inj stepped
    refine ⟨⟨trivial,inv.sound⟩,.inr (.inl ?_)⟩
    exact { phase with
      worker := .inr rfl
      cancel := fun taken => by simp [phase.cancel taken]
      suspended := List.mem_cons_of_mem _ phase.suspended
      pending := List.mem_cons_of_mem _ phase.pending
      intoRaw := List.mem_cons_of_mem _ phase.intoRaw
      fromRaw := by simp [phase.fromRaw]
      released := by simp [phase.released] }
  | resume =>
    simp only [step] at stepped
    split at stepped
    · cases stepped
    · obtain rfl := Option.some.inj stepped
      exact ⟨inv.sound,.inr (.inl { phase with worker := .inl rfl })⟩
    · cases stepped
  | finish result =>
    simp only [step] at stepped
    split at stepped
    · exact Option.some.inj stepped ▸ inv.finish phase
    · cases stepped
  | completeReturn =>
    rcases phase.worker with is | is <;> simp [step,is] at stepped
  | spawnReturn =>
    rcases phase.holder with is | is | is | is <;> simp [step,is] at stepped
  | requestCancel =>
    simp only [step] at stepped
    split at stepped
    next held =>
      obtain rfl := Option.some.inj stepped
      rw [SpawnHandle.requestCancel,SpawnHandle.isDone,phase.output]
      exact inv.run phase (.inl rfl)
    next => cases stepped
  | tryJoin =>
    simp only [step] at stepped
    split at stepped
    next held =>
      rw [SpawnHandle.tryJoin,phase.output] at stepped
      obtain rfl := Option.some.inj stepped
      refine ⟨inv.sound,.inr (.inl ?_)⟩
      refine phase.move phase.worker (by simp) rfl (by simp) (by simp) ?_ ?_
      · exact fun is => is
      · simpa [held,Holder.count] using phase.strong
    next => cases stepped
  | joinCancel =>
    simp only [step] at stepped
    split at stepped
    next joining =>
      obtain rfl := Option.some.inj stepped
      exact inv.run phase (.inr ⟨joining,rfl⟩)
    next => cases stepped
  | dropJoin =>
    rcases phase.holder with is | is | is | is <;> simp only [step,is,reduceCtorEq] at stepped
    obtain rfl := Option.some.inj stepped
    refine ⟨inv.sound,.inr (.inl ?_)⟩
    apply phase.move phase.worker (by simp) phase.output (by simp) (by simp) (fun is => is)
    simp [phase.strong,is,Holder.count]
  | dropHandle =>
    rcases phase.holder with is | is | is | is <;> simp only [step,is,reduceCtorEq] at stepped
    obtain rfl := Option.some.inj stepped
    refine ⟨inv.sound,.inr (.inl ?_)⟩
    apply phase.move phase.worker (by simp) phase.output (by simp) (by simp) (fun is => is)
    simp [phase.strong,is,Holder.count]

theorem finished {l : Label ο} (inv : Inv s) (phase : Finished s)
    (stepped : step s l = some next) : Inv next := by
  cases l with
  | start =>
    rcases phase.worker with ⟨is,_⟩ | ⟨is,_⟩ <;> simp [step,is] at stepped
  | suspend =>
    rcases phase.worker with ⟨is,_⟩ | ⟨is,_⟩ <;> simp [step,is] at stepped
  | resume =>
    rcases phase.worker with ⟨is,_⟩ | ⟨is,_⟩ <;> simp [step,is] at stepped
  | finish result =>
    rcases phase.worker with ⟨is,_⟩ | ⟨is,_⟩ <;> simp [step,is] at stepped
  | completeReturn =>
    rcases phase.worker with ⟨is,fresh,strong⟩ | ⟨is,_⟩ <;> simp only [step,is,reduceCtorEq] at stepped
    obtain rfl := Option.some.inj stepped
    refine ⟨⟨⟨phase.fromRaw,fresh⟩,inv.sound⟩,.inr (.inr ?_)⟩
    exact { phase with
      worker := .inr ⟨rfl,by simp,by simp [strong]⟩
      intoRaw := by simp [phase.intoRaw]
      fromRaw := by simp [phase.fromRaw] }
  | spawnReturn =>
    rcases phase.holder with is | is | is | is <;> simp [step,is] at stepped
  | requestCancel =>
    rcases phase.holder with is | is | is | is <;> simp only [step,is,reduceCtorEq] at stepped
    obtain rfl := Option.some.inj stepped
    rw [SpawnHandle.requestCancel,SpawnHandle.isDone,phase.output is]
    exact ⟨inv.sound,.inr (.inr { phase with })⟩
  | tryJoin =>
    rcases phase.holder with is | is | is | is <;> simp only [step,is,reduceCtorEq] at stepped
    obtain ⟨output,there⟩ := Option.isSome_iff_exists.mp (phase.output is)
    rw [SpawnHandle.tryJoin,there] at stepped
    obtain rfl := Option.some.inj stepped
    refine ⟨⟨trivial,inv.sound⟩,.inr (.inr ?_)⟩
    have all := phase.received
    rw [there,Option.toList_some] at all
    have before : received s.log = [] := by
      have count := congrArg List.length all
      rw [phase.produced,List.length_append,List.length_singleton] at count
      exact List.length_eq_zero_iff.mp (by omega)
    have dropped := phase.drop is (by simp)
    exact { dropped with
      worker := by simpa using dropped.worker
      output := by simp
      received := by
        change (output :: received s.log) ++ [] = produced s.log
        rw [before,← all,before]
        rfl
      intoRaw := by simp [phase.intoRaw]
      fromRaw := by simp [phase.fromRaw] }
  | joinCancel =>
    rcases phase.holder with is | is | is | is <;> simp [step,is] at stepped
  | dropJoin =>
    rcases phase.holder with is | is | is | is <;> simp only [step,is,reduceCtorEq] at stepped
    all_goals
      obtain rfl := Option.some.inj stepped
      exact ⟨inv.sound,.inr (.inr (phase.drop is (by simp)))⟩
  | dropHandle =>
    rcases phase.holder with is | is | is | is <;> simp only [step,is,reduceCtorEq] at stepped
    obtain rfl := Option.some.inj stepped
    exact ⟨inv.sound,.inr (.inr (phase.drop is (by simp)))⟩

theorem step {l : Label ο} (inv : Inv s) (stepped : Spawn.step s l = some next) : Inv next := by
  rcases inv.phase with early | late | done
  · exact inv.synchronous early stepped
  · exact inv.unfinished late stepped
  · exact inv.finished done stepped

/-- One output at most is produced, handed to the spawner and taken from the handle. -/
theorem outputs (inv : Inv s) : (produced s.log).length ≤ 1 ∧
    (given s.log).Sublist (produced s.log) ∧
    received s.log ++ s.handle.output.toList = given s.log := by
  rcases inv.phase with early | late | done
  · cases early <;> simp [produced,given,received,Spawn.init,SpawnHandle.new]
  · simp [late.produced,late.given,late.received,late.output]
  · refine ⟨Nat.le_of_eq done.produced,?_,?_⟩
    · rw [done.given]
    · rw [done.received,done.given]

/-- There is a reference for the worker from `into_raw` until it is released. -/
theorem references (inv : Inv s) :
    .intoRaw ∈ s.log ∧ .released ∉ s.log ∧ s.worker ≠ .exited ∧ s.strong = s.holder.count + 1 ∨
      (.intoRaw ∈ s.log → .released ∈ s.log) ∧ s.strong = s.holder.count := by
  rcases inv.phase with early | late | done
  · cases early <;> simp [Spawn.init,Holder.count]
  · refine .inl ⟨late.intoRaw,late.released,?_,late.strong⟩
    rcases late.worker with is | is <;> simp [is]
  · rcases done.worker with ⟨is,fresh,strong⟩ | ⟨_,released,strong⟩
    · exact .inl ⟨done.intoRaw,fresh,by simp [is],strong⟩
    · exact .inr ⟨fun _ => released,strong⟩

theorem returns (inv : Inv s) (spawning : s.holder = .spawning)
    (back : s.worker = .suspended ∨ s.worker = .exited) :
    ∃ next, Spawn.step s .spawnReturn = some next := by
  rcases inv.phase with early | late | done
  · cases early <;> simp [Spawn.step,spawnReturn,Spawn.init] at spawning back ⊢
  · rcases late.holder with is | is | is | is <;> simp [spawning] at is
  · rcases done.holder with is | is | is | is <;> simp [spawning] at is

end Inv

/-- In every run the task's output is produced once and leaves the handle at most once; the
spawner's request is completed only if the task was suspended before; the cancel is run at most
once, before the task finishes; and the reference taken with `into_raw` is taken back and released
when the task finishes, once. The spawner never finds the task in a third state. -/
theorem spawn_hands_out {labels : List (Label ο)} (path : Path step anyStep (init ο) labels s) :
    (produced s.log).length ≤ 1 ∧ (given s.log).Sublist (produced s.log) ∧
    received s.log ++ s.handle.output.toList = given s.log ∧
    (∀ later output earlier, s.log = later ++ .requestCompleted output :: earlier →
      .suspended ∈ earlier) ∧
    (∀ later output earlier, s.log = later ++ .progressDone output :: earlier →
      .suspended ∉ earlier) ∧
    (∀ later earlier, s.log = later ++ .cancelRun :: earlier →
      produced earlier = [] ∧ .progressPending ∈ earlier ∧ .cancelRun ∉ earlier) ∧
    (∀ later earlier, s.log = later ++ .intoRaw :: earlier →
      produced earlier = [] ∧ .intoRaw ∉ earlier) ∧
    (∀ later earlier, s.log = later ++ .fromRaw :: earlier →
      .intoRaw ∈ earlier ∧ .fromRaw ∉ earlier ∧
      ∃ output before, earlier = .requestCompleted output :: .produced output :: before) ∧
    (∀ later earlier, s.log = later ++ .released :: earlier →
      .fromRaw ∈ earlier ∧ .released ∉ earlier) ∧
    (.intoRaw ∈ s.log ∧ .released ∉ s.log ∧ s.worker ≠ .exited ∧ s.strong = s.holder.count + 1 ∨
      (.intoRaw ∈ s.log → .released ∈ s.log) ∧ s.strong = s.holder.count) ∧
    (s.holder = .spawning → s.worker = .suspended ∨ s.worker = .exited →
      ∃ next, step s .spawnReturn = some next) := by
  have inv : Inv s := path.invariant Inv (fun _ _ _ inv _ stepped => inv.step stepped) .init
  have sound := inv.sound
  obtain ⟨once,sub,out⟩ := inv.outputs
  refine ⟨once,sub,out,?_,?_,?_,?_,?_,?_,inv.references,inv.returns⟩
  · exact fun later output earlier shape => (sound.split shape).1
  · intro later output earlier shape
    have fits : earlier = [.produced output] := sound.split shape
    simp [fits]
  · exact fun later earlier shape => sound.split shape
  · exact fun later earlier shape => sound.split shape
  · exact fun later earlier shape => sound.split shape
  · exact fun later earlier shape => sound.split shape

/-- A task is cancelled while its join waits, and finishes inside of that cancel. -/
theorem spawn_hands_out_canceled : ∃ s : State Nat,
    run step [.start,.suspend,.spawnReturn,.tryJoin,.joinCancel,.resume,.finish (.ok 7),
      .completeReturn,.dropJoin] (init Nat) = some s ∧
    received s.log = [.ok 7] ∧ s.strong = 0 ∧ (produced s.log).length ≤ 1 := by
  obtain ⟨s,ran,handed,freed⟩ : ∃ s, run step [.start,.suspend,.spawnReturn,.tryJoin,.joinCancel,
      .resume,.finish (.ok 7),.completeReturn,.dropJoin] (init Nat) = some s ∧
      received s.log = [.ok 7] ∧ s.strong = 0 := ⟨_,rfl,rfl,rfl⟩
  have path : Path step anyStep (init Nat) _ s := run_path (fun _ _ _ => trivial) ran
  exact ⟨s,ran,handed,freed,(spawn_hands_out path).1⟩

end XxCore.Coroutines.Spawn
