import Mathlib.Data.Set.Card
import XxCore.Sync.RawWaitListCount
import XxCore.Sync.WaitListWake

/-! The number that `wake_all` of `ThreadSafeWaitList` returns: it loads a counter of the waits,
which changes on its own while the lock is not held. -/
namespace XxCore.Sync.WaitList

open Transition

variable {θ ω α : Type}

/-- The counter of a wait is alive. -/
def Pc.inWait : Pc ω α → Bool
  | .suspendLock _ | .loadClosed _ | .storeEmpty _ | .shouldBlock _ | .dropEmpty _ | .unlockDone _ _
  | .append _ | .unlockPending _ | .parked _ | .subCount _ => true
  | _ => false

/-- The waits in progress. -/
noncomputable def waits (c : Config θ ω α) : Nat := {t | (c.locals t).inWait = true}.ncard

/-- The thread runs `wake_all` or `close`, or has returned from it. -/
def Pc.inWakeAll : Pc ω α → Prop
  | .storeClosed _ | .loadEmptyAll _ | .loadCount _ | .wakeAllLock _ _ | .popNext _ _
  | .completeNext _ _ _ | .unlockAll _ _ | .returned (.wakeAll _) => True
  | _ => False

/-- The number a `wake_all` has loaded. -/
def Pc.loaded : Pc ω α → Nat
  | .wakeAllLock _ n | .popNext _ n | .completeNext _ n _ | .unlockAll _ n
  | .returned (.wakeAll n) => n
  | _ => 0

/-- The waiters that a `wake_all` has still to complete. -/
def Pc.left (s : WaitList θ ω α) : Pc ω α → Nat
  | .popNext _ _ => s.list.length
  | .completeNext _ _ _ => s.list.length + 1
  | _ => 0

/-- The waits in progress when the thread loads the counter. -/
noncomputable def Pc.loads (c : Config θ ω α) : Pc ω α → Nat
  | .loadCount _ => waits c
  | _ => 0

/-- The waiters in the list when the thread takes the lock. -/
def Pc.finds (s : WaitList θ ω α) : Pc ω α → Nat
  | .wakeAllLock _ _ => s.list.length
  | _ => 0

/-- The thread completes a waiter with the value. -/
def Pc.gives (s : WaitList θ ω α) : Pc ω α → Label ω α → Nat
  | .completeNext _ _ _, .clone value => if s.list.isEmpty || value.isOk then 1 else 0
  | _, _ => 0

/-- The thread completes a waiter with the panic of cloning the value. -/
def Pc.panics (s : WaitList θ ω α) : Pc ω α → Label ω α → Nat
  | .completeNext _ _ _, .clone value => if s.list.isEmpty || value.isOk then 0 else 1
  | _, _ => 0

variable [DecidableEq θ] [DecidableEq ω]

/-- What a thread does in a step of the system; the others do nothing. -/
def own (t : θ) (weight : Config θ ω α → Pc ω α → Label ω α → Nat) (c : Config θ ω α)
    (label : θ × Label ω α) : Nat :=
  if label.1 = t then weight c (c.locals t) label.2 else 0

/-- How often a thread completes a waiter with the value along a run. -/
def given (t : θ) : Config θ ω α → List (θ × Label ω α) → Nat :=
  tally step (own t fun c => Pc.gives c.shared)

def panicked (t : θ) : Config θ ω α → List (θ × Label ω α) → Nat :=
  tally step (own t fun c => Pc.panics c.shared)

def found (t : θ) : Config θ ω α → List (θ × Label ω α) → Nat :=
  tally step (own t fun c pc _ => pc.finds c.shared)

noncomputable def counted (t : θ) : Config θ ω α → List (θ × Label ω α) → Nat :=
  tally step (own t fun c pc _ => pc.loads c)

/-- The counter is the number of the waits in progress. -/
def Counts (c : Config θ ω α) : Prop :=
  {t | (c.locals t).inWait = true}.Finite ∧ c.shared.count = waits c

theorem Step.count {t : θ} {s s' : WaitList θ ω α} {pc pc' : Pc ω α} {label : Label ω α}
    (step : Step t s pc label pc' s') :
    (s'.count = s.count ∧ pc'.inWait = pc.inWait) ∨
      (s'.count = s.count + 1 ∧ pc.inWait = false ∧ pc'.inWait = true) ∨
      (s'.count = s.count - 1 ∧ pc.inWait = true ∧ pc'.inWait = false) := by
  cases step with
  | wait free | cancel free | wakeOne free | wakeAll free | close free =>
    refine .inl ⟨rfl,?_⟩
    revert free
    cases ‹Pc ω α› <;> first | exact fun _ => rfl | exact nofun
  | addCount => exact .inr (.inl ⟨rfl,rfl,rfl⟩)
  | subCount => exact .inr (.inr ⟨rfl,rfl,rfl⟩)
  | _ => exact .inl ⟨rfl,rfl⟩

theorem counts_step {c next : Config θ ω α} {label : θ × Label ω α} (counts : Counts c)
    (stepped : step c label = some next) : Counts next := by
  rcases label with ⟨t,choice⟩
  obtain ⟨pc',s',ran,rfl⟩ := Threads.step_eq_some.mp stepped
  obtain ⟨finite,count⟩ := counts
  rcases (prog_step ran).count with ⟨same,stays⟩ | ⟨raised,before,after⟩ | ⟨lowered,before,after⟩
  · have set : {u | (Function.update c.locals t pc' u).inWait = true} =
        {u | (c.locals u).inWait = true} := by
      ext u
      by_cases mine : u = t
      · subst mine
        simp [stays]
      · simp [mine]
    rw [Counts,waits,set]
    exact ⟨finite,same.trans count⟩
  · have set : {u | (Function.update c.locals t pc' u).inWait = true} =
        insert t {u | (c.locals u).inWait = true} := by
      ext u
      by_cases mine : u = t
      · subst mine
        simp [after]
      · simp [mine]
    rw [Counts,waits,set]
    refine ⟨finite.insert t,?_⟩
    rw [Set.ncard_insert_of_notMem (by simp [before]) finite]
    exact raised.trans (congrArg (· + 1) count)
  · have set : {u | (Function.update c.locals t pc' u).inWait = true} =
        {u | (c.locals u).inWait = true} \ {t} := by
      ext u
      by_cases mine : u = t
      · subst mine
        simp [after]
      · simp [mine]
    rw [Counts,waits,set]
    refine ⟨finite.sdiff,?_⟩
    rw [Set.ncard_sdiff_singleton_of_mem (by simpa using before)]
    exact lowered.trans (congrArg (· - 1) count)

theorem init_counts : Counts (init : Config θ ω α) := by
  have none : {t : θ | ((init : Config θ ω α).locals t).inWait = true} = ∅ := by
    ext t
    simp [init,Pc.inWait]
  rw [Counts,waits,none]
  exact ⟨Set.finite_empty,by simp [init,new]⟩

theorem reachable_counts {labels : List (θ × Label ω α)} {c : Config θ ω α}
    (path : Path step anyStep init labels c) : Counts c :=
  path.invariant Counts (fun _ _ _ counts _ => counts_step counts) init_counts

/-- What the thread in `wake_all` has loaded and what it has still to complete. -/
theorem own_step {t : θ} {s s' : WaitList θ ω α} {pc pc' : Pc ω α} {label : Label ω α}
    {c : Config θ ω α} (count : s.count = waits c) (all : pc.inWakeAll)
    (quiet : ∀ call, label ≠ .call call) (step : Step t s pc label pc' s') :
    pc'.inWakeAll ∧ pc'.loaded = pc.loaded + pc.loads c ∧
      pc.left s + pc.finds s = pc'.left s' + (pc.gives s label + pc.panics s label) := by
  cases step with
  | wait | cancel | wakeOne | wakeAll | close => exact absurd rfl (quiet _)
  | storeClosed | isEmptyAll | notEmptyAll => exact ⟨trivial,rfl,rfl⟩
  | loadCount => exact ⟨trivial,by simp [Pc.loaded,Pc.loads,count],rfl⟩
  | wakeAllLock => exact ⟨trivial,rfl,by simp [Pc.left,Pc.finds,Pc.gives,Pc.panics]⟩
  | popLast list => exact ⟨trivial,rfl,by simp [Pc.left,Pc.finds,Pc.gives,Pc.panics,list]⟩
  | popNext list => exact ⟨trivial,rfl,by simp [Pc.left,Pc.finds,Pc.gives,Pc.panics,list]⟩
  | completeLast list => exact ⟨trivial,rfl,by simp [Pc.left,Pc.finds,Pc.gives,Pc.panics,list]⟩
  | @completeNext all n w value list =>
    refine ⟨trivial,rfl,?_⟩
    have more : s.list.isEmpty = false := by simpa using list
    cases value <;> simp [Pc.left,Pc.finds,Pc.gives,Pc.panics,more,resolve,Except.isOk,Except.toBool]
  | unlockAll => exact ⟨trivial,rfl,rfl⟩
  | _ => exact all.elim

/-- The list belongs to the thread in `wake_all` while there is something left for it. -/
theorem other_step {a : Phases θ ω α} {c : Config θ ω α} {t u : θ} {s' : WaitList θ ω α}
    {pc' : Pc ω α} {label : Label ω α} (base : outline.Holds a c) (ne : u ≠ t)
    (step : Step u c.shared (c.locals u) label pc' s') :
    (c.locals t).left s' = (c.locals t).left c.shared := by
  by_cases holds : c.shared.lock = some t
  · have outside : (c.locals u).critical = false := by
      by_contra inside
      have theirs := (base.2 u).lock.mpr (by simpa using inside)
      exact ne (Option.some.inj (theirs.symm.trans holds))
    generalize c.locals u = pc at step outside
    have list : s'.list = c.shared.list := by
      cases step with
      | append | unlink | popFront | popNext => simp [Pc.critical] at outside
      | _ => rfl
    cases c.locals t <;> simp [Pc.left,list]
  · have outside : (c.locals t).critical = false := by
      by_contra inside
      exact holds ((base.2 t).lock.mpr (by simpa using inside))
    revert outside
    cases c.locals t <;> simp [Pc.left,Pc.critical]

/-- A call of `wake_all` or `close` by a thread, from its first step to its return. -/
structure WakesAll (t : θ) (c c' : Config θ ω α) (labels : List (θ × Label ω α)) (n : Nat) : Prop where
  reachable : ∃ d before value, Path step anyStep init before d ∧
    (step d (t,.call (.wakeAll value)) = some c ∨ step d (t,.call (.close value)) = some c)
  runs : Path step (NoCall t) c labels c'
  returns : c'.locals t = .returned (.wakeAll n)

/-- What every step of the system keeps during a call. -/
structure Calling (t : θ) (c : Config θ ω α) : Prop where
  base : ∃ a, outline.Holds a c
  counts : Counts c
  calling : (c.locals t).inWakeAll

theorem Calling.step {t : θ} {c next : Config θ ω α} {label : θ × Label ω α}
    (calling : Calling t c) (quiet : NoCall t c label)
    (stepped : WaitList.step c label = some next) : Calling t next ∧
      (next.locals t).loaded = (c.locals t).loaded + own t (fun c pc _ => pc.loads c) c label ∧
      (c.locals t).left c.shared + own t (fun c pc _ => pc.finds c.shared) c label =
        (next.locals t).left next.shared + (own t (fun c => Pc.gives c.shared) c label +
          own t (fun c => Pc.panics c.shared) c label) := by
  have base := step_holds calling.base stepped
  have counts := counts_step calling.counts stepped
  rcases label with ⟨u,choice⟩
  obtain ⟨pc',s',ran,rfl⟩ := Threads.step_eq_some.mp stepped
  by_cases mine : u = t
  · subst mine
    obtain ⟨all,loaded,left⟩ := own_step calling.counts.2 calling.calling (quiet rfl)
      (prog_step ran)
    have at_ : Function.update c.locals u pc' u = pc' := Function.update_self ..
    refine ⟨⟨base,counts,?_⟩,?_,?_⟩
    · simpa [at_] using all
    · simpa [own,at_] using loaded
    · simpa [own,at_] using left
  · obtain ⟨a,holds⟩ := calling.base
    have at_ : Function.update c.locals u pc' t = c.locals t := Function.update_of_ne (Ne.symm mine) ..
    have left := other_step holds mine (prog_step ran)
    refine ⟨⟨base,counts,?_⟩,?_,?_⟩
    · simpa [at_] using calling.calling
    · simp [own,mine,at_]
    · simp [own,mine,at_,left]

/-- The number that a call returns is the one it loaded, and the list it found under the lock is
what it completed. -/
theorem wakes_counted {t : θ} {c c' : Config θ ω α} {labels : List (θ × Label ω α)} {n : Nat}
    (wakes : WakesAll t c c' labels n) : n = given t c labels ↔
      counted t c labels + panicked t c labels = found t c labels := by
  obtain ⟨⟨d,before,value,path,called⟩,runs,returns⟩ := wakes
  have start : Calling t c ∧ (c.locals t).loaded = 0 ∧ (c.locals t).left c.shared = 0 := by
    have base := reachable_holds path
    have counts := reachable_counts path
    have at_ : (c.locals t).inWakeAll ∧ (c.locals t).loaded = 0 ∧ (c.locals t).left c.shared = 0 := by
      rcases called with stepped | stepped
      all_goals
        obtain ⟨pc',s',ran,rfl⟩ := Threads.step_eq_some.mp stepped
        generalize d.locals t = pc at ran
        cases prog_step ran
        simp [Pc.inWakeAll,Pc.loaded,Pc.left]
    rcases called with stepped | stepped
    · exact ⟨⟨step_holds base stepped,counts_step counts stepped,at_.1⟩,at_.2⟩
    · exact ⟨⟨step_holds base stepped,counts_step counts stepped,at_.1⟩,at_.2⟩
  obtain ⟨calling,none,empty⟩ := start
  have loaded := runs.balance (Calling t) (fun c => (c.locals t).loaded)
    (own t fun c pc _ => pc.loads c) (fun _ _ => 0)
    (fun _ _ _ calling quiet stepped => by
      obtain ⟨kept,loaded,_⟩ := calling.step quiet stepped
      exact ⟨kept,loaded.symm⟩) calling
  have left := runs.balance (Calling t) (fun c => (c.locals t).left c.shared)
    (own t fun c pc _ => pc.finds c.shared)
    (fun c label => own t (fun c => Pc.gives c.shared) c label +
      own t (fun c => Pc.panics c.shared) c label)
    (fun _ _ _ calling quiet stepped => by
      obtain ⟨kept,_,left⟩ := calling.step quiet stepped
      exact ⟨kept,left⟩) calling
  simp only [none,returns,tally_zero] at loaded
  simp only [empty,returns,tally_add] at left
  change 0 + counted t c labels = n + 0 at loaded
  change 0 + found t c labels = 0 + (given t c labels + panicked t c labels) at left
  omega

/-- When `wake_all` returns the number of the waiters that it completed with the value. `RawWaitList`:
exactly if every wait that has not returned is parked when the call is made and nothing disturbs
the call. `ThreadSafeWaitList`: exactly if the waits in progress when it loads the counter are as
many as the waiters it finds once it has the lock, less those for which the clone panics. -/
theorem wake_all_counts {β γ : Type} {A : Type} [DecidableEq A] :
    (∀ (s called last final : RawWaitList.State A β) (later : List (RawWaitList.Label A β)),
      RawWaitList.WakesAll s called last final later → ∃ n,
        final.returned = last.returned ++ [.wakeAll n] ∧
        (n = (RawWaitList.given s.calls final.log).length ↔
          RawWaitList.Undisturbed s called last later)) ∧
    ∀ (t : θ) (c c' : Config θ ω γ) (labels : List (θ × Label ω γ)) (n : Nat),
      WakesAll t c c' labels n → (n = given t c labels ↔
        counted t c labels + panicked t c labels = found t c labels) :=
  ⟨fun _ _ _ _ _ wakes => RawWaitList.wakes_counted wakes,fun _ _ _ _ _ wakes => wakes_counted wakes⟩

/-- The calls of `RawWaitList` are checked against their contracts as they are run. -/
private def checked (s : RawWaitList.State Nat String) (l : RawWaitList.Label Nat String) : Bool :=
  decide (RawWaitList.Allowed s l)

private def runChecked : List (RawWaitList.Label Nat String) → RawWaitList.State Nat String →
    Option (RawWaitList.State Nat String) :=
  run fun s l => if checked s l then RawWaitList.step s l else none

private theorem runChecked_path {labels : List (RawWaitList.Label Nat String)}
    {s final : RawWaitList.State Nat String} (ran : runChecked labels s = some final) :
    Path RawWaitList.step RawWaitList.Allowed s labels final :=
  run_path_checked checked (fun _ _ => of_decide_eq_true) ran

/-- A `wake_all` with nothing to wake between its steps. -/
private def wakeAllTrace : List (Bool × Label Nat Unit) := List.replicate 5 (false,.next)

/-- A waiter that `wake_one` has completed is counted until its task goes on. -/
theorem wake_all_counts_completed :
    (∃ (s called last final : RawWaitList.State Nat String) (later : List (RawWaitList.Label Nat String)),
      RawWaitList.WakesAll s called last final later ∧
      final.returned = last.returned ++ [.wakeAll 1] ∧
      (RawWaitList.given s.calls final.log).length = 0) ∧
    ∃ (c c' : Config Bool Nat Unit) (labels : List (Bool × Label Nat Unit)),
      WakesAll false c c' labels 1 ∧ given false c labels = 0 := by
  constructor
  · obtain ⟨first,s,called,final,start,ran,allowed,call,returns,⟨frame,frames,shape,mine,gone⟩,
        number,nobody⟩ :
        ∃ first s called final, RawWaitList.init String 0 = some first ∧
          runChecked [.wait 1 false,.wakeOne "a"] first = some s ∧
          RawWaitList.Allowed s (.wakeAll 10 "b" false) ∧
          RawWaitList.step s (.wakeAll 10 "b" false) = some called ∧
          RawWaitList.step called (.next none) = some final ∧
          (∃ frame frames, called.frames = frame :: frames ∧ frame.call = s.calls ∧
            final.frames = frames) ∧
          final.returned = called.returned ++ [.wakeAll 1] ∧
          (RawWaitList.given s.calls final.log).length = 0 := by
      refine ⟨_,_,_,_,rfl,rfl,?_,rfl,rfl,⟨_,_,rfl,rfl,rfl⟩,rfl,rfl⟩
      decide
    exact ⟨s,called,called,final,[],⟨⟨0,first,_,start,runChecked_path ran⟩,
      ⟨10,"b",false,allowed,call⟩,.nil,frame,frames,none,shape,mine,returns,gone⟩,number,nobody⟩
  · obtain ⟨d,c,c',parked,called,ran,returns,nobody⟩ : ∃ d c c',
        run step (parkTrace ++ (false,.call (.wakeOne ())) :: wakeTrace) init = some d ∧
        step d (false,.call (.wakeAll ())) = some c ∧ run step wakeAllTrace c = some c' ∧
        c'.locals false = .returned (.wakeAll 1) ∧ given false c wakeAllTrace = 0 :=
      ⟨_,_,_,rfl,rfl,rfl,rfl,rfl⟩
    have runs : Path step (NoCall false) c wakeAllTrace c' :=
      run_path (fun _ l mem _ call => by simp [List.eq_of_mem_replicate mem]) ran
    exact ⟨c,c',_,⟨⟨d,_,(),run_path (fun _ _ _ => trivial) parked,.inl called⟩,runs,returns⟩,nobody⟩

/-- A parked waiter is counted and completed. -/
theorem wake_all_counts_parked :
    (∃ (s called last final : RawWaitList.State Nat String) (later : List (RawWaitList.Label Nat String)),
      final.returned = last.returned ++ [.wakeAll 1] ∧
      (RawWaitList.given s.calls final.log).length = 1 ∧
      RawWaitList.Undisturbed s called last later) ∧
    ∃ (c : Config Bool Nat Unit) (labels : List (Bool × Label Nat Unit)), given false c labels = 1 ∧
      counted false c labels + panicked false c labels = found false c labels := by
  obtain ⟨raw,safe⟩ := wake_all_counts (θ := Bool) (ω := Nat) (γ := Unit) (β := String) (A := Nat)
  constructor
  · obtain ⟨first,s,called,last,final,start,ran,allowed,call,turned,returns,
        ⟨frame,frames,shape,mine,gone⟩,number,once⟩ :
        ∃ first s called last final, RawWaitList.init String 0 = some first ∧
          runChecked [.wait 1 false] first = some s ∧
          RawWaitList.Allowed s (.wakeAll 10 "b" false) ∧
          RawWaitList.step s (.wakeAll 10 "b" false) = some called ∧
          runChecked [.next none] called = some last ∧
          RawWaitList.step last (.next none) = some final ∧
          (∃ frame frames, last.frames = frame :: frames ∧ frame.call = s.calls ∧
            final.frames = frames) ∧
          final.returned = last.returned ++ [.wakeAll 1] ∧
          (RawWaitList.given s.calls final.log).length = 1 := by
      refine ⟨_,_,_,_,_,rfl,rfl,?_,rfl,rfl,rfl,⟨_,_,rfl,rfl,rfl⟩,rfl,rfl⟩
      decide
    obtain ⟨n,returned,exactly⟩ := raw s called last final [.next none]
      ⟨⟨0,first,_,start,runChecked_path ran⟩,⟨10,"b",false,allowed,call⟩,runChecked_path turned,
        frame,frames,none,shape,mine,returns,gone⟩
    have same : n = 1 := by simpa [number] using returned.symm
    exact ⟨s,called,last,final,_,number,once,exactly.mp (same.trans once.symm)⟩
  · let labels : List (Bool × Label Nat Unit) :=
      List.replicate 4 (false,.next) ++ [(false,.clone (.ok ())),(false,.next)]
    obtain ⟨d,c,c',parked,called,ran,returns,once⟩ : ∃ d c c', run step parkTrace init = some d ∧
        step d (false,.call (.wakeAll ())) = some c ∧ run step labels c = some c' ∧
        c'.locals false = .returned (.wakeAll 1) ∧ given false c labels = 1 :=
      ⟨_,_,_,rfl,rfl,rfl,rfl,rfl⟩
    have quiet : ∀ l ∈ labels, ∀ call, l.2 ≠ .call call := by simp [labels]
    have runs : Path step (NoCall false) c labels c' :=
      run_path (fun _ l mem _ => quiet l mem) ran
    exact ⟨c,labels,once,(safe false c c' labels 1
      ⟨⟨d,_,(),run_path (fun _ _ _ => trivial) parked,.inl called⟩,runs,returns⟩).mp once.symm⟩

end XxCore.Sync.WaitList
