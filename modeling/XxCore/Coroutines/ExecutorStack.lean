import Mathlib.Data.List.Nodup
import XxCore.Coroutines.Executor

/-! The stack of workers over all runs of an executor. -/
namespace XxCore.Coroutines.Executor

open Transition

variable {α : Type} [DecidableEq α] {s next : State α} {calls : List α} {new : Option α} {w : α}

def fiberAt (s : State α) (a : α) : Option Nat := (s.mem a).map Worker.fiber

/-- The invariant: `calls` are the workers on the stack. A worker that is not among them has no
caller in a debug build and a stale one in a release build, unless it is `new`. -/
structure Linked (s : State α) (calls : List α) (new : Option α) : Prop where
  head : calls.head? = s.current
  last : calls.getLast? = some s.main
  nodup : calls.Nodup
  chain : calls.IsChain (Calls s)
  main : ∃ main, s.mem s.main = some main ∧ main.caller = none
  fibers : calls.map (fiberAt s) = s.stack.map some
  running : s.stack.head? = some s.running
  one : ∀ a b v u, s.mem a = some v → s.mem b = some u → v.fiber = u.fiber → a = b
  below : ∀ a v, s.mem a = some v → v.fiber < s.workers
  entering : ∀ a, s.entering = some a → s.current = some a ∧ a ≠ s.main
  apart : ∀ a v, s.mem a = some v → a ∉ calls → new ≠ some a →
    (v.caller = none ↔ s.build = .debug)
  left : ∀ made ∈ s.switches, made.this = made.running

namespace Linked

theorem init (build : Build) (main : α) : Linked (Executor.init build main) [main] none := by
  constructor
  · rfl
  · rfl
  · exact List.nodup_singleton main
  · exact .singleton main
  · exact ⟨⟨none,0⟩,by simp [Executor.init],rfl⟩
  · simp [fiberAt,Executor.init]
  · rfl
  · intro a b v u first second _
    have only : ∀ a v, (Executor.init build main).mem a = some v → a = main := by
      intro a v there
      by_contra other
      simp [Executor.init,other] at there
    exact (only a v first).trans (only b u second).symm
  · intro a v there
    by_cases same : a = main
    · simp only [Executor.init,same,Function.update_self,Option.some.injEq] at there
      subst there
      exact Nat.one_pos
    · simp [Executor.init,same] at there
  · simp [Executor.init]
  · intro a v there out _
    have other : a ≠ main := by simpa using out
    simp [Executor.init,other] at there
  · simp [Executor.init]

theorem disciplined (linked : Linked s calls new) : Disciplined s :=
  ⟨calls,linked.head,linked.last,linked.nodup,linked.chain,linked.main,linked.fibers,linked.running⟩

/-- A worker on the stack is live. -/
theorem live (linked : Linked s calls new) (mem : w ∈ calls) : ∃ v, s.mem w = some v ∧ v.fiber ∈ s.stack := by
  have inside : fiberAt s w ∈ s.stack.map some := linked.fibers ▸ List.mem_map_of_mem mem
  obtain ⟨fiber,onStack,same⟩ := List.mem_map.mp inside
  obtain ⟨v,there,rfl⟩ := Option.map_eq_some_iff.mp same.symm
  exact ⟨v,there,onStack⟩

/-- A live worker whose fiber is not on the stack is not on the stack. -/
theorem outside {v : Worker α} (linked : Linked s calls new) (there : s.mem w = some v)
    (out : v.fiber ∉ s.stack) : w ∉ calls := by
  intro mem
  obtain ⟨u,here,onStack⟩ := linked.live mem
  cases there.symm.trans here
  exact out onStack

/-- The innermost worker is the current one, and its fiber runs. -/
theorem top (linked : Linked s calls new) : ∃ a rest v, calls = a :: rest ∧ s.current = some a ∧
    s.mem a = some v ∧ v.fiber = s.running := by
  cases calls with
  | nil => exact absurd linked.last (by simp)
  | cons a rest =>
    obtain ⟨v,there,_⟩ := linked.live (List.mem_cons_self ..)
    refine ⟨a,rest,v,rfl,linked.head.symm,there,?_⟩
    have heads := congrArg List.head? linked.fibers
    rw [List.map_cons,List.head?_cons,List.head?_map,linked.running,fiberAt,there] at heads
    simpa using heads

/-- What stays when the caller of one live worker is written. -/
theorem rewrite {target : Worker α} {caller : Option α} (there : s.mem w = some target) {a : α}
    {v : Worker α}
    (here : Function.update s.mem w (some { target with caller }) a = some v) :
    ∃ u, s.mem a = some u ∧ u.fiber = v.fiber ∧ (a ≠ w → u = v) := by
  by_cases same : a = w
  · subst same
    rw [Function.update_self,Option.some.injEq] at here
    exact ⟨target,there,by rw [← here],fun other => absurd rfl other⟩
  · rw [Function.update_of_ne same] at here
    exact ⟨v,here,rfl,fun _ => rfl⟩

end Linked

omit [DecidableEq α] in
theorem assert_holds {condition : Bool} (holds : condition = true ∨ s.build = .release) :
    assertUnsafePrecondition s condition = some { s with undefined := s.undefined || !condition } := by
  cases condition with
  | true => simp [assertUnsafePrecondition]
  | false =>
    have release : s.build = .release := by simpa using holds
    simp [assertUnsafePrecondition,release]

namespace Linked

/-- Resuming a worker that is not on the stack. -/
theorem resume {target : Worker α} (linked : Linked s calls new) (there : s.mem w = some target)
    (out : w ∉ calls) (settled : s.entering = none) (made : new = none ∨ new = some w)
    (fresh : target.caller = none ∨ s.build = .release) :
    ∃ next, Executor.resume s w = some next ∧
      Linked { next with stack := target.fiber :: s.stack } (w :: calls) none ∧
      next.undefined = (s.undefined || target.caller.isSome) ∧ next.build = s.build ∧
      next.main = s.main ∧ next.workers = s.workers ∧ next.entering = s.entering := by
  obtain ⟨a,rest,v,rfl,current,here,first⟩ := linked.top
  have notTop : a ≠ w := fun same => out (by simp [same])
  have holds : target.caller.isNone = true ∨ s.build = .release := by simpa using fresh
  refine ⟨switch (set { s with
    current := some w
    undefined := s.undefined || !target.caller.isNone } w
      (some { target with caller := s.current })) s.running target.fiber,?_,?_,?_,rfl,rfl,rfl,rfl⟩
  · have kept : (set { s with current := some w, undefined := s.undefined || !target.caller.isNone } w
        (some { target with caller := s.current })).mem a = some v := by
      simp [set,notTop,here]
    have assumed := assert_holds (s := { s with current := some w }) holds
    simp only [Executor.resume,there,assumed,Option.bind_eq_bind,Option.bind_some,current] at kept ⊢
    rw [kept,Option.bind_some,first]
  · have kept : ∀ x ∈ a :: rest, Function.update s.mem w (some { target with caller := s.current }) x =
        s.mem x := fun x mem => Function.update_of_ne (fun (same : x = w) => out (same ▸ mem)) ..
    constructor
    · rfl
    · exact linked.last
    · exact List.nodup_cons.mpr ⟨out,linked.nodup⟩
    · apply List.isChain_cons_cons.mpr
      constructor
      · exact ⟨_,Function.update_self ..,current⟩
      · apply List.IsChain.imp_of_mem_imp _ linked.chain
        rintro x y inX _ ⟨u,at_,calls⟩
        exact ⟨u,(kept x inX).trans at_,calls⟩
    · obtain ⟨main,at_,none⟩ := linked.main
      exact ⟨main,(kept s.main (List.mem_of_getLast? linked.last)).trans at_,none⟩
    · have same : (a :: rest).map (fun x => (Function.update s.mem w
          (some { target with caller := s.current }) x).map Worker.fiber) = s.stack.map some := by
        rw [← linked.fibers]
        exact List.map_congr_left fun x mem => by rw [kept x mem,fiberAt]
      change (Function.update s.mem w _ w).map Worker.fiber :: (a :: rest).map _ = _
      rw [Function.update_self]
      exact congrArg (some target.fiber :: ·) same
    · rfl
    · intro x y v u atX atY same
      obtain ⟨v',before,fiber,_⟩ := rewrite there atX
      obtain ⟨u',before',fiber',_⟩ := rewrite there atY
      exact linked.one x y v' u' before before' (fiber.trans (same.trans fiber'.symm))
    · intro x v atX
      obtain ⟨v',before,fiber,_⟩ := rewrite there atX
      exact fiber ▸ linked.below x v' before
    · intro x is
      exact absurd (settled.symm.trans is) (by simp)
    · intro x v atX outside _
      simp only [List.mem_cons,not_or] at outside
      obtain ⟨v',before,_,same⟩ := rewrite there atX
      obtain rfl := same outside.1
      apply linked.apart x v' before (by simp [outside.2])
      rcases made with rfl | rfl
      · simp
      · simpa using Ne.symm outside.1
    · intro made mem
      rcases List.mem_cons.mp mem with rfl | mem
      · rfl
      · exact linked.left made mem
  · simp [switch,set]

/-- The worker that runs is the innermost one; it has a caller unless it is the main worker. -/
theorem runner (linked : Linked s calls new) (runs : Runs s w) : ∃ b rest v u, calls = w :: b :: rest ∧
    s.mem w = some v ∧ v.caller = some b ∧ v.fiber = s.running ∧ s.mem b = some u := by
  obtain ⟨a,rest,v,rfl,current,here,first⟩ := linked.top
  obtain ⟨v',there,fiber⟩ := Option.map_eq_some_iff.mp runs.2
  obtain rfl : a = w := linked.one a w v v' here there (first.trans fiber.symm)
  cases rest with
  | nil => exact absurd (by simpa using linked.last) runs.1
  | cons b rest =>
    obtain ⟨⟨v'',at_,calls⟩,_⟩ := List.isChain_cons_cons.mp linked.chain
    cases here.symm.trans at_
    obtain ⟨u,below,_⟩ := linked.live (show b ∈ a :: b :: rest by simp)
    exact ⟨b,rest,v,u,rfl,here,calls,first,below⟩

theorem caller_ne {b : α} {rest : List α} (linked : Linked s (w :: b :: rest) new) : b ≠ w := by
  have out := (List.nodup_cons.mp linked.nodup).1
  rintro rfl
  exact out List.mem_cons_self

/-- The innermost worker is left for its caller, and only its own place may change. -/
theorem leave {b : α} {rest : List α} {u : Worker α} {mem : α → Option (Worker α)}
    (linked : Linked s (w :: b :: rest) none) (below : s.mem b = some u) (settled : s.entering = none)
    (same : ∀ x, x ≠ w → mem x = s.mem x)
    (own : ∀ v, mem w = some v → (∃ before, s.mem w = some before ∧ before.fiber = v.fiber) ∧
      (v.caller = none ↔ s.build = .debug)) :
    Linked { s with
      current := some b
      mem
      running := u.fiber
      stack := s.stack.tail
      switches := ⟨s.running,u.fiber,s.running⟩ :: s.switches } (b :: rest) none := by
  obtain ⟨out,distinct⟩ := List.nodup_cons.mp linked.nodup
  have kept : ∀ x ∈ b :: rest, mem x = s.mem x := fun x inside =>
    same x fun (eq : x = w) => out (eq ▸ inside)
  have older : ∀ x v, mem x = some v → ∃ before, s.mem x = some before ∧ before.fiber = v.fiber := by
    intro x v at_
    by_cases eq : x = w
    · subst eq
      exact (own v at_).1
    · exact ⟨v,(same x eq).symm.trans at_,rfl⟩
  have tail : (b :: rest).map (fiberAt s) = s.stack.tail.map some := by
    have fibers := congrArg List.tail linked.fibers
    rwa [List.map_cons,List.tail_cons,← List.map_tail] at fibers
  constructor
  · rfl
  · simpa using linked.last
  · exact distinct
  · apply List.IsChain.imp_of_mem_imp _ (List.isChain_cons_cons.mp linked.chain).2
    rintro x y inX _ ⟨v,at_,calls⟩
    exact ⟨v,(kept x inX).trans at_,calls⟩
  · obtain ⟨main,at_,none⟩ := linked.main
    have inside : s.main ∈ b :: rest := List.mem_of_getLast? (by simpa using linked.last)
    exact ⟨main,(kept s.main inside).trans at_,none⟩
  · rw [← tail]
    exact List.map_congr_left fun x inside => congrArg (Option.map Worker.fiber) (kept x inside)
  · have head := congrArg List.head? tail
    rw [List.map_cons,List.head?_cons,List.head?_map,fiberAt,below] at head
    cases first : s.stack.tail.head? with
    | none => simp [first] at head
    | some f =>
      rw [first] at head
      simpa using head.symm
  · intro x y v u' atX atY eq
    obtain ⟨v',before,fiber⟩ := older x v atX
    obtain ⟨u'',before',fiber'⟩ := older y u' atY
    exact linked.one x y v' u'' before before' (fiber.trans (eq.trans fiber'.symm))
  · intro x v atX
    obtain ⟨v',before,fiber⟩ := older x v atX
    exact fiber ▸ linked.below x v' before
  · intro x is
    exact absurd (settled.symm.trans is) (by simp)
  · intro x v atX outside _
    by_cases eq : x = w
    · subst eq
      exact (own v atX).2
    · exact linked.apart x v ((same x eq).symm.trans atX) (by simpa [eq] using outside) (by simp)
  · intro made inside
    rcases List.mem_cons.mp inside with rfl | inside
    · rfl
    · exact linked.left made inside

theorem under {b : α} {rest : List α} {u : Worker α} (linked : Linked s (w :: b :: rest) new)
    (below : s.mem b = some u) : ∃ more, s.stack = s.running :: u.fiber :: more := by
  have fibers := linked.fibers
  have running := linked.running
  cases stack : s.stack with
  | nil => simp [stack] at fibers
  | cons f fs =>
    cases fs with
    | nil => simp [stack] at fibers
    | cons g more =>
      simp only [stack,List.map_cons,List.cons.injEq,fiberAt,below,Option.map_some] at fibers
      simp only [stack,List.head?_cons,Option.some.injEq] at running
      exact ⟨more,by rw [running,Option.some.inj fibers.2.1]⟩

theorem suspend (linked : Linked s calls none) (settled : s.entering = none) (runs : Runs s w) :
    ∃ next, step s (.suspend w) = some next ∧ (∃ calls', Linked next calls' none) ∧ Leaves s next ∧
      next.build = s.build := by
  obtain ⟨b,rest,v,u,rfl,here,caller,first,below⟩ := linked.runner runs
  obtain ⟨more,stack⟩ := linked.under below
  have notTop := linked.caller_ne
  cases build : s.build with
  | debug =>
    have run : Executor.suspend s w = some (switch { s with
        current := some b
        mem := Function.update s.mem w (some { v with caller := none }) } s.running u.fiber) := by
      simp [Executor.suspend,here,caller,assertUnsafePrecondition,build,set,notTop,below,first,switch]
    have stepped := congrArg (Option.map fun next => { next with stack := s.stack.tail }) run
    refine ⟨_,stepped,⟨b :: rest,?_⟩,⟨u.fiber,more,stack,congrArg List.tail stack,rfl,rfl,rfl⟩,build⟩
    apply linked.leave below settled
    · exact fun x other => Function.update_of_ne other ..
    · intro v' at_
      change Function.update s.mem w (some { v with caller := none }) w = some v' at at_
      rw [Function.update_self,Option.some.injEq] at at_
      subst at_
      exact ⟨⟨v,here,rfl⟩,by simp [build]⟩
  | release =>
    have run : Executor.suspend s w = some (switch { s with current := some b } s.running u.fiber) := by
      simp [Executor.suspend,here,caller,assertUnsafePrecondition,build,below,first,switch]
    have stepped := congrArg (Option.map fun next => { next with stack := s.stack.tail }) run
    refine ⟨_,stepped,⟨b :: rest,?_⟩,⟨u.fiber,more,stack,congrArg List.tail stack,rfl,rfl,rfl⟩,build⟩
    apply linked.leave below settled (fun _ _ => rfl)
    intro v' at_
    cases here.symm.trans at_
    exact ⟨⟨v,here,rfl⟩,by simp [build,caller]⟩

theorem exit (linked : Linked s calls none) (settled : s.entering = none) (runs : Runs s w) :
    ∃ next, step s (.exit w) = some next ∧ (∃ calls', Linked next calls' none) ∧ Leaves s next ∧
      next.build = s.build := by
  obtain ⟨b,rest,v,u,rfl,here,caller,first,below⟩ := linked.runner runs
  obtain ⟨more,stack⟩ := linked.under below
  have notTop := linked.caller_ne
  have run : Executor.exit s w = some (switch { s with
      current := some b
      mem := Function.update s.mem w none } s.running u.fiber) := by
    simp [Executor.exit,here,caller,assertUnsafePrecondition,set,notTop,below,first,switch]
  have stepped := congrArg (Option.map fun next => { next with stack := s.stack.tail }) run
  refine ⟨_,stepped,⟨b :: rest,?_⟩,⟨u.fiber,more,stack,congrArg List.tail stack,rfl,rfl,rfl⟩,rfl⟩
  apply linked.leave below settled
  · exact fun x other => Function.update_of_ne other ..
  · intro v' at_
    change Function.update s.mem w none w = some v' at at_
    rw [Function.update_self] at at_
    cases at_

/-- A new worker is made where there was none. -/
theorem made (linked : Linked s calls none) (unused : s.mem w = none) :
    Linked { set s w (some ⟨none,s.workers⟩) with workers := s.workers + 1 } calls (some w) := by
  have out : w ∉ calls := fun mem => by
    obtain ⟨v,there,_⟩ := linked.live mem
    simp [unused] at there
  have kept : ∀ x, x ≠ w → Function.update s.mem w (some ⟨none,s.workers⟩) x = s.mem x :=
    fun x other => Function.update_of_ne other ..
  have inside : ∀ x ∈ calls, x ≠ w := fun x mem same => out (same ▸ mem)
  have older : ∀ x v, Function.update s.mem w (some ⟨none,s.workers⟩) x = some v →
      (x = w ∧ v.fiber = s.workers) ∨ (x ≠ w ∧ s.mem x = some v ∧ v.fiber < s.workers) := by
    intro x v at_
    by_cases same : x = w
    · subst same
      rw [Function.update_self,Option.some.injEq] at at_
      exact .inl ⟨rfl,by rw [← at_]⟩
    · have before := (kept x same).symm.trans at_
      exact .inr ⟨same,before,linked.below x v before⟩
  constructor
  · exact linked.head
  · exact linked.last
  · exact linked.nodup
  · apply List.IsChain.imp_of_mem_imp _ linked.chain
    rintro x y inX _ ⟨v,at_,calls⟩
    exact ⟨v,(kept x (inside x inX)).trans at_,calls⟩
  · obtain ⟨main,at_,none⟩ := linked.main
    exact ⟨main,(kept s.main (inside s.main (List.mem_of_getLast? linked.last))).trans at_,none⟩
  · refine Eq.trans ?_ linked.fibers
    exact List.map_congr_left fun x mem => congrArg (Option.map Worker.fiber) (kept x (inside x mem))
  · exact linked.running
  · intro x y v u atX atY same
    rcases older x v atX with ⟨rfl,first⟩ | ⟨_,beforeX,smallX⟩ <;>
      rcases older y u atY with ⟨rfl,second⟩ | ⟨_,beforeY,smallY⟩
    · rfl
    · omega
    · omega
    · exact linked.one x y v u beforeX beforeY same
  · intro x v atX
    rcases older x v atX with ⟨_,is⟩ | ⟨_,_,small⟩
    · exact is ▸ Nat.lt_succ_self _
    · exact Nat.lt_succ_of_lt small
  · exact linked.entering
  · intro x v atX outside other
    rcases older x v atX with ⟨rfl,_⟩ | ⟨_,before,_⟩
    · exact absurd rfl other
    · exact linked.apart x v before outside (by simp)
  · exact linked.left

/-- A new worker is resumed at the place where it was made. -/
theorem start (linked : Linked s calls none) (settled : s.entering = none) (unused : s.mem w = none) :
    ∃ next, step s (.start w) = some next ∧ (∃ calls', Linked next calls' none) ∧
      next.build = s.build ∧ next.undefined = s.undefined := by
  have out : w ∉ calls := fun mem => by
    obtain ⟨v,there,_⟩ := linked.live mem
    simp [unused] at there
  have there : (set s w (some ⟨none,s.workers⟩)).mem w = some ⟨none,s.workers⟩ :=
    Function.update_self ..
  obtain ⟨next,run,after,undefined,build,main,_,_⟩ :=
    (linked.made unused).resume there out settled (.inr rfl) (.inl rfl)
  refine ⟨_,congrArg (Option.map _) run,⟨w :: calls,?_⟩,build,by simpa [set] using undefined⟩
  exact { after with
    entering := fun a is => by
      obtain rfl := Option.some.inj is
      have notMain : w ≠ s.main := fun same => out (same ▸ List.mem_of_getLast? linked.last)
      exact ⟨after.head.symm,main ▸ notMain⟩ }

/-- The worker that was started moves, and the stack with it. -/
theorem pinned {old : α} (linked : Linked s calls none) (entering : s.entering = some old)
    (unused : s.mem w = none) :
    ∃ next, step s (.pinned w) = some next ∧ (∃ calls', Linked next calls' none) ∧
      next.build = s.build ∧ next.undefined = s.undefined := by
  obtain ⟨a,rest,v,rfl,current,here,first⟩ := linked.top
  obtain ⟨isTop,notMain⟩ := linked.entering old entering
  obtain rfl : a = old := Option.some.inj (current.symm.trans isTop)
  have out : w ∉ a :: rest := fun mem => by
    obtain ⟨u,there,_⟩ := linked.live mem
    simp [unused] at there
  obtain ⟨aOut,distinct⟩ := List.nodup_cons.mp linked.nodup
  simp only [List.mem_cons,not_or] at out
  have run : step s (.pinned w) = some { s with
      mem := Function.update (Function.update s.mem a none) w (some v)
      current := some w
      entering := none } := by
    simp [step,Executor.pinned,entering,here,set]
  have kept : ∀ x ∈ rest, Function.update (Function.update s.mem a none) w (some v) x = s.mem x := by
    intro x mem
    rw [Function.update_of_ne (fun (same : x = w) => out.2 (same ▸ mem)),
      Function.update_of_ne (fun (same : x = a) => aOut (same ▸ mem))]
  have older : ∀ x u, Function.update (Function.update s.mem a none) w (some v) x = some u →
      ∃ y, s.mem y = some u ∧ ((x = w ∧ y = a) ∨ (x ≠ w ∧ x ≠ a ∧ y = x)) := by
    intro x u at_
    by_cases same : x = w
    · subst same
      rw [Function.update_self] at at_
      exact ⟨a,here.trans at_,.inl ⟨rfl,rfl⟩⟩
    · rw [Function.update_of_ne same] at at_
      by_cases gone : x = a
      · subst gone
        simp at at_
      · rw [Function.update_of_ne gone] at at_
        exact ⟨x,at_,.inr ⟨same,gone,rfl⟩⟩
  cases rest with
  | nil => exact absurd (by simpa using linked.last) notMain
  | cons b rest =>
    obtain ⟨⟨v',at_,caller⟩,others⟩ := List.isChain_cons_cons.mp linked.chain
    cases here.symm.trans at_
    refine ⟨_,run,⟨w :: b :: rest,?_⟩,rfl,rfl⟩
    constructor
    · rfl
    · simpa using linked.last
    · exact List.nodup_cons.mpr ⟨out.2,distinct⟩
    · apply List.isChain_cons_cons.mpr
      refine ⟨⟨v,Function.update_self ..,caller⟩,?_⟩
      apply List.IsChain.imp_of_mem_imp _ others
      rintro x y inX _ ⟨u,at_,calls⟩
      exact ⟨u,(kept x inX).trans at_,calls⟩
    · obtain ⟨main,at_,none⟩ := linked.main
      have inside : s.main ∈ b :: rest := List.mem_of_getLast? (by simpa using linked.last)
      exact ⟨main,(kept s.main inside).trans at_,none⟩
    · refine Eq.trans ?_ linked.fibers
      have moved : (Function.update (Function.update s.mem a none) w (some v) w).map Worker.fiber =
          fiberAt s a := by rw [Function.update_self,fiberAt,here]
      have same := List.map_congr_left (fun x mem => congrArg (Option.map Worker.fiber) (kept x mem))
      exact congrArg₂ List.cons moved same
    · exact linked.running
    · intro x y u u' atX atY eq
      obtain ⟨x',beforeX,casesX⟩ := older x u atX
      obtain ⟨y',beforeY,casesY⟩ := older y u' atY
      have same := linked.one x' y' u u' beforeX beforeY eq
      grind
    · intro x u atX
      obtain ⟨x',before,_⟩ := older x u atX
      exact linked.below x' u before
    · simp
    · intro x u atX outside _
      simp only [List.mem_cons,not_or] at outside
      obtain ⟨x',before,⟨same,_⟩ | ⟨_,notOld,rfl⟩⟩ := older x u atX
      · exact absurd same outside.1
      · exact linked.apart x' u before (by simp [notOld,outside.2]) (by simp)
    · exact linked.left

/-- Resuming a worker again is defined in debug builds only. -/
theorem again (linked : Linked s calls none) (allowed : Allowed s (.resume w)) :
    ∃ next, step s (.resume w) = some next ∧ (∃ calls', Linked next calls' none) ∧
      next.build = s.build ∧ next.undefined = (s.undefined || decide (s.build = .release)) := by
  obtain ⟨settled,target,there,offStack⟩ := allowed
  have out := linked.outside there offStack
  have apart := linked.apart w target there out (by simp)
  have fresh : target.caller = none ∨ s.build = .release := by
    cases build : s.build with
    | debug => exact .inl (apart.mpr build)
    | release => exact .inr rfl
  obtain ⟨next,run,after,undefined,build,_,_,_⟩ := linked.resume there out settled (.inl rfl) fresh
  have stepped : step s (.resume w) = some { next with stack := target.fiber :: s.stack } := by
    simp [step,there,run]
  refine ⟨_,stepped,⟨w :: calls,after⟩,build,undefined.trans ?_⟩
  congr 1
  cases is : s.build with
  | debug => simp [apart.mpr is]
  | release =>
    have stale : target.caller ≠ none := fun none => by simp [apart.mp none] at is
    simpa [Option.isSome_iff_ne_none] using stale

end Linked

/-- Every step that the contracts allow can be taken, and keeps the stack. -/
theorem step_spec {l : Label α} (linked : Linked s calls none) (allowed : Allowed s l) :
    ∃ next, step s l = some next ∧ (∃ calls', Linked next calls' none) ∧ next.build = s.build ∧
      next.undefined = (s.undefined || (isResume l && decide (s.build = .release))) := by
  cases l with
  | start w =>
    obtain ⟨next,stepped,kept,build,undefined⟩ := linked.start allowed.1 allowed.2
    exact ⟨next,stepped,kept,build,by simpa [isResume] using undefined⟩
  | pinned w =>
    obtain ⟨old,entering⟩ := Option.ne_none_iff_exists'.mp allowed.1
    obtain ⟨next,stepped,kept,build,undefined⟩ := linked.pinned entering allowed.2
    exact ⟨next,stepped,kept,build,by simpa [isResume] using undefined⟩
  | resume w => simpa [isResume] using linked.again allowed
  | suspend w =>
    obtain ⟨next,stepped,kept,⟨_,_,_,_,_,_,undefined⟩,build⟩ := linked.suspend allowed.1 allowed.2
    exact ⟨next,stepped,kept,build,by simpa [isResume] using undefined⟩
  | exit w =>
    obtain ⟨next,stepped,kept,⟨_,_,_,_,_,_,undefined⟩,build⟩ := linked.exit allowed.1 allowed.2
    exact ⟨next,stepped,kept,build,by simpa [isResume] using undefined⟩

/-- What a run keeps: the stack, and whether the behaviour is still defined. -/
theorem run_linked {labels : List (Label α)} (linked : Linked s calls none)
    (path : Path step Allowed s labels next) :
    (∃ calls', Linked next calls' none) ∧ next.build = s.build ∧
      next.undefined = (s.undefined || (labels.any isResume && decide (s.build = .release))) := by
  induction path generalizing calls with
  | nil => exact ⟨⟨calls,linked⟩,rfl,by simp⟩
  | cons allowed stepped _ ih =>
    obtain ⟨middle,done,⟨calls',kept⟩,build,undefined⟩ := step_spec linked allowed
    cases stepped.symm.trans done
    obtain ⟨last,sameBuild,after⟩ := ih kept
    refine ⟨last,sameBuild.trans build,?_⟩
    rw [after,undefined,build,List.any_cons,Bool.and_or_distrib_right,Bool.or_assoc]

/-- In every run the callers lead through the workers that resumed each other to the main worker, a
worker that suspends or exits is left for the one that resumed it last, every switch leaves from
the fiber that runs, and no step fails; all of it whatever the callers of suspended workers are.
The behaviour is defined in a run exactly if it is one of a debug build, or no worker is resumed
again after it was suspended: a release build leaves the caller that `resume` assumes to be null. -/
theorem stack_discipline {build : Build} {main : α} {labels : List (Label α)}
    (path : Path step Allowed (init build main) labels s) :
    (s.undefined = false ∧ Disciplined s ↔ build = .debug ∨ ∀ l ∈ labels, isResume l = false) ∧
    Disciplined s ∧ (∀ made ∈ s.switches, made.this = made.running) ∧
    (∀ l, Allowed s l → ∃ next, step s l = some next) ∧
    ∀ w next, Allowed s (.suspend w) ∧ step s (.suspend w) = some next ∨
      Allowed s (.exit w) ∧ step s (.exit w) = some next → Leaves s next := by
  obtain ⟨⟨calls,linked⟩,sameBuild,undefined⟩ := run_linked (.init build main) path
  have initially : (init build main : State α).undefined = false := rfl
  have sameBuild : s.build = build := sameBuild
  refine ⟨?_,linked.disciplined,linked.left,?_,?_⟩
  · rw [and_iff_left linked.disciplined,undefined,initially]
    cases build with
    | debug => simp [init]
    | release => simp [init]
  · intro l allowed
    obtain ⟨next,stepped,_⟩ := step_spec linked allowed
    exact ⟨next,stepped⟩
  · rintro w next (⟨⟨settled,runs⟩,stepped⟩ | ⟨⟨settled,runs⟩,stepped⟩)
    · obtain ⟨_,done,_,leaves,_⟩ := linked.suspend settled runs
      cases stepped.symm.trans done
      exact leaves
    · obtain ⟨_,done,_,leaves,_⟩ := linked.exit settled runs
      cases stepped.symm.trans done
      exact leaves

/-- A debug build: a worker starts, suspends, is resumed, starts another one and exits. -/
theorem stack_discipline_debug : ∃ s : State Nat, s.stack = [0] ∧ s.undefined = false ∧
    Disciplined s := by
  obtain ⟨s,path,stack⟩ : ∃ s, Path step Allowed (init .debug 0) [.start 1,.pinned 2,.suspend 2,
      .resume 2,.start 3,.pinned 4,.exit 4,.exit 2] s ∧ s.stack = [0] := by
    exact ⟨_,.cons ⟨rfl,rfl⟩ rfl (.cons ⟨by decide,rfl⟩ rfl (.cons ⟨rfl,by decide,rfl⟩ rfl
      (.cons ⟨rfl,_,rfl,by decide⟩ rfl (.cons ⟨rfl,rfl⟩ rfl (.cons ⟨by decide,rfl⟩ rfl
        (.cons ⟨rfl,by decide,rfl⟩ rfl (.cons ⟨rfl,by decide,rfl⟩ rfl .nil))))))),rfl⟩
  obtain ⟨defined,disciplined⟩ := (stack_discipline path).1.mpr (.inl rfl)
  exact ⟨s,stack,defined,disciplined⟩

/-- A release build, where a worker is resumed that was suspended before. -/
theorem stack_not_always_defined :
    ¬ ∀ (labels : List (Label Nat)) (s : State Nat),
      Path step Allowed (init .release 0) labels s → s.undefined = false ∧ Disciplined s := by
  intro always
  obtain ⟨s,path,undefined⟩ : ∃ s, Path step Allowed (init .release 0)
      [.start 1,.pinned 2,.suspend 2,.resume 2] s ∧ s.undefined = true := by
    exact ⟨_,.cons ⟨rfl,rfl⟩ rfl (.cons ⟨by decide,rfl⟩ rfl (.cons ⟨rfl,by decide,rfl⟩ rfl
      (.cons ⟨rfl,_,rfl,by decide⟩ rfl .nil))),rfl⟩
  exact absurd (always _ s path).1 (by simp [undefined])

end XxCore.Coroutines.Executor
