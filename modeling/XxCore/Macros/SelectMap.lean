import Mathlib.Data.List.Perm.Subperm
import XxCore.Coroutines.BranchWinner
import XxCore.Macros.Branch

/-! What the code that `select!` makes does with the result of its branches. -/
namespace XxCore.Macros

open Coroutines

variable {V : Type}

/-- The output of a future of `select!`: a task's result, or that of a branch. -/
inductive Output (V : Type) where
  | task (result : MaybePanic V)
  | branch (isFirst : Bool) (first second : Option (Except Panic (Output V)))

def Output.ofBranch (output : BranchOutput fun _ => Output V) : Output V :=
  .branch output.isFirst output.first output.second

/-- A result is assigned to `select_result`, or dropped. -/
inductive Event (V : Type) where
  | assigned (variant : Nat) (value : V)
  | discarded (value : V)
  deriving DecidableEq, Repr

/-- Why the code does not get to its end. Code of the wrong type does not compile. -/
inductive Stop where
  | abort (abort : Abort)
  | illTyped
  deriving DecidableEq, Repr

/-- What a piece of code has done, and where it stopped if it did not get to its end. -/
structure Run (V : Type) where
  log : List (Event V)
  stop : Option Stop
  deriving DecidableEq, Repr

/-- One piece of code after the other. -/
def Run.andThen (run next : Run V) : Run V :=
  match run.stop with
  | some _ => run
  | none => ⟨run.log ++ next.log,next.stop⟩

def Run.abort (abort : Abort) : Run V := ⟨[],some (.abort abort)⟩

def Run.illTyped : Run V := ⟨[],some .illTyped⟩

/-- `let other = result.map(runtime::join);`, and the code for `other`. -/
def mapJoin (result : Option (MaybePanic (Output V))) (code : Option (Output V) → Run V) : Run V :=
  match joinOption result with
  | .error abort => .abort abort
  | .ok other => code other

def Second.run : Second → Option (Output V) → Run V
  | _,none => ⟨[],none⟩
  | .join,some (.task result) =>
    match joinOption (some result) with
    | .error abort => .abort abort
    | .ok value => ⟨value.toList.map .discarded,none⟩
  | .branch secondA secondB,some (.branch _ other0 other1) =>
    (mapJoin other0 secondA.run).andThen (mapJoin other1 secondB.run)
  | _,some _ => .illTyped

def First.run : First → Output V → Run V
  | .assign variant,.task result =>
    match join result with
    | .error panic => .abort (.resumed panic)
    | .ok value => ⟨[.assigned variant value],none⟩
  | .select firstA secondB firstB secondA,.branch isFirst first second =>
    match Select.fromBranch (⟨isFirst,first,second⟩ : BranchOutput fun _ => Output V) with
    | .error abort => .abort abort
    | .ok (.first result other) => (firstA.run result).andThen (secondB.run other)
    | .ok (.second result other) => (firstB.run result).andThen (secondA.run other)
  | _,_ => .illTyped

/-- The result of a future that is finished and did not panic. -/
def finished {α : Type} : Option (MaybePanic α) → Option α
  | some (.ok value) => some value
  | _ => none

def panicOf {α : Type} : Option (MaybePanic α) → List Panic
  | some (.error panic) => [panic]
  | _ => []

namespace Tree

/-- The values of the tasks that are finished, from left to right. -/
def values : Tree → Output V → List V
  | .leaf _,.task result => (finished (some result)).toList
  | .node a b,.branch _ first second =>
    (finished first).elim [] a.values ++ (finished second).elim [] b.values
  | _,_ => []

/-- The panics of the tasks and the branches. -/
def panics : Tree → Output V → List Panic
  | .leaf _,.task result => panicOf (some result)
  | .node a b,.branch _ first second =>
    (panicOf first ++ (finished first).elim [] a.panics) ++
      (panicOf second ++ (finished second).elim [] b.panics)
  | _,_ => []

/-- The task that the flags lead to, with its value. -/
def winner : Tree → Output V → Option (Nat × V)
  | .leaf index,.task result => (finished (some result)).map (index,·)
  | .node a b,.branch isFirst first second =>
    if isFirst then (finished first).bind a.winner else (finished second).bind b.winner
  | _,_ => none

/-- An output of the future of this tree, if there is a result where the flags lead to. -/
def Fits : Tree → Output V → Prop
  | .leaf _,.task _ => True
  | .node a b,.branch isFirst first second =>
    BranchOutput.Winner (⟨isFirst,first,second⟩ : BranchOutput fun _ => Output V) ∧
      (finished first).elim True a.Fits ∧ (finished second).elim True b.Fits
  | _,_ => False

end Tree

/-- The outputs that the future of a tree can have: the branch machine hands them out in some run of
it, with outputs of the two futures in them. -/
inductive Produced (E : Type) : Tree → Output V → Prop where
  | leaf (index : Nat) (result : MaybePanic V) : Produced E (.leaf index) (.task result)
  | node {a b : Tree} {labels : List (Label (fun _ => Output V) E)}
      {w : World (fun _ => Output V) E} {yield : Yield fun _ => Output V}
      (path : Transition.Path (step selectCancel) Transition.anyStep World.init labels w)
      (handed : yield ∈ w.yields)
      (first : ∀ output, yield.output.first = some (.ok output) → Produced E a output)
      (second : ∀ output, yield.output.second = some (.ok output) → Produced E b output) :
      Produced E (.node a b) (.ofBranch yield.output)

variable {E : Type} {tree a b : Tree} {output : Output V}

theorem elim_finished {α : Type} {P : α → Prop} {result : Option (MaybePanic α)}
    (each : ∀ value, result = some (.ok value) → P value) : (finished result).elim True P := by
  match result with
  | none | some (.error panic) => trivial
  | some (.ok value) => exact each value rfl

theorem Produced.fits (produced : Produced E tree output) : tree.Fits output := by
  induction produced with
  | leaf index result => trivial
  | node path handed first second ihFirst ihSecond =>
    exact ⟨path_winners path _ handed,elim_finished ihFirst,elim_finished ihSecond⟩

/-- A loser's results are dropped from left to right, up to the first panic. -/
def Discards (values : List V) (panics : List Panic) (run : Run V) : Prop :=
  (panics = [] ∧ run = ⟨values.map .discarded,none⟩) ∨
    ∃ dropped panic, panic ∈ panics ∧ dropped <+: values ∧
      run = ⟨dropped.map .discarded,some (.abort (.resumed panic))⟩

theorem Discards.andThen {v₁ v₂ : List V} {p₁ p₂ : List Panic} {r₁ r₂ : Run V}
    (one : Discards v₁ p₁ r₁) (two : Discards v₂ p₂ r₂) :
    Discards (v₁ ++ v₂) (p₁ ++ p₂) (r₁.andThen r₂) := by
  rcases one with ⟨rfl,rfl⟩ | ⟨dropped,panic,mem,some,rfl⟩
  · rcases two with ⟨rfl,rfl⟩ | ⟨dropped,panic,mem,some,rfl⟩
    · exact .inl ⟨rfl,by simp [Run.andThen]⟩
    · refine .inr ⟨v₁ ++ dropped,panic,mem,?_,by simp [Run.andThen]⟩
      exact (List.prefix_append_right_inj v₁).mpr some
  · exact .inr ⟨dropped,panic,List.mem_append_left _ mem,some.trans (List.prefix_append _ _),rfl⟩

theorem none_discards (code : Second) : Discards ([] : List V) [] (code.run none) :=
  .inl ⟨rfl,by cases code <;> rfl⟩

theorem mapJoin_discards {result : Option (MaybePanic (Output V))} {code : Second}
    {values : Output V → List V} {panics : Output V → List Panic}
    (each : ∀ output, result = some (.ok output) →
      Discards (values output) (panics output) (code.run (some output))) :
    Discards ((finished result).elim [] values) (panicOf result ++ (finished result).elim [] panics)
      (mapJoin result code.run) := by
  match result with
  | none => exact none_discards code
  | some (.error panic) => exact .inr ⟨[],panic,List.mem_cons_self,List.prefix_rfl,rfl⟩
  | some (.ok output) => exact each output rfl

/-- The code for a loser fits the tree that it is for. -/
theorem second_discards (fits : tree.Fits output) :
    Discards (tree.values output) (tree.panics output) (tree.second.run (some output)) := by
  induction tree generalizing output with
  | leaf index =>
    match output with
    | .branch isFirst first second => exact fits.elim
    | .task (.error panic) => exact .inr ⟨[],panic,List.mem_cons_self,List.prefix_rfl,rfl⟩
    | .task (.ok value) => exact .inl ⟨rfl,rfl⟩
  | node a b ihA ihB =>
    match output with
    | .task result => exact fits.elim
    | .branch isFirst first second =>
      obtain ⟨_,fitsA,fitsB⟩ := fits
      refine (mapJoin_discards fun output same => ihA ?_).andThen
        (mapJoin_discards fun output same => ihB ?_)
      · simpa [same,finished] using fitsA
      · simpa [same,finished] using fitsB

/-- The winner's value is assigned first, and all others are dropped, up to the first panic. -/
def Assigns (winner : Option (Nat × V)) (values : List V) (panics : List Panic) (run : Run V) :
    Prop :=
  (panics = [] ∧ ∃ variant value others, winner = some (variant,value) ∧
    run = ⟨.assigned variant value :: others.map .discarded,none⟩ ∧
    (value :: others).Perm values) ∨
  ∃ panic ∈ panics, run.stop = some (.abort (.resumed panic)) ∧
    (run.log = [] ∨ ∃ variant value others, winner = some (variant,value) ∧
      run.log = .assigned variant value :: others.map .discarded ∧
      (value :: others).Subperm values)

theorem Assigns.abort {winner : Option (Nat × V)} {values : List V} {panics : List Panic}
    {panic : Panic} (mem : panic ∈ panics) : Assigns winner values panics (.abort (.resumed panic)) :=
  .inr ⟨panic,mem,rfl,.inl rfl⟩

theorem Assigns.andThen {winner : Option (Nat × V)} {v₁ v₂ : List V} {p₁ p₂ : List Panic}
    {r₁ r₂ : Run V} (one : Assigns winner v₁ p₁ r₁) (two : Discards v₂ p₂ r₂) :
    Assigns winner (v₁ ++ v₂) (p₁ ++ p₂) (r₁.andThen r₂) := by
  rcases one with ⟨rfl,variant,value,others,won,rfl,all⟩ | ⟨panic,mem,stop,log⟩
  · rcases two with ⟨rfl,rfl⟩ | ⟨dropped,panic,mem,some,rfl⟩
    · exact .inl ⟨rfl,variant,value,others ++ v₂,won,by simp [Run.andThen],all.append_right v₂⟩
    · refine .inr ⟨panic,mem,rfl,.inr ⟨variant,value,others ++ dropped,won,by simp [Run.andThen],?_⟩⟩
      exact (all.append_right dropped).subperm.trans (some.sublist.append_left v₁).subperm
  · have stopped : r₁.andThen r₂ = r₁ := by rw [Run.andThen,stop]
    rw [stopped]
    refine .inr ⟨panic,List.mem_append_left _ mem,stop,log.imp_right ?_⟩
    rintro ⟨variant,value,others,won,log,some⟩
    exact ⟨variant,value,others,won,log,some.trans (List.sublist_append_left v₁ v₂).subperm⟩

/-- The order of the two sides does not matter. -/
theorem Assigns.swap {winner : Option (Nat × V)} {v₁ v₂ : List V} {p₁ p₂ : List Panic} {run : Run V}
    (assigns : Assigns winner (v₁ ++ v₂) (p₁ ++ p₂) run) :
    Assigns winner (v₂ ++ v₁) (p₂ ++ p₁) run := by
  rcases assigns with ⟨none,variant,value,others,won,ran,all⟩ | ⟨panic,mem,stop,log⟩
  · obtain ⟨rfl,rfl⟩ := List.append_eq_nil_iff.mp none
    exact .inl ⟨rfl,variant,value,others,won,ran,all.trans List.perm_append_comm⟩
  · refine .inr ⟨panic,List.perm_append_comm.mem_iff.mp mem,stop,log.imp_right ?_⟩
    rintro ⟨variant,value,others,won,log,some⟩
    exact ⟨variant,value,others,won,log,some.trans List.perm_append_comm.subperm⟩

/-- The code for a winner fits the tree that it is for. -/
theorem first_assigns (fits : tree.Fits output) :
    Assigns (tree.winner output) (tree.values output) (tree.panics output)
      (tree.first.run output) := by
  induction tree generalizing output with
  | leaf index =>
    match output with
    | .branch isFirst first second => exact fits.elim
    | .task (.error panic) => exact .abort List.mem_cons_self
    | .task (.ok value) => exact .inl ⟨rfl,index,value,[],rfl,rfl,.refl _⟩
  | node a b ihA ihB =>
    match output with
    | .task result => exact fits.elim
    | .branch isFirst first second =>
      obtain ⟨winner,fitsA,fitsB⟩ := fits
      have okA : ∀ output, first = some (.ok output) → a.Fits output := by
        rintro output rfl
        exact fitsA
      have okB : ∀ output, second = some (.ok output) → b.Fits output := by
        rintro output rfl
        exact fitsB
      match first,second with
      | some (.error panic),second =>
        have code : (Tree.node a b).first.run (.branch isFirst (some (.error panic)) second) =
            .abort (.resumed panic) := rfl
        rw [code]
        exact .abort (List.mem_append_left _ List.mem_cons_self)
      | none,some (.error panic) =>
        exact .abort (List.mem_append_right _ List.mem_cons_self)
      | some (.ok result),some (.error panic) =>
        exact .abort (List.mem_append_right _ List.mem_cons_self)
      | none,none => cases isFirst <;> cases winner
      | none,some (.ok result) =>
        match isFirst,winner with
        | false,winner =>
          have code := (ihB (okB result rfl)).andThen (none_discards a.second)
          exact code.swap
      | some (.ok result),none =>
        match isFirst,winner with
        | true,winner =>
          exact (ihA (okA result rfl)).andThen (none_discards b.second)
      | some (.ok result),some (.ok other) =>
        match isFirst with
        | true => exact (ihA (okA result rfl)).andThen (second_discards (okB other rfl))
        | false =>
          have code := (ihB (okB other rfl)).andThen (second_discards (okA result rfl))
          exact code.swap

/-- The futures of `select!` become one expression with each task once and in its place, and the code
for its result does with every output that it can have what it should. -/
structure Selects (tasks : Nat) (expansion : Expansion) (tree : Tree) : Prop
    extends expansion.Of tasks tree where
  assigns : ∀ (V E : Type) (output : Output V), Produced E tree output →
    Assigns (tree.winner output) (tree.values output) (tree.panics output)
      (expansion.map.run output)

theorem select_exact (tasks : Nat) (two : 2 ≤ tasks) :
    ∃ expansion tree, branch tasks = some expansion ∧ Selects tasks expansion tree := by
  obtain ⟨expansion,tree,made,is⟩ := branch_of (Nat.lt_of_lt_of_le Nat.zero_lt_two two)
  refine ⟨expansion,tree,made,is,?_⟩
  intro V E output produced
  rw [is.map]
  exact first_assigns produced.fits

theorem select_exact_three : ∃ expansion tree, branch 3 = some expansion ∧ Selects 3 expansion tree :=
  select_exact 3 (by decide)

/-- The second task of three wins, and the third one was not started. -/
example :
    let inner : Output Nat := .branch false (some (.ok (.task (.ok 7)))) (some (.ok (.task (.ok 8))))
    let code : First :=
      .select (.select (.assign 0) .join (.assign 1) .join) .join (.assign 2) (.branch .join .join)
    code.run (.branch true (some (.ok inner)) none) = ⟨[.assigned 1 8,.discarded 7],none⟩ := rfl

end XxCore.Macros
