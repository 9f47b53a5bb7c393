import Mathlib.Data.List.Nodup

/-! The loop of `macros/asynchronous/branch.rs` that pairs the futures of `select!`. -/
namespace XxCore.Macros

/-- `fut0`, or `Branch::run(ptr!(&mut *branch0))`. -/
inductive Expr where
  | fut (index : Nat)
  | run (branch : Nat)
  deriving DecidableEq, Repr

/-- The code that drops the result of a future that lost, which is in `other`. -/
inductive Second where
  /-- `let _ = other.map(runtime::join);` -/
  | join
  /-- `if let Some(BranchOutput(_, other0, other1)) = other { .. }` -/
  | branch (secondA secondB : Second)
  deriving DecidableEq, Repr

/-- The code for the result of a future that won, which is in `result`. -/
inductive First where
  /-- `select_result = XXInternalSelectResult::N0(runtime::join(result));` -/
  | assign (variant : Nat)
  /-- `match Select::from_branch(result) { .. }` -/
  | select (firstA : First) (secondB : Second) (firstB : First) (secondA : Second)
  deriving DecidableEq, Repr

/-- What is in the queue. -/
structure Entry where
  task : Expr
  first : First
  second : Second
  deriving DecidableEq, Repr

/-- `let mut branch0 = Branch::new(taskA, taskB, ..)`. -/
structure BranchVar where
  number : Nat
  taskA : Expr
  taskB : Expr
  deriving DecidableEq, Repr

/-- The variables of the loop. The front of the queue is the head of the list. -/
structure Builder where
  futures : List Entry
  branchVars : List BranchVar
  branchNumber : Nat
  deriving DecidableEq, Repr

namespace Builder

/-- The body of the inner loop; `none` is an `unwrap` of `None`. -/
def pair (s : Builder) : Option Builder :=
  match s.futures with
  | a :: b :: rest => some
    { futures := rest ++ [⟨.run s.branchNumber,.select a.first b.second b.first a.second,
        .branch a.second b.second⟩]
      branchVars := s.branchVars ++ [⟨s.branchNumber,a.task,b.task⟩]
      branchNumber := s.branchNumber + 1 }
  | _ => none

def pairs : Nat → Builder → Option Builder
  | 0,s => some s
  | k + 1,s => s.pair.bind (pairs k)

/-- The future that is left over goes behind the new ones. -/
def rotate (s : Builder) : Option Builder :=
  match s.futures with
  | fut :: rest => some { s with futures := rest ++ [fut] }
  | [] => none

/-- The body of the outer loop. -/
def round (s : Builder) : Option Builder :=
  (s.pairs (s.futures.length / 2)).bind fun paired =>
    if s.futures.length % 2 ≠ 0 then paired.rotate else some paired

variable {s next : Builder}

theorem length_pair (paired : s.pair = some next) :
    next.futures.length + 1 = s.futures.length := by
  unfold pair at paired
  split at paired
  · next a b rest shape =>
    obtain rfl := Option.some.inj paired
    simp [shape]
  · cases paired

theorem length_pairs {k : Nat} (paired : s.pairs k = some next) :
    next.futures.length + k = s.futures.length := by
  induction k generalizing s with
  | zero =>
    obtain rfl := Option.some.inj paired
    rfl
  | succ k ih =>
    obtain ⟨mid,one,rest⟩ := Option.bind_eq_some_iff.mp paired
    have first := length_pair one
    have others := ih rest
    omega

theorem length_rotate (rotated : s.rotate = some next) : next.futures.length = s.futures.length := by
  unfold rotate at rotated
  split at rotated
  · next fut rest shape =>
    obtain rfl := Option.some.inj rotated
    simp [shape]
  · cases rotated

theorem length_round (ran : s.round = some next) :
    next.futures.length + s.futures.length / 2 = s.futures.length := by
  obtain ⟨paired,pairs,rest⟩ := Option.bind_eq_some_iff.mp ran
  have same : next.futures.length = paired.futures.length := by
    split at rest
    · exact length_rotate rest
    · obtain rfl := Option.some.inj rest
      rfl
  rw [same]
  exact length_pairs pairs

/-- `while futures.len() >= 2`: a round halves the queue. -/
def loop (s : Builder) : Option Builder :=
  if _more : 2 ≤ s.futures.length then
    match _ran : s.round with
    | some next => loop next
    | none => none
  else some s
termination_by s.futures.length
decreasing_by
  have halved := length_round _ran
  omega

end Builder

/-- What the macro makes of the loop: the future that is waited for, the code for its result and the
branches before it. -/
structure Expansion where
  fut : Expr
  map : First
  branchVars : List BranchVar
  deriving DecidableEq, Repr

/-- The start of the loop, `Mode::Select`. -/
def leaves (tasks : Nat) : Builder where
  futures := (List.range tasks).map fun index => ⟨.fut index,.assign index,.join⟩
  branchVars := []
  branchNumber := 0

def branch (tasks : Nat) : Option Expansion :=
  (leaves tasks).loop.bind fun s => s.futures.head?.map fun entry =>
    ⟨entry.task,entry.first,s.branchVars⟩

/-- What an expression stands for when the branches in it are put in their places. -/
inductive Tree where
  | leaf (index : Nat)
  | node (a b : Tree)
  deriving DecidableEq, Repr

namespace Tree

/-- The tasks from left to right. -/
def leaves : Tree → List Nat
  | .leaf index => [index]
  | .node a b => a.leaves ++ b.leaves

def second : Tree → Second
  | .leaf _ => .join
  | .node a b => .branch a.second b.second

def first : Tree → First
  | .leaf index => .assign index
  | .node a b => .select a.first b.second b.first a.second

/-- Neighbours are paired, and a last one without a neighbour is left. -/
def pairUp : List Tree → List Tree
  | a :: b :: rest => .node a b :: pairUp rest
  | trees => trees

theorem leaves_pairUp (trees : List Tree) :
    (pairUp trees).flatMap leaves = trees.flatMap leaves := by
  fun_induction pairUp trees with
  | case1 a b rest ih => simp only [List.flatMap_cons,leaves,ih,List.append_assoc]
  | case2 trees => rfl

theorem length_pairUp (trees : List Tree) : (pairUp trees).length = (trees.length + 1) / 2 := by
  fun_induction pairUp trees with
  | case1 a b rest ih =>
    simp only [List.length_cons,ih]
    omega
  | case2 trees short =>
    match trees with
    | [] => rfl
    | [tree] => simp
    | a :: b :: rest => exact absurd rfl (short a b rest)

/-- A last one without a neighbour stays behind. -/
theorem pairUp_concat {k : Nat} {trees : List Tree} (even : trees.length = 2 * k) (last : Tree) :
    pairUp (trees ++ [last]) = pairUp trees ++ [last] := by
  induction k generalizing trees with
  | zero =>
    obtain rfl := List.length_eq_zero_iff.mp even
    rfl
  | succ k ih =>
    match trees,even with
    | a :: b :: rest,even =>
      have fewer : rest.length = 2 * k := by
        simp only [List.length_cons] at even
        omega
      exact congrArg (Tree.node a b :: ·) (ih fewer)

end Tree

/-- The expression stands for the tree. -/
inductive Denotes (vars : List BranchVar) : Expr → Tree → Prop where
  | fut (index : Nat) : Denotes vars (.fut index) (.leaf index)
  | run {number : Nat} {taskA taskB : Expr} {a b : Tree} (var : ⟨number,taskA,taskB⟩ ∈ vars)
      (first : Denotes vars taskA a) (second : Denotes vars taskB b) :
      Denotes vars (.run number) (.node a b)

variable {vars : List BranchVar} {task : Expr} {tree other : Tree}

theorem Denotes.append (denotes : Denotes vars task tree) (more : List BranchVar) :
    Denotes (vars ++ more) task tree := by
  induction denotes with
  | fut index => exact .fut index
  | run var first second ihFirst ihSecond =>
    exact .run (List.mem_append_left _ var) ihFirst ihSecond

/-- It stands for one tree if no two branches have the same number. -/
theorem Denotes.unique (once : (vars.map BranchVar.number).Nodup) (denotes : Denotes vars task tree)
    (also : Denotes vars task other) : other = tree := by
  induction denotes generalizing other with
  | fut index =>
    cases also
    rfl
  | run var first second ihFirst ihSecond =>
    cases also with
    | run var' first' second' =>
      have same := List.inj_on_of_nodup_map once var var' rfl
      obtain ⟨_,rfl,rfl⟩ := BranchVar.mk.inj same
      rw [ihFirst first',ihSecond second']

/-- The entry is for the tree, and so is its code. -/
structure For (vars : List BranchVar) (entry : Entry) (tree : Tree) : Prop where
  denotes : Denotes vars entry.task tree
  first : entry.first = tree.first
  second : entry.second = tree.second

/-- The queue is of these trees, and the branches are numbered. -/
structure Queued (s : Builder) (trees : List Tree) : Prop where
  futures : List.Forall₂ (For s.branchVars) s.futures trees
  numbers : s.branchVars.map BranchVar.number = List.range s.branchNumber

namespace Queued

variable {s : Builder} {a b : Tree} {trees front back : List Tree}

theorem pair (queued : Queued s (a :: b :: trees)) :
    ∃ next, s.pair = some next ∧ Queued next (trees ++ [.node a b]) := by
  obtain ⟨futures,vars,number⟩ := s
  obtain ⟨shape,numbers⟩ := queued
  cases shape with
  | @cons entryA _ _ _ isA more =>
    cases more with
    | @cons entryB _ rest _ isB others =>
      refine ⟨_,rfl,?_,?_⟩
      · have kept : List.Forall₂ (For (vars ++ [⟨number,entryA.task,entryB.task⟩])) rest trees :=
          others.imp fun entry tree is => ⟨is.denotes.append _,is.first,is.second⟩
        refine List.rel_append kept (.cons ⟨?_,?_,?_⟩ .nil)
        · exact .run (List.mem_append_right _ List.mem_cons_self) (isA.denotes.append _)
            (isB.denotes.append _)
        · rw [isA.first,isB.second,isB.first,isA.second,Tree.first]
        · rw [isA.second,isB.second,Tree.second]
      · simp only [List.map_append,List.map_cons,List.map_nil,List.range_succ]
        exact congrArg (· ++ [number]) numbers

theorem pairs {k : Nat} (queued : Queued s (front ++ back)) (even : front.length = 2 * k) :
    ∃ next, s.pairs k = some next ∧ Queued next (back ++ Tree.pairUp front) := by
  induction k generalizing s front back with
  | zero =>
    obtain rfl := List.length_eq_zero_iff.mp even
    exact ⟨s,rfl,by simpa [Tree.pairUp] using queued⟩
  | succ k ih =>
    match front,even with
    | a :: b :: front,even =>
      have fewer : front.length = 2 * k := by
        simp only [List.length_cons] at even
        omega
      have split : Queued s (a :: b :: (front ++ back)) := queued
      obtain ⟨mid,one,between⟩ := pair split
      rw [List.append_assoc] at between
      obtain ⟨next,rest,after⟩ := ih between fewer
      refine ⟨next,by rw [Builder.pairs,one]; exact rest,?_⟩
      simpa [Tree.pairUp] using after

theorem rotate {last : Tree} (queued : Queued s (last :: trees)) :
    ∃ next, s.rotate = some next ∧ Queued next (trees ++ [last]) := by
  obtain ⟨futures,vars,number⟩ := s
  obtain ⟨shape,numbers⟩ := queued
  cases shape with
  | cons is others =>
    exact ⟨_,rfl,List.rel_append others (.cons is .nil),numbers⟩

/-- A round pairs the trees in their order. -/
theorem round (queued : Queued s trees) :
    ∃ next, s.round = some next ∧ Queued next (Tree.pairUp trees) := by
  have length : s.futures.length = trees.length := queued.futures.length_eq
  rcases Nat.mod_two_eq_zero_or_one trees.length with even | odd
  · have whole : trees.length = 2 * (s.futures.length / 2) := by omega
    have split : Queued s (trees ++ []) := by simpa using queued
    obtain ⟨next,paired,after⟩ := pairs split whole
    refine ⟨next,?_,by simpa using after⟩
    rw [Builder.round,paired,Option.bind_some,if_neg (by omega)]
  · have nonempty : trees ≠ [] := by
      rintro rfl
      simp at odd
    obtain ⟨front,last,rfl⟩ : ∃ front last, trees = front ++ [last] :=
      ⟨_,_,(List.dropLast_append_getLast nonempty).symm⟩
    have whole : front.length = 2 * (s.futures.length / 2) := by
      simp only [List.length_append,List.length_singleton] at length odd
      omega
    obtain ⟨mid,paired,between⟩ := pairs queued whole
    obtain ⟨next,rotated,after⟩ := rotate between
    refine ⟨next,?_,?_⟩
    · rw [Builder.round,paired,Option.bind_some,if_pos (by omega)]
      exact rotated
    · rw [Tree.pairUp_concat whole]
      exact after

/-- The loop ends with one tree, of the same tasks in the same order. -/
theorem loop (queued : Queued s trees) (nonempty : trees ≠ []) :
    ∃ next tree, s.loop = some next ∧ Queued next [tree] ∧
      tree.leaves = trees.flatMap Tree.leaves := by
  fun_induction Builder.loop s generalizing trees with
  | case1 s more mid ran ih =>
    obtain ⟨next,also,paired⟩ := queued.round
    obtain rfl := Option.some.inj (ran.symm.trans also)
    have still : Tree.pairUp trees ≠ [] := by
      have length := Tree.length_pairUp trees
      rw [← queued.futures.length_eq] at length
      intro none
      rw [none,List.length_nil] at length
      omega
    obtain ⟨next,tree,looped,one,same⟩ := ih paired still
    exact ⟨next,tree,looped,one,same.trans (Tree.leaves_pairUp trees)⟩
  | case2 s more fails =>
    obtain ⟨next,ran,_⟩ := queued.round
    rw [fails] at ran
    cases ran
  | case3 s few =>
    match trees with
    | [tree] => exact ⟨s,tree,rfl,queued,by simp⟩
    | a :: b :: rest =>
      rw [queued.futures.length_eq] at few
      simp at few

end Queued

theorem leaves_queued (tasks : Nat) :
    Queued (leaves tasks) ((List.range tasks).map Tree.leaf) := by
  refine ⟨?_,rfl⟩
  rw [leaves,List.forall₂_map_left_iff,List.forall₂_map_right_iff,List.forall₂_same]
  intro index _
  exact ⟨.fut index,rfl,rfl⟩

/-- What the macro makes is for one tree, in which every task is once and in its place. -/
structure Expansion.Of (expansion : Expansion) (tasks : Nat) (tree : Tree) : Prop where
  fut : ∀ other, Denotes expansion.branchVars expansion.fut other ↔ other = tree
  map : expansion.map = tree.first
  leaves : tree.leaves = List.range tasks

theorem branch_of {tasks : Nat} (any : 0 < tasks) :
    ∃ expansion tree, branch tasks = some expansion ∧ expansion.Of tasks tree := by
  have nonempty : (List.range tasks).map Tree.leaf ≠ [] := by
    simp [Nat.ne_of_gt any]
  obtain ⟨s,tree,looped,one,same⟩ := (leaves_queued tasks).loop nonempty
  obtain ⟨futures,vars,number⟩ := s
  obtain ⟨shape,numbers⟩ := one
  cases shape with
  | @cons entry _ rest _ is none =>
    refine ⟨⟨entry.task,entry.first,vars⟩,tree,by rw [branch,looped]; rfl,?_,is.first,?_⟩
    · have once : (vars.map BranchVar.number).Nodup := by
        rw [numbers]
        exact List.nodup_range
      intro other
      constructor
      · intro also
        exact is.denotes.unique once also
      · rintro rfl
        exact is.denotes
    · simpa [List.flatMap_map,Tree.leaves] using same

example : branch 3 = some
    { fut := .run 1
      map := .select (.select (.assign 0) .join (.assign 1) .join) .join (.assign 2)
        (.branch .join .join)
      branchVars := [⟨0,.fut 0,.fut 1⟩,⟨1,.run 0,.fut 2⟩] } := by
  simp [branch,leaves,Builder.loop,Builder.round,Builder.pairs,Builder.pair,Builder.rotate,
    List.range_succ]

end XxCore.Macros
