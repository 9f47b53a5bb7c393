import XxCore.Container.LinkedList

/-! The back of the intrusive list. `tail` and `pop_back` read the same pointer of the base as
`head` and `pop_front`, so they find the last node only where it is the first as well. -/
namespace XxCore.Container.LinkedList

open Links Transition

variable {α : Type} [DecidableEq α]

/-- The calls with `pop_back` among them. -/
inductive BackOp (α : Type) where
  | op (op : Op α)
  | popBack (list : α)
deriving DecidableEq, Repr

def execBack (h : Heap α) : BackOp α → Option (Heap α × Ptr α)
  | .op op => exec h op
  | .popBack list => popBack h list

/-- `pop_back` again and again. -/
def popBacks (h : Heap α) (list : α) : Nat → Option (Heap α × List (Ptr α))
  | 0 => some (h,[])
  | n + 1 => do
    let (h,out) ← popBack h list
    let (h,outs) ← popBacks h list n
    some (h,out :: outs)

/-- The effect of a call on the sequences. A `pop_back` takes the node that it returns out of its
list, wherever that stands. -/
inductive BackSpec : Family α → BackOp α × Ptr α → Family α → Prop where
  | op : Spec family (op,out) changed → BackSpec family (.op op,out) changed
  | popNone : family list = some [] → BackSpec family (.popBack list,none) family
  | popBack : family list = some (front ++ node :: back) →
      BackSpec family (.popBack list,some node) (Function.update family list (some (front ++ back)))

/-- The code makes the call, and the sequences follow what it returns. -/
def Runs (s : Heap α × Family α) (call : BackOp α × Ptr α) (next : Heap α × Family α) : Prop :=
  execBack s.1 call.1 = some (next.1,call.2) ∧ BackSpec s.2 call next.2

theorem runs_of {h h' : Heap α} {family changed : Family α} {op : BackOp α} {out : Ptr α}
    (done : execBack h op = some (h',out)) (spec : BackSpec family (op,out) changed) :
    Runs (h,family) (op,out) (h',changed) :=
  ⟨done,spec⟩

def appended : BackOp α × Ptr α → Option α
  | (.op (.append _ node),_) => some node
  | _ => none

/-- The node that was appended last among those that are still in the list. -/
def latest (appends members : List α) : Option α := appends.reverse.find? (· ∈ members)

/-- What `tail` and `pop_back` are to do. -/
structure TakesBack (h : Heap α) (family : Family α) (list : α) (members appends : List α) :
    Prop where
  tail : tail h list = some ((latest appends members).getD list)
  base : LinkedList.tail h list = some list ↔ members = []
  pop : match latest appends members with
    | none => popBack h list = some (h,none)
    | some node => ∃ next, popBack h list = some (next,some node) ∧
      Laid next (Function.update family list (some (members.erase node)))
  reversed : ∃ last, popBacks h list members.length = some (last,members.reverse.map some)

/-- The members of every list stand in the order of their last appends: of any of them, the one
that was appended last is the last one. -/
def Recent (appends : List α) (family : Family α) : Prop :=
  ∀ list members, family list = some members → ∀ some_ : List α, some_.Sublist members →
    latest appends some_ = some_.getLast?

section Order

variable {family : Family α} {appends members front back : List α} {list node : α}

omit [DecidableEq α] in
theorem eq_reverse_of_length_le_one (short : members.length ≤ 1) : members.reverse = members := by
  rcases members with _ | ⟨node,_ | ⟨other,rest⟩⟩
  · rfl
  · rfl
  · simp only [List.length_cons] at short
    omega

omit [DecidableEq α] in
/-- Only a list of at most one node begins with its last one. -/
theorem length_le_one_of_first_eq_last {rest : List α} (distinct : (node :: rest).Nodup)
    (last : (node :: rest).getLast? = some node) : (node :: rest).length ≤ 1 := by
  rcases List.eq_nil_or_concat rest with rfl | ⟨inner,other,rfl⟩
  · exact Nat.le_refl 1
  · rw [List.concat_eq_append] at distinct last
    rw [← List.cons_append,List.getLast?_concat] at last
    obtain rfl := Option.some.inj last
    simp at distinct

/-- Lists that lose members stay in order. -/
theorem Recent.shrink {shorter : List α} (recent : Recent appends family)
    (here : family list = some members) (sublist : shorter.Sublist members) :
    Recent appends (Function.update family list (some shorter)) := by
  intro other others there some_ within
  rw [Function.update_apply] at there
  split at there
  · obtain rfl := Option.some.inj there
    exact recent list members here some_ (within.trans sublist)
  · exact recent other others there some_ within

theorem Recent.append (recent : Recent appends family) (here : family list = some members)
    (free : Free family node) :
    Recent (appends ++ [node]) (Function.update family list (some (members ++ [node]))) := by
  have other {some_ : List α} (away : node ∉ some_) :
      latest (appends ++ [node]) some_ = latest appends some_ := by
    simp [latest,away]
  intro base others there some_ within
  rw [Function.update_apply] at there
  split at there
  · obtain rfl := Option.some.inj there
    obtain ⟨left,right,rfl,inside,last⟩ := List.sublist_append_iff.mp within
    rcases List.sublist_singleton.mp last with rfl | rfl
    · have away : node ∉ left ++ [] := by
        rw [List.append_nil]
        intro mem
        exact free list members here (List.mem_cons_of_mem _ (inside.subset mem))
      rw [other away]
      exact recent list members here _ (by rwa [List.append_nil])
    · simp [latest]
  · have away : node ∉ some_ := fun mem =>
      free base others there (List.mem_cons_of_mem _ (within.subset mem))
    rw [other away]
    exact recent base others there some_ within

/-- A call that appends nothing. -/
theorem Recent.keep {call : BackOp α × Ptr α} (none : appended call = none)
    (recent : Recent appends family) : Recent (appends ++ (appended call).toList) family := by
  rwa [none,Option.toList_none,List.append_nil]

theorem Recent.start (recent : Recent appends family) :
    Recent appends (Function.update family list (some [])) := by
  intro other others there some_ within
  rw [Function.update_apply] at there
  split at there
  · obtain rfl := Option.some.inj there
    obtain rfl := List.sublist_nil.mp within
    simp [latest]
  · exact recent other others there some_ within

theorem Recent.stop (recent : Recent appends family) :
    Recent appends (Function.update family list none) := by
  intro other others there some_ within
  rw [Function.update_apply] at there
  split at there
  · contradiction
  · exact recent other others there some_ within

theorem Recent.move {other : α} (recent : Recent appends family)
    (here : family list = some members) :
    Recent appends (Function.update family other (some members)) := by
  intro base others there some_ within
  rw [Function.update_apply] at there
  split at there
  · obtain rfl := Option.some.inj there
    exact recent list members here some_ within
  · exact recent base others there some_ within

theorem Recent.step {call : BackOp α × Ptr α} {changed : Family α}
    (recent : Recent appends family) (spec : BackSpec family call changed) :
    Recent (appends ++ (appended call).toList) changed := by
  have removed {list : α} {front back : List α} {node : α}
      (here : family list = some (front ++ node :: back)) :
      Recent appends (Function.update family list (some (front ++ back))) :=
    recent.shrink here ((List.Sublist.refl front).append (List.sublist_cons_self node back))
  cases spec with
  | op spec =>
    cases spec with
    | append here free => exact recent.append here free
    | new | popNone => exact recent.keep rfl
    | popFront here => exact (recent.shrink here (List.sublist_cons_self _ _)).keep rfl
    | unlink here | remove here => exact (removed here).keep rfl
    | reuse empty => exact recent.stop.keep rfl
    | pin free => exact recent.start.keep rfl
    | moveElements here empty => exact (recent.move here).start.keep rfl
  | popNone => exact recent.keep rfl
  | popBack here => exact (removed here).keep rfl

end Order

section Laid

variable {h h' : Heap α} {family changed : Family α} {members : List α} {list node : α}

theorem tail_spec (laid : Laid h family) (here : family list = some members) :
    tail h list = some (firstOr list members) :=
  head_spec laid here

theorem popBack_none (laid : Laid h family) (here : family list = some []) :
    popBack h list = some (h,none) := by
  rw [popBack_eq_popFront]
  exact popFront_none laid here

/-- The node at the front is taken. -/
theorem popBack_some (laid : Laid h family) (here : family list = some (node :: members)) :
    ∃ next, popBack h list = some (next,some node) ∧
      Laid next (Function.update family list (some members)) := by
  rw [popBack_eq_popFront]
  exact popFront_some laid here

/-- The nodes come from the front to the back. -/
theorem popBacks_spec (laid : Laid h family) (here : family list = some members) :
    ∃ last, popBacks h list members.length = some (last,members.map some) := by
  induction members generalizing h family with
  | nil => exact ⟨h,rfl⟩
  | cons node members ih =>
    obtain ⟨next,popped,laid⟩ := popBack_some laid here
    obtain ⟨last,rest⟩ := ih laid (Function.update_self ..)
    exact ⟨last,by simp [popBacks,popped,rest]⟩

theorem Runs.laid {call : BackOp α × Ptr α} (laid : Laid h family)
    (runs : Runs (h,family) call (h',changed)) : Laid h' changed := by
  obtain ⟨op,out⟩ := call
  obtain ⟨done,spec⟩ := runs
  cases spec with
  | op spec =>
    obtain ⟨next,executed,laid⟩ := exec_spec laid spec
    obtain ⟨rfl,_⟩ := Prod.mk.inj (Option.some.inj (executed.symm.trans done))
    exact laid
  | popNone empty =>
    obtain ⟨rfl,_⟩ := Prod.mk.inj (Option.some.inj ((popBack_none laid empty).symm.trans done))
    exact laid
  | @popBack front node back list here =>
    have distinct := (List.nodup_cons.mp (laid.distinct _ _ here)).2
    cases front with
    | nil =>
      obtain ⟨next,popped,laid⟩ := popBack_some laid here
      obtain ⟨rfl,_⟩ := Prod.mk.inj (Option.some.inj (popped.symm.trans done))
      exact laid
    | cons first front =>
      -- the node that is returned is the first one
      obtain ⟨next,popped,_⟩ := popBack_some laid here
      obtain ⟨_,same⟩ := Prod.mk.inj (Option.some.inj (popped.symm.trans done))
      obtain rfl := Option.some.inj same
      simp at distinct

theorem runs_holds {s final : Heap α × Family α} {calls : List (BackOp α × Ptr α)}
    {appends : List α} (laid : Laid s.1 s.2) (recent : Recent appends s.2)
    (run : Trace Runs s calls final) :
    Laid final.1 final.2 ∧ Recent (appends ++ calls.filterMap appended) final.2 := by
  induction run generalizing appends with
  | nil =>
    rw [List.filterMap_nil,List.append_nil]
    exact ⟨laid,recent⟩
  | @cons s call next rest final runs _ ih =>
    obtain ⟨laid,recent⟩ := ih (runs.laid laid) (recent.step runs.2)
    refine ⟨laid,?_⟩
    rw [List.append_assoc] at recent
    cases new : appended call
    all_goals
      rw [List.filterMap_cons,new]
      rw [new] at recent
      exact recent

/-- A call of `pop_back` on a list always goes through. -/
theorem popBack_runs (laid : Laid h family) (here : family list = some members) :
    ∃ out next, Runs (h,family) (.popBack list,out) next := by
  cases members with
  | nil => exact ⟨none,(h,family),popBack_none laid here,.popNone here⟩
  | cons node members =>
    obtain ⟨next,popped,_⟩ := popBack_some laid here
    have first : family list = some ([] ++ node :: members) := here
    exact ⟨some node,(next,_),popped,.popBack first⟩

/-- In every run `tail` and `pop_back` find the node that was appended last, and `pop_back` gives
the list from its back, exactly if the list has at most one node. -/
theorem takesBack_iff {calls : List (BackOp α × Ptr α)}
    (run : Trace Runs (Heap.null,fun _ => none) calls (h,family))
    (here : family list = some members) :
    TakesBack h family list members (calls.filterMap appended) ↔ members.length ≤ 1 := by
  have start : Recent ([] : List α) (fun _ => none) := fun _ _ here => by contradiction
  obtain ⟨laid,recent⟩ := runs_holds laid_null start run
  rw [List.nil_append] at recent
  have last := recent list members here members (List.Sublist.refl _)
  have distinct := laid.distinct _ _ here
  have head := tail_spec laid here
  constructor
  · intro takes
    have tail := takes.tail
    cases members with
    | nil => exact Nat.zero_le 1
    | cons node rest =>
      obtain ⟨other,is⟩ : ∃ other, (node :: rest).getLast? = some other :=
        ⟨_,List.getLast?_eq_some_getLast (List.cons_ne_nil _ _)⟩
      rw [head,last,is] at tail
      obtain rfl : node = other := Option.some.inj tail
      exact length_le_one_of_first_eq_last (List.nodup_cons.mp distinct).2 is
  · intro short
    obtain ⟨emptied,drained⟩ := popBacks_spec laid here
    have reversed := eq_reverse_of_length_le_one short
    rcases members with _ | ⟨node,_ | ⟨other,rest⟩⟩
    · have none : latest (calls.filterMap appended) [] = none := last
      refine ⟨?_,iff_of_true head rfl,?_,emptied,drained⟩
      · rw [none]
        exact head
      · rw [none]
        exact popBack_none laid here
    · have one : latest (calls.filterMap appended) [node] = some node := last
      obtain ⟨next,popped,laid⟩ := popBack_some laid here
      have other : list ≠ node := by simpa using distinct
      refine ⟨?_,?_,?_,emptied,drained⟩
      · rw [one]
        exact head
      · rw [head]
        exact iff_of_false (fun same => other (Option.some.inj same).symm) nofun
      · rw [one]
        refine ⟨next,popped,?_⟩
        rwa [List.erase_cons_head]
    · simp only [List.length_cons] at short
      omega

/-- The calls of `refines_sequences` are among these. -/
theorem exec_runs {op : Op α} {out : Ptr α} (laid : Laid h family)
    (spec : Spec family (op,out) changed) : ∃ next, Runs (h,family) (.op op,out) (next,changed) := by
  obtain ⟨next,done,_⟩ := exec_spec laid spec
  exact ⟨next,done,.op spec⟩

end Laid

/-- A list that two nodes are appended to; the second one is unlinked. -/
theorem takesBack_one : ∃ (h : Heap Nat) (family : Family Nat), family 0 = some [1] ∧
    tail h 0 = some 1 ∧ TakesBack h family 0 [1] [1,2] := by
  have here {family : Family Nat} (front back : List Nat) (node : Nat)
      (h : family 0 = some (front ++ node :: back)) : family 0 = some (front ++ node :: back) := h
  obtain ⟨h,family,members,run⟩ : ∃ (h : Heap Nat) (family : Family Nat), family 0 = some [1] ∧
      Trace Runs (Heap.null,fun _ => none) [(.op (.pin 0),none),(.op (.append 0 1),none),
        (.op (.append 0 2),none),(.op (.unlink 2),none)] (h,family) := by
    refine ⟨_,_,?_,.cons (runs_of rfl (.op (.pin ?_))) (.cons (runs_of rfl (.op (.append rfl ?_)))
      (.cons (runs_of rfl (.op (.append rfl ?_)))
        (.cons (runs_of rfl (.op (.unlink (here [1] [] 2 rfl)))) .nil)))⟩
    · rfl
    all_goals
      intro base members here
      simp only [Function.update_apply] at here
      grind
  have takes := (takesBack_iff run members).mpr (Nat.le_refl 1)
  exact ⟨h,family,members,takes.tail,takes⟩

/-- Of two nodes the first is the tail. -/
theorem not_always_takesBack : ¬ ∀ (calls : List (BackOp Nat × Ptr Nat)) (h : Heap Nat)
    (family : Family Nat) (list : Nat) (members : List Nat),
    Trace Runs (Heap.null,fun _ => none) calls (h,family) → family list = some members →
    TakesBack h family list members (calls.filterMap appended) := by
  intro always
  obtain ⟨h,family,members,first,run⟩ : ∃ (h : Heap Nat) (family : Family Nat),
      family 0 = some [1,2] ∧ tail h 0 = some 1 ∧ Trace Runs (Heap.null,fun _ => none)
        [(.op (.pin 0),none),(.op (.append 0 1),none),(.op (.append 0 2),none)] (h,family) := by
    refine ⟨_,_,?_,?_,.cons (runs_of rfl (.op (.pin ?_)))
      (.cons (runs_of rfl (.op (.append rfl ?_))) (.cons (runs_of rfl (.op (.append rfl ?_))) .nil))⟩
    · rfl
    · rfl
    all_goals
      intro base members here
      simp only [Function.update_apply] at here
      grind
  have last := (always _ h family 0 [1,2] run members).tail
  rw [first] at last
  contradiction

end XxCore.Container.LinkedList
