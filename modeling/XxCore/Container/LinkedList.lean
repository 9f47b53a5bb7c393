import XxCore.Lib.Links
import XxCore.Lib.Transition

/-! The intrusive linked list. A list is the address of its base node, and all nodes live in one
heap. `none` is a panic, or undefined behaviour: a null pointer that is followed, or an assumption
that does not hold. -/
namespace XxCore.Container.LinkedList

open Links Transition

/-- A pointer that may be null. -/
abbrev Ptr (α : Type) := Option α

variable {α : Type}

def assume (condition : Bool) : Option Unit := if condition then some () else none

@[simp] theorem assume_true : assume true = some () := rfl

/-! `Node`. -/

/-- Both pointers must be null, or neither. -/
def linked (h : Heap α) (node : α) : Option Bool := do
  assume ((h node).prev.isNone == (h node).next.isNone)
  some !(h node).prev.isNone

section Functions

variable [DecidableEq α]

/-- The outer option says whether the pointer is given, the inner one whether it is null. -/
def setPtrs (h : Heap α) (this : α) (prev next : Option (Ptr α)) : Option (Heap α) := do
  let h ← match prev with
    | some prev => do
      let h := setPrev h this prev
      let before ← prev
      some (setNext h before (some this))
    | none => some h
  match next with
  | some next => do
    let h := setNext h this next
    let after ← next
    some (setPrev h after (some this))
  | none => some h

def setCircular (h : Heap α) (this : α) : Option (Heap α) := setPtrs h this (some (some this)) none

/-- `Node::new`, written to an address. -/
def new (h : Heap α) (node : α) : Heap α := h.set node {}

def unlinkUnchecked (h : Heap α) (node : α) : Option (Heap α) := do
  assume (← linked h node)
  let prev := (h node).prev
  let next := (h node).next
  let h := setNext (setPrev h node none) node none
  let before ← prev
  let h := setNext h before next
  let after ← next
  some (setPrev h after prev)

def unlink (h : Heap α) (node : α) : Option (Heap α) := do
  -- the assertion
  if !(← linked h node) then none
  unlinkUnchecked h node

/-! `LinkedList`. -/

def head (h : Heap α) (list : α) : Option α := do
  let head ← (h list).next
  assume (← linked h head)
  some head

/-- This reads the base's `next`, as `head` does. -/
def tail (h : Heap α) (list : α) : Option α := do
  let tail ← (h list).next
  assume (← linked h tail)
  some tail

def isEmpty (h : Heap α) (list : α) : Option Bool := do
  some (list == (← head h list))

def remove (h : Heap α) (_list node : α) : Option (Heap α) := unlinkUnchecked h node

def popEdge (h : Heap α) (list node : α) : Option (Heap α × Ptr α) := do
  if !(← isEmpty h list) then
    let h ← remove h list node
    some (h,some node)
  else
    some (h,none)

def popFront (h : Heap α) (list : α) : Option (Heap α × Ptr α) := do
  popEdge h list (← head h list)

def popBack (h : Heap α) (list : α) : Option (Heap α × Ptr α) := do
  popEdge h list (← tail h list)

def append (h : Heap α) (list node : α) : Option (Heap α) :=
  setPtrs h node (some (h list).prev) (some (some list))

def moveElements (h : Heap α) (list other : α) : Option (Heap α) := do
  assume (← isEmpty h other)
  if ← isEmpty h list then
    some h
  else
    let prev := (h list).prev
    let next := (h list).next
    let h ← setPtrs h other (some prev) (some next)
    setCircular h list

def pin (h : Heap α) (list : α) : Option (Heap α) := setCircular h list

/-- The back is the front: the two ends are read from the same pointer. -/
theorem popBack_eq_popFront (h : Heap α) (list : α) : popBack h list = popFront h list := rfl

/-! One call. -/

inductive Op (α : Type) where
  | new (node : α)
  | pin (list : α)
  | append (list node : α)
  | popFront (list : α)
  | unlink (node : α)
  | remove (list node : α)
  | moveElements (list other : α)
deriving DecidableEq, Repr

/-- The heap after a call and the node it returns. -/
def exec (h : Heap α) : Op α → Option (Heap α × Ptr α)
  | .new node => some (new h node,none)
  | .pin list => (pin h list).map (·,none)
  | .append list node => (append h list node).map (·,none)
  | .popFront list => popFront h list
  | .unlink node => (unlink h node).map (·,none)
  | .remove list node => (remove h list node).map (·,none)
  | .moveElements list other => (moveElements h list other).map (·,none)

/-- The calls in order, and what each returned. -/
def perform (h : Heap α) : List (Op α) → Option (Heap α × List (Ptr α))
  | [] => some (h,[])
  | op :: ops => do
    let (h,out) ← exec h op
    let (h,outs) ← perform h ops
    some (h,out :: outs)

end Functions

/-! What the lists are for: each is a sequence of nodes. -/

/-- The effect of a call on the sequences, for the calls that the functions' contracts allow. -/
inductive Spec [DecidableEq α] : Family α → Op α × Ptr α → Family α → Prop where
  | new : Free family node → Spec family (.new node,none) family
  | reuse : family list = some [] →
      Spec family (.new list,none) (Function.update family list none)
  | pin : Free family list →
      Spec family (.pin list,none) (Function.update family list (some []))
  | append : family list = some members → Free family node →
      Spec family (.append list node,none) (Function.update family list (some (members ++ [node])))
  | popNone : family list = some [] → Spec family (.popFront list,none) family
  | popFront : family list = some (node :: members) →
      Spec family (.popFront list,some node) (Function.update family list (some members))
  | unlink : family list = some (front ++ node :: back) →
      Spec family (.unlink node,none) (Function.update family list (some (front ++ back)))
  | remove : family list = some (front ++ node :: back) →
      Spec family (.remove list node,none) (Function.update family list (some (front ++ back)))
  | moveElements : family list = some members → family other = some [] →
      Spec family (.moveElements list other,none)
        (Function.update (Function.update family other (some members)) list (some []))

/-! The functions on a heap that holds rings. -/

section Laid

variable [DecidableEq α] {h : Heap α} {family : Family α} {list other node : α}
  {members front back : List α}

/-- The assumption in `linked` holds everywhere, and it tells the free cells from the others. -/
theorem linked_free (laid : Laid h family) (free : Free family node) :
    linked h node = some false := by
  simp [linked,laid.null node free]

theorem linked_held (laid : Laid h family) (here : family list = some members)
    (mem : node ∈ list :: members) : linked h node = some true := by
  obtain ⟨p,q,before,after⟩ := (laid.ring _ _ here).mutual mem
  simp [linked,before.2,after.1]

theorem head_spec (laid : Laid h family) (here : family list = some members) :
    head h list = some (firstOr list members) := by
  simp [head,(laid.ring _ _ here).base_next,linked_held laid here firstOr_mem]

theorem isEmpty_spec (laid : Laid h family) (here : family list = some members) :
    isEmpty h list = some members.isEmpty := by
  have distinct := laid.distinct _ _ here
  cases members with
  | nil => simp [isEmpty,head_spec laid here,firstOr]
  | cons first rest =>
    simp only [List.nodup_cons,List.mem_cons,not_or] at distinct
    simp [isEmpty,head_spec laid here,firstOr,distinct.1.1]

theorem setCircular_eq (h : Heap α) (this : α) : setCircular h this = some (link h this this) := by
  simp only [setCircular,setPtrs,Option.bind_eq_bind,Option.bind_some]
  congr 1
  apply heap_ext <;> intro x <;> simp [link]

theorem pin_spec (laid : Laid h family) (free : Free family list) :
    ∃ next, pin h list = some next ∧ Laid next (Function.update family list (some [])) :=
  ⟨_,setCircular_eq h list,laid.start free⟩

/-- Both neighbours given and not null. -/
theorem setPtrs_eq (h : Heap α) (this before after : α) :
    setPtrs h this (some (some before)) (some (some after)) =
      some (link (link h before this) this after) := by
  simp only [setPtrs,Option.bind_eq_bind,Option.bind_some]
  congr 1
  apply heap_ext <;> intro x <;> simp [link]

theorem append_spec (laid : Laid h family) (here : family list = some members)
    (free : Free family node) :
    ∃ next, append h list node = some next ∧
      Laid next (Function.update family list (some (members ++ [node]))) := by
  have last := (laid.ring _ _ here).base_prev
  refine ⟨_,?_,laid.insert here free⟩
  rw [append,last,setPtrs_eq]

theorem replace_null (h : Heap α) (node : α) :
    setNext (setPrev h node none) node none = clear h node := by
  apply heap_ext <;> intro x <;> by_cases same : x = node <;>
    simp [clear,set_of_ne,same]

theorem unlinkUnchecked_spec (laid : Laid h family)
    (here : family list = some (front ++ node :: back)) :
    ∃ next, unlinkUnchecked h node = some next ∧
      Laid next (Function.update family list (some (front ++ back))) := by
  have held : linked h node = some true := linked_held laid here (by simp)
  obtain ⟨before,after⟩ := (laid.ring _ _ here).around
  refine ⟨_,?_,laid.delete here⟩
  simp only [unlinkUnchecked,held,before.2,after.1,Option.bind_eq_bind,Option.bind_some,assume_true,
    replace_null,link]

theorem unlink_spec (laid : Laid h family)
    (here : family list = some (front ++ node :: back)) :
    ∃ next, unlink h node = some next ∧
      Laid next (Function.update family list (some (front ++ back))) := by
  have held : linked h node = some true := linked_held laid here (by simp)
  obtain ⟨next,done,laid⟩ := unlinkUnchecked_spec laid here
  exact ⟨next,by simp [unlink,held,done],laid⟩

theorem popFront_none (laid : Laid h family) (here : family list = some []) :
    popFront h list = some (h,none) := by
  simp [popFront,popEdge,head_spec laid here,isEmpty_spec laid here]

theorem popFront_some (laid : Laid h family) (here : family list = some (node :: members)) :
    ∃ next, popFront h list = some (next,some node) ∧
      Laid next (Function.update family list (some members)) := by
  have first : family list = some ([] ++ node :: members) := here
  obtain ⟨next,done,laid'⟩ := unlinkUnchecked_spec laid first
  refine ⟨next,?_,laid'⟩
  simp [popFront,popEdge,remove,head_spec laid here,isEmpty_spec laid here,firstOr,done]

theorem moveElements_spec (laid : Laid h family) (here : family list = some members)
    (empty : family other = some []) :
    ∃ next, moveElements h list other = some next ∧
      Laid next (Function.update (Function.update family other (some members)) list (some [])) := by
  by_cases filled : members = []
  · subst filled
    refine ⟨h,by simp [moveElements,isEmpty_spec laid here,isEmpty_spec laid empty],?_⟩
    have same : Function.update family other (some []) = family :=
      Function.update_eq_self_iff.mpr empty.symm
    rwa [same,Function.update_eq_self_iff.mpr here.symm]
  · have prev := (laid.ring _ _ here).base_prev
    have next := (laid.ring _ _ here).base_next
    refine ⟨_,?_,laid.transfer here filled empty⟩
    simp [moveElements,isEmpty_spec laid here,isEmpty_spec laid empty,filled,prev,next,setPtrs_eq,
      setCircular_eq]

/-- A call that the contracts allow succeeds, returns what the sequences say, and leaves the heap
laid out as they say. -/
theorem exec_spec {op : Op α} {out : Ptr α} {changed : Family α} (laid : Laid h family)
    (spec : Spec family (op,out) changed) :
    ∃ next, exec h op = some (next,out) ∧ Laid next changed := by
  cases spec with
  | @new node free =>
    refine ⟨h,?_,laid⟩
    simp only [exec,new,← laid.null node free,set_eq_self]
  | reuse empty => exact ⟨_,rfl,laid.stop empty⟩
  | pin free =>
    obtain ⟨next,done,laid⟩ := pin_spec laid free
    exact ⟨next,by simp [exec,done],laid⟩
  | append here free =>
    obtain ⟨next,done,laid⟩ := append_spec laid here free
    exact ⟨next,by simp [exec,done],laid⟩
  | popNone empty => exact ⟨h,popFront_none laid empty,laid⟩
  | popFront here => exact popFront_some laid here
  | unlink here =>
    obtain ⟨next,done,laid⟩ := unlink_spec laid here
    exact ⟨next,by simp [exec,done],laid⟩
  | remove here =>
    obtain ⟨next,done,laid⟩ := unlinkUnchecked_spec laid here
    exact ⟨next,by simp [exec,remove,done],laid⟩
  | moveElements here empty =>
    obtain ⟨next,done,laid⟩ := moveElements_spec laid here empty
    exact ⟨next,by simp [exec,done],laid⟩

theorem perform_spec {calls : List (Op α × Ptr α)} {final : Family α} (laid : Laid h family)
    (trace : Trace Spec family calls final) :
    ∃ last, perform h (calls.map Prod.fst) = some (last,calls.map Prod.snd) ∧ Laid last final := by
  induction trace generalizing h with
  | nil => exact ⟨h,rfl,laid⟩
  | @cons _ call _ _ _ step _ ih =>
    obtain ⟨op,out⟩ := call
    obtain ⟨next,done,laid⟩ := exec_spec laid step
    obtain ⟨last,rest,laid⟩ := ih laid
    exact ⟨last,by simp [perform,done,rest],laid⟩

/-- From a heap of unlinked nodes, calls that keep to the contracts behave as on sequences. Every
list is then a ring through its base, the pointers of all nodes are mutually inverse, and a node
that is not a base is linked exactly when it is in one of the sequences, at one place. -/
theorem refines_sequences {calls : List (Op α × Ptr α)}
    (trace : Trace Spec (fun _ => none) calls family) :
    ∃ h, perform Heap.null (calls.map Prod.fst) = some (h,calls.map Prod.snd) ∧
      (∀ list members, family list = some members →
        Ring h list members ∧ (list :: members).Nodup ∧
        isEmpty h list = some members.isEmpty ∧ head h list = some (members.head?.getD list)) ∧
      (∀ a b, (h a).next = some b ↔ (h b).prev = some a) ∧
      (∀ a, (h a).next = none ↔ (h a).prev = none) ∧
      (∀ node list other members others, family list = some members → family other = some others →
        node ∈ members → node ∈ others → list = other) ∧
      ∀ node, family node = none → ∃ answer, linked h node = some answer ∧
        (answer = true ↔ ∃ list members, family list = some members ∧ node ∈ members) := by
  obtain ⟨h,done,laid⟩ := perform_spec laid_null trace
  refine ⟨h,done,?_,laid.inverse,laid.both_null,?_,?_⟩
  · intro list members here
    exact ⟨laid.ring _ _ here,laid.distinct _ _ here,isEmpty_spec laid here,head_spec laid here⟩
  · intro node list other members others here there mem mem'
    exact laid.apart _ _ _ _ node here there (by simp [mem]) (by simp [mem'])
  · intro node noBase
    rcases free_or_held family node with free | ⟨list,members,here,mem⟩
    · refine ⟨false,linked_free laid free,?_⟩
      simp only [Bool.false_eq_true,false_iff]
      rintro ⟨list,members,here,mem⟩
      exact free _ _ here (by simp [mem])
    · refine ⟨true,linked_held laid here mem,?_⟩
      simp only [true_iff]
      rcases List.mem_cons.mp mem with rfl | mem
      · simp [noBase] at here
      · exact ⟨list,members,here,mem⟩

/-- A node is taken out of the first of two lists, and the rest moves to the second. -/
theorem refines_sequences_moved : ∃ h : Heap Nat,
    perform Heap.null [.pin 0,.pin 1,.append 0 2,.append 0 3,.append 0 4,.unlink 3,
      .moveElements 0 1,.popFront 0,.popFront 1] =
        some (h,[none,none,none,none,none,none,none,none,some 2]) ∧
      head h 1 = some 4 := by
  have here {family : Family Nat} (list : Nat) (front back : List Nat) (node : Nat)
      (h : family list = some (front ++ node :: back)) : family list = some (front ++ node :: back) := h
  have trace : ∃ family : Family Nat, family 1 = some [4] ∧ Trace Spec (fun _ => none)
      [(.pin 0,none),(.pin 1,none),(.append 0 2,none),(.append 0 3,none),(.append 0 4,none),
        (.unlink 3,none),(.moveElements 0 1,none),(.popFront 0,none),(.popFront 1,some 2)] family := by
    refine ⟨_,?_,.cons (.pin ?_) (.cons (.pin ?_) (.cons (.append rfl ?_) (.cons (.append rfl ?_)
      (.cons (.append rfl ?_) (.cons (.unlink (here 0 [2] [4] 3 rfl))
        (.cons (.moveElements rfl rfl) (.cons (.popNone rfl) (.cons (.popFront rfl) .nil))))))))⟩
    · rfl
    all_goals
      intro base members here
      simp only [Function.update_apply] at here
      grind
  obtain ⟨family,one,trace⟩ := trace
  obtain ⟨h,done,lists,_⟩ := refines_sequences trace
  exact ⟨h,done,(lists 1 [4] one).2.2.2⟩

end Laid

end XxCore.Container.LinkedList
