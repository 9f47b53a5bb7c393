import XxCore.Error.Chain

/-! `downcast` of an error with any number of contexts: whose value it gives, and what is given up
with it. -/
namespace XxCore.Error

open Os

variable {τ C B O : Type} [ErrorTypes τ] [OsCode O]

/-- From one memory to the other, just these things are given up and the boxes at these addresses
are freed. -/
structure Consumed (memory next : Memory τ C B) (gone : List (Gone τ C B))
    (custom : List Address) : Prop where
  gone : next.gone = memory.gone ++ gone
  messages : next.messages = memory.messages
  freed : ∀ address ∈ custom, next.boxes.read address = none
  kept : ∀ address, address ∉ custom → next.boxes.read address = memory.boxes.read address

variable {memory mid next : Memory τ C B} {before after gone : List (Gone τ C B)}
  {first second : List Address} {custom : Address} {data : DynError τ C B}

theorem Consumed.refl (memory : Memory τ C B) : Consumed memory memory [] [] :=
  ⟨(List.append_nil _).symm,rfl,fun _ mem => absurd mem List.not_mem_nil,fun _ _ => rfl⟩

theorem Consumed.lose (memory : Memory τ C B) (gone : List (Gone τ C B)) :
    Consumed memory (memory.lose gone) gone [] :=
  ⟨rfl,rfl,fun _ mem => absurd mem List.not_mem_nil,fun _ _ => rfl⟩

theorem Consumed.trans (one : Consumed memory mid before first) (two : Consumed mid next after second) :
    Consumed memory next (before ++ after) (second ++ first) := by
  refine ⟨?_,two.messages.trans one.messages,?_,?_⟩
  · rw [two.gone,one.gone,List.append_assoc]
  · intro address mem
    by_cases again : address ∈ second
    · exact two.freed address again
    · have earlier := (List.mem_append.mp mem).resolve_left again
      rw [two.kept address again,one.freed address earlier]
  · intro address apart
    rw [List.mem_append,not_or] at apart
    rw [two.kept address apart.1,one.kept address apart.2]

theorem free_held (held : memory.boxes.read custom = some data) :
    ∃ next, memory.free custom = some next ∧ Consumed memory next [.freed custom] [custom] := by
  obtain ⟨boxes,freed,none,others⟩ := Boxes.free_of_read held
  refine ⟨{ memory.lose [.freed custom] with boxes },by rw [Memory.free,freed]; rfl,rfl,rfl,?_,?_⟩
  · intro address mem
    obtain rfl := List.mem_singleton.mp mem
    exact none
  · intro address apart
    exact others address fun same => apart (List.mem_singleton.mpr same)

theorem dropRest_held (held : memory.boxes.read custom = some data) :
    ∃ next, memory.dropRest custom = some next ∧
      Consumed memory next (data.rest ++ [.freed custom]) [custom] := by
  have lost := Consumed.lose memory data.rest
  have still : (memory.lose data.rest).boxes.read custom = some data := held
  obtain ⟨next,freed,consumed⟩ := free_held still
  refine ⟨next,?_,lost.trans consumed⟩
  rw [Memory.dropRest,held]
  exact freed

variable (root : Root τ B O)

/-- What is given up for the value of the root, in order: the innermost box is the first. -/
def Root.spent : List (Gone τ C B) :=
  match root with
  | .custom custom vtable data =>
    .moved data.type data.error :: ((DynError.custom vtable data).rest ++ [.freed custom])
  | _ => []

def spent : List (Layer C B) → List (Gone τ C B)
  | [] => root.spent
  | layer :: layers => spent layers ++ ((DynError.context layer.2).rest ++ [.freed layer.1])

/-- What is given up if the error is dropped. -/
def Root.dropped : List (Gone τ C B) :=
  match root with
  | .custom custom vtable data =>
    (DynError.custom vtable data).rest ++ [.error data.type data.error] ++ [.freed custom]
  | _ => []

def dropped : List (Layer C B) → List (Gone τ C B)
  | [] => root.dropped
  | layer :: layers => (DynError.context layer.2).rest ++ dropped layers ++ [.freed layer.1]

/-- All that the layers own: the backtrace if there is one, the context and the box. -/
def owned (layers : List (Layer C B)) : List (Gone τ C B) :=
  layers.flatMap fun layer =>
    layer.2.backtrace.toList.map .backtrace ++ [.context layer.2.context,.freed layer.1]

variable {root} {layers : List (Layer C B)} {depth : Nat}

theorem spent_perm : (spent root layers).Perm (owned layers ++ root.spent) := by
  induction layers with
  | nil => rfl
  | cons layer layers ih =>
    have layered : (DynError.context (τ := τ) layer.2).rest ++ [.freed layer.1] =
        layer.2.backtrace.toList.map .backtrace ++ [.context layer.2.context,.freed layer.1] := by
      simp [DynError.rest]
    rw [spent,layered,owned,List.flatMap_cons,List.append_assoc]
    exact List.perm_append_comm.trans (ih.append_left _)

section

variable [DecidableEq τ] {t : τ} {error : El t}

/-- The value of the root is moved out, and each box around it is dropped. -/
theorem downcastOwnedIn_stored (laid : Laid root memory layers) (deep : layers.length < depth)
    (stored : root.storedAs t = some error) :
    ∃ next, downcastOwnedIn O t memory depth (errorOf root layers) = some (next,some error) ∧
      Consumed memory next (spent root layers) (addresses root layers) := by
  induction laid generalizing depth with
  | root held =>
    obtain ⟨depth,rfl⟩ := Nat.exists_eq_succ_of_ne_zero (Nat.ne_zero_of_lt deep)
    cases root with
    | os code | simple kind | simpleMessage message kind => cases stored
    | custom custom vtable data =>
      have box : memory.boxes.read custom = some (.custom vtable data) := held
      by_cases same : data.type = t
      · obtain rfl := same
        obtain rfl : data.error = error := by simpa [Root.storedAs] using stored
        have lost := Consumed.lose memory [.moved data.type data.error]
        have still : (memory.lose [.moved data.type data.error]).boxes.read custom =
            some (.custom vtable data) := box
        obtain ⟨next,rest,consumed⟩ := dropRest_held still
        refine ⟨next,?_,lost.trans consumed⟩
        rw [errorOf,downcastOwnedIn,Repr.decode_new]
        simp only [Root.data,box,Option.bind_some,DynError.downcastOwned,dite_true,rest,
          Option.map_some]
      · rw [Root.storedAs,dif_neg same] at stored
        cases stored
  | @layer layer layers under held linked apart ih =>
    obtain ⟨depth,rfl⟩ := Nat.exists_eq_succ_of_ne_zero (Nat.ne_zero_of_lt deep)
    obtain ⟨mid,inner,before⟩ := ih (Nat.lt_of_succ_lt_succ deep)
    have still : mid.boxes.read layer.1 = some (.context layer.2) :=
      (before.kept layer.1 apart).trans held
    obtain ⟨next,rest,after⟩ := dropRest_held still
    refine ⟨next,?_,before.trans after⟩
    rw [downcastOwnedIn,decode_layer]
    simp only [held,Option.bind_some,DynError.downcastOwned,linked,inner,rest,Option.map_some]

/-- Nothing is touched. -/
theorem downcastOwnedIn_other (laid : Laid root memory layers) (deep : layers.length < depth)
    (other : root.storedAs t = none) :
    downcastOwnedIn O t memory depth (errorOf root layers) = some (memory,none) := by
  induction laid generalizing depth with
  | root held =>
    obtain ⟨depth,rfl⟩ := Nat.exists_eq_succ_of_ne_zero (Nat.ne_zero_of_lt deep)
    rw [errorOf,downcastOwnedIn,Repr.decode_new]
    cases root with
    | os code | simple kind | simpleMessage message kind => rfl
    | custom custom vtable data =>
      have box : memory.boxes.read custom = some (.custom vtable data) := held
      have apart : data.type ≠ t := by
        intro same
        simp [Root.storedAs,same] at other
      simp only [Root.data,box,Option.bind_some,DynError.downcastOwned,dif_neg apart]
  | @layer layer layers under held linked apart ih =>
    obtain ⟨depth,rfl⟩ := Nat.exists_eq_succ_of_ne_zero (Nat.ne_zero_of_lt deep)
    have inner := ih (Nat.lt_of_succ_lt_succ deep)
    rw [downcastOwnedIn,decode_layer]
    simp only [held,Option.bind_some,DynError.downcastOwned,linked,inner]

/-- The pointer is to the root, if its error is stored as a `t`. -/
theorem downcastPtrIn_laid (laid : Laid root memory layers) (deep : layers.length < depth) :
    downcastPtrIn O t memory depth (errorOf root layers) =
      some ((root.storedAs t).bind fun _ => root.address) := by
  induction laid generalizing depth with
  | root held =>
    obtain ⟨depth,rfl⟩ := Nat.exists_eq_succ_of_ne_zero (Nat.ne_zero_of_lt deep)
    rw [errorOf,downcastPtrIn,Repr.decode_new]
    cases root with
    | os code | simple kind | simpleMessage message kind => rfl
    | custom custom vtable data =>
      have box : memory.boxes.read custom = some (.custom vtable data) := held
      simp only [Root.data,box,Option.bind_some,DynError.downcastPtr,Root.storedAs]
      by_cases same : data.type = t
      · rw [if_pos same.symm,dif_pos same]
        rfl
      · rw [if_neg (Ne.symm same),dif_neg same]
        rfl
  | @layer layer layers under held linked apart ih =>
    obtain ⟨depth,rfl⟩ := Nat.exists_eq_succ_of_ne_zero (Nat.ne_zero_of_lt deep)
    rw [downcastPtrIn,decode_layer]
    simp only [held,Option.bind_some,DynError.downcastPtr,linked]
    exact ih (Nat.lt_of_succ_lt_succ deep)

theorem downcastRef_laid (laid : Laid root memory layers) :
    downcastRef O memory (errorOf root layers) t = some (root.storedAs t) := by
  rw [downcastRef,downcastPtrIn_laid laid laid.length_lt]
  cases stored : root.storedAs t with
  | none => rfl
  | some error =>
    cases root with
    | os code | simple kind | simpleMessage message kind => cases stored
    | custom custom vtable data =>
      have box : memory.boxes.read custom = some (.custom vtable data) := laid.root_held
      simp only [Root.address,Option.bind_some,asRef,box]
      exact congrArg (Option.map some) stored

end

/-- Dropping an error gives up each thing in it once. -/
theorem dropIn_laid (laid : Laid root memory layers) (deep : layers.length < depth) :
    ∃ next, dropIn O depth (errorOf root layers) memory = some next ∧
      Consumed memory next (dropped root layers) (addresses root layers) := by
  induction layers generalizing memory depth with
  | nil =>
    obtain ⟨depth,rfl⟩ := Nat.exists_eq_succ_of_ne_zero (Nat.ne_zero_of_lt deep)
    rw [errorOf,dropIn,Repr.decode_new]
    cases root with
    | os code | simple kind | simpleMessage message kind => exact ⟨memory,rfl,.refl memory⟩
    | custom custom vtable data =>
      have box : memory.boxes.read custom = some (.custom vtable data) := laid.root_held
      simp only [Root.data,box,Option.bind_some,DynError.drop]
      have lost := Consumed.lose memory
        ((DynError.custom vtable data).rest ++ [.error data.type data.error])
      have still : (memory.lose ((DynError.custom vtable data).rest ++
          [.error data.type data.error])).boxes.read custom = some (.custom vtable data) := box
      obtain ⟨next,freed,consumed⟩ := free_held still
      exact ⟨next,freed,lost.trans consumed⟩
  | cons layer layers ih =>
    obtain ⟨depth,rfl⟩ := Nat.exists_eq_succ_of_ne_zero (Nat.ne_zero_of_lt deep)
    cases laid with
    | layer under held linked apart =>
      have lost := Consumed.lose memory (DynError.context layer.2).rest
      have left : Laid root (memory.lose (DynError.context layer.2).rest) layers :=
        under.kept rfl fun _ _ => rfl
      obtain ⟨mid,inner,between⟩ := ih left (Nat.lt_of_succ_lt_succ deep)
      have still : mid.boxes.read layer.1 = some (.context layer.2) :=
        (between.kept layer.1 apart).trans held
      obtain ⟨next,freed,after⟩ := free_held still
      have all := (lost.trans between).trans after
      rw [List.append_nil] at all
      refine ⟨next,?_,all⟩
      rw [dropIn,decode_layer]
      simp only [held,Option.bind_some,DynError.drop,linked,inner,freed]

theorem drop_laid (laid : Laid root memory layers) :
    ∃ next, drop O memory (errorOf root layers) = some next ∧
      Consumed memory next (dropped root layers) (addresses root layers) :=
  dropIn_laid laid laid.length_lt

variable [DecidableEq τ]

theorem downcast_new (memory : Memory τ C B) (data : ErrorData O) (t : τ) :
    downcast O memory (Repr.new data) t =
      match downcastOwnedIn O t memory memory.depth (Repr.new data) with
      | none => none
      | some (memory,some error) => some (memory,.ok error)
      | some (memory,none) => some (memory,.error (Repr.new data)) := by
  rw [downcast,Repr.decode_new]
  cases data with
  | custom custom => rfl
  | os code | simple kind | simpleMessage message =>
    rw [Memory.depth,downcastOwnedIn,Repr.decode_new]

/-- What is owed to the caller of `downcast`. -/
structure Downcasts (memory : Memory τ C B) (root : Root τ B O) (layers : List (Layer C B)) (t : τ) :
    Prop where
  /-- The value of the root, as `downcast_ref` has it, for all that the error owned. -/
  stored : ∀ error, root.storedAs t = some error →
    downcastRef O memory (errorOf root layers) t = some (some error) ∧
    ∃ next gone, downcast O memory (errorOf root layers) t = some (next,.ok error) ∧
      Consumed memory next gone (addresses root layers) ∧ gone.Perm (owned layers ++ root.spent)
  /-- Or the same error, in the same memory. -/
  other : root.storedAs t = none →
    downcastRef O memory (errorOf root layers) t = some none ∧
    downcast O memory (errorOf root layers) t = some (memory,.error (errorOf root layers))
  /-- No two boxes of the error are one. -/
  boxes : (addresses root layers).Nodup

theorem downcast_laid (laid : Laid root memory layers) (t : τ) : Downcasts memory root layers t := by
  refine ⟨?_,?_,laid.addresses_nodup⟩
  · intro error stored
    refine ⟨by rw [downcastRef_laid laid,stored],?_⟩
    obtain ⟨next,moved,consumed⟩ := downcastOwnedIn_stored laid laid.length_lt stored
    refine ⟨next,spent root layers,?_,consumed,spent_perm⟩
    obtain ⟨data,word⟩ := errorOf_new root layers
    rw [word] at moved ⊢
    rw [downcast_new,moved]
  · intro other
    refine ⟨by rw [downcastRef_laid laid,other],?_⟩
    have kept := downcastOwnedIn_other laid laid.length_lt other
    obtain ⟨data,word⟩ := errorOf_new root layers
    rw [word] at kept ⊢
    rw [downcast_new,kept]

/-- Each thing that an error owns is moved out or dropped once if `downcast` gives its value, and none
is if it does not. -/
theorem downcast_exact (built : Built O memory root layers) (t : τ) :
    Downcasts memory root layers t :=
  downcast_laid built.laid t

/-- Two contexts over a custom root. -/
theorem downcast_exact_two :
    ∃ (memory : Memory Unit Nat Unit) (root : Root Unit Unit OsError) (layers : List (Layer Nat Unit)),
      layers.length = 2 ∧ root.storedAs () = some (7 : Nat) ∧ Downcasts memory root layers () := by
  let first : Address := ⟨0x10,by decide,by decide⟩
  let second : Address := ⟨0x20,by decide,by decide⟩
  let third : Address := ⟨0x30,by decide,by decide⟩
  let error : CustomError Unit Unit := ⟨none,(),(7 : Nat),.unit⟩
  let inner : ContextError Nat Unit := ⟨some (),1,.newCustom first⟩
  let outer : ContextError Nat Unit := ⟨none,2,.newCustom second⟩
  let root : Root Unit Unit OsError := .custom first .std error
  let zero : Memory Unit Nat Unit := ⟨⟨∅⟩,fun _ => none,[]⟩
  let one := { zero with boxes := ⟨zero.boxes.cells.insert first (.custom .std error)⟩ }
  let two := { zero with boxes := ⟨one.boxes.cells.insert second (.context inner)⟩ }
  let three := { zero with boxes := ⟨two.boxes.cells.insert third (.context outer)⟩ }
  have placed : zero.alloc first (CustomError.newDyn .std none (t := ()) (7 : Nat) .unit) =
      some one := rfl
  have made : Built OsError one root ([] : List (Layer Nat Unit)) := .custom placed
  have wrapped : context OsError one second (some ()) 1 (errorOf root ([] : List (Layer Nat Unit))) =
      some (two,.newCustom second) := by
    rw [context,ContextError.new,backtrace_laid made.laid]
    rfl
  have once : Built OsError two root [(second,inner)] := .context made wrapped rfl
  have again : context OsError two third (some ()) 2 (errorOf root [(second,inner)]) =
      some (three,.newCustom third) := by
    rw [context,ContextError.new,backtrace_laid once.laid]
    rfl
  exact ⟨three,root,_,rfl,rfl,downcast_exact (.context once again rfl) ()⟩

end XxCore.Error
