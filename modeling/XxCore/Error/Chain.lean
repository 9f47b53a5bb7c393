import XxCore.Error.Dyn

/-! An error as the layers of `Error::context` over a root, and what the functions of `Error` are of
it. -/
namespace XxCore.Error

open Os

variable {τ C B : Type} [ErrorTypes τ] (O : Type) [OsCode O]

/-- `CustomError::new_*`. A backtrace may be captured. -/
def CustomError.newDyn (vtable : Wrapper) (captured : Option B) {t : τ} (error : El t)
    (kind : CompactErrorKind) : DynError τ C B :=
  .custom vtable ⟨captured,t,error,kind⟩

/-- `ContextError::new_dyn`. -/
def ContextError.new (memory : Memory τ C B) (captured : Option B) (context : C) (error : Repr) :
    Option (ContextError C B) :=
  (XxCore.Error.backtrace O memory error).map fun backtrace =>
    ⟨if backtrace.isSome then none else captured,context,error⟩

/-- `Error::context`. -/
def context (memory : Memory τ C B) (custom : Address) (captured : Option B) (context : C)
    (error : Repr) : Option (Memory τ C B × Repr) :=
  (ContextError.new O memory captured context error).bind fun data =>
    (memory.alloc custom (.context data)).map (·,.newCustom custom)

/-- What is below all contexts, with the kind of the message or what is in the box. -/
inductive Root (τ B O : Type) [ErrorTypes τ] where
  | os (code : O)
  | simple (kind : ErrorKind)
  | simpleMessage (message : Address) (kind : ErrorKind)
  | custom (custom : Address) (vtable : Wrapper) (data : CustomError τ B)

namespace Root

variable {O} (root : Root τ B O)

def data : Root τ B O → ErrorData O
  | .os code => .os code
  | .simple kind => .simple kind
  | .simpleMessage message _ => .simpleMessage message
  | .custom address _ _ => .custom address

def kind : Root τ B O → ErrorKind
  | .os code => OsCode.kind code
  | .simple kind => kind
  | .simpleMessage _ kind => kind
  | .custom _ vtable data => data.kindOf vtable

def backtrace : Root τ B O → Option B
  | .custom _ _ data => data.backtrace
  | _ => none

def address : Root τ B O → Option Address
  | .custom address _ _ => some address
  | _ => none

def Held (memory : Memory τ C B) : Root τ B O → Prop
  | .simpleMessage message kind => memory.messages message = some kind
  | .custom address vtable data => memory.boxes.read address = some (.custom vtable data)
  | _ => True

variable [DecidableEq τ] (t : τ)

/-- The error, if it is a custom one stored as a `t`. -/
def storedAs : Root τ B O → Option (El t)
  | .custom _ _ data => if same : data.type = t then some (same ▸ data.error) else none
  | _ => none

end Root

abbrev Layer (C B : Type) := Address × ContextError C B

variable {O} (root : Root τ B O)

/-- The outermost layer is the first. -/
def errorOf : List (Layer C B) → Repr
  | [] => .new root.data
  | layer :: _ => .newCustom layer.1

theorem errorOf_new (layers : List (Layer C B)) : ∃ data : ErrorData O, errorOf root layers = .new data := by
  cases layers with
  | nil => exact ⟨root.data,rfl⟩
  | cons layer layers => exact ⟨.custom layer.1,rfl⟩

theorem decode_layer (layer : Layer C B) (layers : List (Layer C B)) :
    (errorOf root (layer :: layers)).decode (O := O) = some (.custom layer.1) :=
  Repr.decode_new (.custom layer.1)

def addresses (layers : List (Layer C B)) : List Address := layers.map Prod.fst ++ root.address.toList

/-- The memory holds the error, each layer in a box of its own. -/
inductive Laid (memory : Memory τ C B) : List (Layer C B) → Prop where
  | root (held : root.Held memory) : Laid memory []
  | layer {layer : Layer C B} {layers : List (Layer C B)} (under : Laid memory layers)
      (held : memory.boxes.read layer.1 = some (.context layer.2))
      (linked : layer.2.error = errorOf root layers)
      (apart : layer.1 ∉ addresses root layers) : Laid memory (layer :: layers)

variable {root} {memory next : Memory τ C B} {layers : List (Layer C B)} {depth : Nat}

theorem Root.address_held (held : root.Held memory) :
    ∀ custom ∈ root.address.toList, (memory.boxes.read custom).isSome := by
  intro custom mem
  cases root with
  | custom here vtable data =>
    obtain rfl : custom = here := by simpa [Root.address] using mem
    have box : memory.boxes.read custom = some (.custom vtable data) := held
    simp [box]
  | os code | simple kind | simpleMessage message kind => simp [Root.address] at mem

theorem Laid.root_held (laid : Laid root memory layers) : root.Held memory := by
  induction laid with
  | root held => exact held
  | layer under held linked apart ih => exact ih

theorem Laid.addresses_nodup (laid : Laid root memory layers) : (addresses root layers).Nodup := by
  induction laid with
  | root held => cases root <;> simp [addresses,Root.address]
  | layer under held linked apart ih => exact List.nodup_cons.mpr ⟨apart,ih⟩

theorem Laid.addresses_held (laid : Laid root memory layers) :
    ∀ custom ∈ addresses root layers, (memory.boxes.read custom).isSome := by
  induction laid with
  | root held => exact Root.address_held held
  | @layer layer layers under held linked apart ih =>
    intro custom mem
    rcases List.mem_cons.mp (show custom ∈ layer.1 :: addresses root layers from mem) with rfl | mem
    · simp [held]
    · exact ih custom mem

/-- The bound on the depth is never met. -/
theorem Laid.length_lt (laid : Laid root memory layers) : layers.length < memory.depth := by
  have boxes := Boxes.length_le_size laid.addresses_nodup laid.addresses_held
  rw [addresses,List.length_append,List.length_map] at boxes
  rw [Memory.depth]
  omega

/-- Other boxes may come and go. -/
theorem Laid.kept (laid : Laid root memory layers) (messages : next.messages = memory.messages)
    (boxes : ∀ custom ∈ addresses root layers, next.boxes.read custom = memory.boxes.read custom) :
    Laid root next layers := by
  induction laid with
  | root held =>
    refine .root ?_
    cases root with
    | os code | simple kind => trivial
    | simpleMessage message kind => exact (congrFun messages message).trans held
    | custom custom vtable data => exact (boxes custom (by simp [addresses,Root.address])).trans held
  | @layer layer layers under held linked apart ih =>
    refine .layer (ih ?_) ?_ linked apart
    · intro custom mem
      exact boxes custom (List.mem_cons_of_mem _ mem)
    · exact (boxes layer.1 List.mem_cons_self).trans held

theorem kindIn_laid (laid : Laid root memory layers) (deep : layers.length < depth) :
    kindIn O memory depth (errorOf root layers) = some root.kind := by
  induction laid generalizing depth with
  | root held =>
    obtain ⟨depth,rfl⟩ := Nat.exists_eq_succ_of_ne_zero (Nat.ne_zero_of_lt deep)
    rw [errorOf,kindIn,Repr.decode_new]
    cases root with
    | os code | simple kind => rfl
    | simpleMessage message kind => exact held
    | custom custom vtable data =>
      have box : memory.boxes.read custom = some (.custom vtable data) := held
      simp only [Root.data,box,Option.bind_some]
      rfl
  | @layer layer layers under held linked apart ih =>
    obtain ⟨depth,rfl⟩ := Nat.exists_eq_succ_of_ne_zero (Nat.ne_zero_of_lt deep)
    rw [kindIn,decode_layer]
    simp only [held,Option.bind_some,DynError.kind,linked]
    exact ih (Nat.lt_of_succ_lt_succ deep)

/-- Every layer has the kind of the root. -/
theorem kind_laid (laid : Laid root memory layers) :
    kind O memory (errorOf root layers) = some root.kind :=
  kindIn_laid laid laid.length_lt

/-- The backtrace of the outermost layer that has one, and else of the root. -/
theorem backtraceIn_laid (laid : Laid root memory layers) (deep : layers.length < depth) :
    backtraceIn O memory depth (errorOf root layers) =
      some ((layers.findSome? fun layer => layer.2.backtrace).or root.backtrace) := by
  induction laid generalizing depth with
  | root held =>
    obtain ⟨depth,rfl⟩ := Nat.exists_eq_succ_of_ne_zero (Nat.ne_zero_of_lt deep)
    rw [errorOf,backtraceIn,Repr.decode_new]
    cases root with
    | os code | simple kind | simpleMessage message kind => rfl
    | custom custom vtable data =>
      have box : memory.boxes.read custom = some (.custom vtable data) := held
      simp only [Root.data,box,Option.bind_some]
      rfl
  | @layer layer layers under held linked apart ih =>
    obtain ⟨depth,rfl⟩ := Nat.exists_eq_succ_of_ne_zero (Nat.ne_zero_of_lt deep)
    rw [backtraceIn,decode_layer]
    simp only [held,Option.bind_some,DynError.backtrace,linked]
    cases own : layer.2.backtrace with
    | some backtrace => simp [own]
    | none =>
      simp only [List.findSome?_cons,own]
      exact ih (Nat.lt_of_succ_lt_succ deep)

theorem backtrace_laid (laid : Laid root memory layers) :
    backtrace O memory (errorOf root layers) =
      some ((layers.findSome? fun layer => layer.2.backtrace).or root.backtrace) :=
  backtraceIn_laid laid laid.length_lt

theorem Laid.alloc (laid : Laid root memory layers) {custom : Address} {data : DynError τ C B}
    (made : memory.alloc custom data = some next) :
    Laid root next layers ∧ custom ∉ addresses root layers ∧ next.boxes.read custom = some data := by
  obtain ⟨boxes,placed,rfl⟩ := Option.map_eq_some_iff.mp made
  have fresh := Boxes.read_of_alloc placed
  have apart : custom ∉ addresses root layers := by
    intro mem
    have held := laid.addresses_held custom mem
    simp [fresh] at held
  refine ⟨laid.kept rfl ?_,apart,Boxes.read_alloc placed⟩
  intro other mem
  refine Boxes.read_alloc_ne placed ?_
  rintro rfl
  exact apart mem

/-- A context is a layer more. -/
theorem Laid.context (laid : Laid root memory layers) {custom : Address} {captured : Option B}
    {context : C} {error : Repr}
    (made : XxCore.Error.context O memory custom captured context (errorOf root layers) =
      some (next,error)) :
    ∃ layer : Layer C B, layer.1 = custom ∧ Laid root next (layer :: layers) ∧
      error = errorOf root (layer :: layers) := by
  obtain ⟨data,new,made⟩ := Option.bind_eq_some_iff.mp made
  obtain ⟨next,placed,same⟩ := Option.map_eq_some_iff.mp made
  obtain ⟨rfl,rfl⟩ := Prod.mk.inj same
  obtain ⟨backtrace,_,rfl⟩ := Option.map_eq_some_iff.mp new
  obtain ⟨under,apart,held⟩ := laid.alloc placed
  exact ⟨⟨custom,_⟩,rfl,.layer under held rfl apart,rfl⟩

/-- A context can be added wherever there is no box. -/
theorem Laid.context_of_free (laid : Laid root memory layers) {custom : Address}
    (free : memory.boxes.read custom = none) (captured : Option B) (context : C) :
    ∃ next, XxCore.Error.context O memory custom captured context (errorOf root layers) =
      some (next,.newCustom custom) := by
  rw [XxCore.Error.context,ContextError.new,backtrace_laid laid,Option.map_some,Option.bind_some]
  obtain ⟨boxes,placed⟩ := Boxes.alloc_of_read free (DynError.context _)
  exact ⟨{ memory with boxes },by rw [Memory.alloc,placed]; rfl⟩

variable (O) in
/-- Contexts one after the other, each with the address of its box. -/
def contexts (memory : Memory τ C B) (error : Repr) :
    List (Address × Option B × C) → Option (Memory τ C B × Repr)
  | [] => some (memory,error)
  | (custom,captured,context) :: rest =>
    (XxCore.Error.context O memory custom captured context error).bind fun (memory,error) =>
      contexts memory error rest

theorem Laid.contexts (laid : Laid root memory layers) {error : Repr}
    {added : List (Address × Option B × C)}
    (made : XxCore.Error.contexts O memory (errorOf root layers) added = some (next,error)) :
    ∃ layers : List (Layer C B), Laid root next layers ∧ error = errorOf root layers := by
  induction added generalizing memory layers with
  | nil =>
    obtain ⟨rfl,rfl⟩ := Prod.mk.inj (Option.some.inj made)
    exact ⟨layers,laid,rfl⟩
  | cons first rest ih =>
    obtain ⟨⟨mid,inner⟩,once,made⟩ := Option.bind_eq_some_iff.mp made
    obtain ⟨layer,_,laid,rfl⟩ := laid.context once
    exact ih laid made

variable (O) in
/-- Every error that the functions of `Error` make, with what else goes on in the memory. -/
inductive Built : Memory τ C B → Root τ B O → List (Layer C B) → Prop where
  | os (memory : Memory τ C B) (code : O) : Built memory (.os code) []
  | simple (memory : Memory τ C B) (kind : ErrorKind) : Built memory (.simple kind) []
  | simpleMessage {memory : Memory τ C B} {message : Address} {kind : ErrorKind}
      (static : memory.messages message = some kind) : Built memory (.simpleMessage message kind) []
  | custom {memory next : Memory τ C B} {custom : Address} {vtable : Wrapper} {captured : Option B}
      {t : τ} {error : El t} {kind : CompactErrorKind}
      (made : memory.alloc custom (CustomError.newDyn vtable captured error kind) = some next) :
      Built next (.custom custom vtable ⟨captured,t,error,kind⟩) []
  | context {memory next : Memory τ C B} {root : Root τ B O} {layers : List (Layer C B)}
      {custom : Address} {captured : Option B} {context : C} {error : Repr}
      {data : ContextError C B} (built : Built memory root layers)
      (made : XxCore.Error.context O memory custom captured context (errorOf root layers) =
        some (next,error))
      (placed : next.boxes.read custom = some (.context data)) :
      Built next root (⟨custom,data⟩ :: layers)
  | elsewhere {memory next : Memory τ C B} {root : Root τ B O} {layers : List (Layer C B)}
      (built : Built memory root layers) (messages : next.messages = memory.messages)
      (boxes : ∀ custom ∈ addresses root layers,
        next.boxes.read custom = memory.boxes.read custom) :
      Built next root layers

theorem Built.laid (built : Built O memory root layers) : Laid root memory layers := by
  induction built with
  | os memory code => exact .root trivial
  | simple memory kind => exact .root trivial
  | simpleMessage static => exact .root static
  | custom made =>
    obtain ⟨boxes,placed,rfl⟩ := Option.map_eq_some_iff.mp made
    exact .root (Boxes.read_alloc placed)
  | @context memory next root layers custom captured context error data built made placed ih =>
    obtain ⟨layer,rfl,laid,_⟩ := ih.context made
    have same : layer.2 = data := by
      cases laid with
      | layer under held linked apart =>
        rw [held] at placed
        exact DynError.context.inj (Option.some.inj placed)
    rw [← same]
    exact laid
  | elsewhere built messages boxes ih => exact ih.kept messages boxes

end XxCore.Error
