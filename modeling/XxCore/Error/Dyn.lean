import XxCore.Error.Repr
import XxCore.Lib.Boxes

/-! The boxes of an error, `error/repr/{custom,context,dynamic}.rs`, and the functions of `Error`
that go through them. `none` is undefined behaviour: a word that is no error, or a box that is not
there (any more). -/
namespace XxCore.Error

open Os

/-- The types that an error may have. `kind` is `ErrorImpl::kind`, of no use where the type does not
have the trait. -/
class ErrorTypes (τ : Type) where
  El : τ → Type
  kind : ∀ {t : τ}, El t → ErrorKind

export ErrorTypes (El)

/-- Errors of one type, numbers. -/
instance : ErrorTypes Unit where
  El _ := Nat
  kind _ := .other

/-- The constructors of `CustomError`, each with its own vtable. -/
inductive Wrapper where
  | basic
  | std
  | boxed
  | errorImpl
  deriving DecidableEq

/-- `()` or a kind. -/
inductive CompactErrorKind where
  | unit
  | kind (kind : ErrorKind)
  deriving DecidableEq

structure CustomError (τ B : Type) [ErrorTypes τ] where
  backtrace : Option B
  type : τ
  error : El type
  kind : CompactErrorKind

structure ContextError (C B : Type) where
  backtrace : Option B
  context : C
  error : Repr

/-- A box. What tells the two apart is the vtable. -/
inductive DynError (τ C B : Type) [ErrorTypes τ] where
  | custom (vtable : Wrapper) (data : CustomError τ B)
  | context (data : ContextError C B)

/-- What is owned and then no more: a value that is moved to the caller, what is dropped, and the
memory of a box. -/
inductive Gone (τ C B : Type) [ErrorTypes τ] where
  | moved (type : τ) (error : El type)
  | error (type : τ) (error : El type)
  | backtrace (backtrace : B)
  | context (context : C)
  | freed (custom : Address)

/-- The boxes, the static messages with their kinds, and all that was given up, in order. -/
structure Memory (τ C B : Type) [ErrorTypes τ] where
  boxes : Boxes Address (DynError τ C B)
  messages : Address → Option ErrorKind
  gone : List (Gone τ C B)

variable {τ C B : Type} [ErrorTypes τ]

/-- `vtable.kind`. -/
def CustomError.kindOf (vtable : Wrapper) (data : CustomError τ B) : ErrorKind :=
  match vtable with
  | .errorImpl => ErrorTypes.kind data.error
  | _ => .other

/-- `ErrorImpl::kind`, as `meta` has it. -/
def CustomError.metaKind (vtable : Wrapper) (data : CustomError τ B) : ErrorKind :=
  match data.kind with
  | .unit => data.kindOf vtable
  | .kind kind => kind

/-- What a box owns besides the error in it. -/
def DynError.rest : DynError τ C B → List (Gone τ C B)
  | .custom _ data => data.backtrace.toList.map .backtrace
  | .context data => data.backtrace.toList.map .backtrace ++ [.context data.context]

namespace Memory

/-- `Box::new`, at an address that is free. -/
def alloc (memory : Memory τ C B) (custom : Address) (data : DynError τ C B) :
    Option (Memory τ C B) :=
  (memory.boxes.alloc custom data).map fun boxes => { memory with boxes }

def lose (memory : Memory τ C B) (gone : List (Gone τ C B)) : Memory τ C B :=
  { memory with gone := memory.gone ++ gone }

/-- The memory of a box is freed, after what was in it is gone. -/
def free (memory : Memory τ C B) (custom : Address) : Option (Memory τ C B) :=
  (memory.boxes.free custom).map fun boxes => { memory.lose [.freed custom] with boxes }

/-- `drop(this.into_box())` of a box with the error in a `ManuallyDrop`. -/
def dropRest (memory : Memory τ C B) (custom : Address) : Option (Memory τ C B) :=
  (memory.boxes.read custom).bind fun data => (memory.lose data.rest).free custom

end Memory

variable (O : Type) [OsCode O]

namespace DynError

/-- `inner` is the function of the error in a context. -/
def kind (inner : Repr → Option ErrorKind) : DynError τ C B → Option ErrorKind
  | .custom vtable data => some (data.kindOf vtable)
  | .context data => inner data.error

def backtrace (inner : Repr → Option (Option B)) : DynError τ C B → Option (Option B)
  | .custom _ data => some data.backtrace
  | .context data =>
    match data.backtrace with
    | some backtrace => some (some backtrace)
    | none => inner data.error

/-- The pointer is to the error in the box at `custom`. -/
def downcastPtr [DecidableEq τ] (t : τ) (custom : Address) (inner : Repr → Option (Option Address)) :
    DynError τ C B → Option (Option Address)
  | .custom _ data => some (if t = data.type then some custom else none)
  | .context data => inner data.error

/-- `some` if the box and all in it were consumed. -/
def downcastOwned [DecidableEq τ] (t : τ) (custom : Address)
    (inner : Repr → Option (Memory τ C B × Option (El t))) (memory : Memory τ C B) :
    DynError τ C B → Option (Memory τ C B × Option (El t))
  | .custom _ data =>
    if same : data.type = t then
      ((memory.lose [.moved data.type data.error]).dropRest custom).map (·,some (same ▸ data.error))
    else some (memory,none)
  | .context data =>
    match inner data.error with
    | none => none
    | some (memory,none) => some (memory,none)
    | some (memory,some error) => (memory.dropRest custom).map (·,some error)

/-- The fields in their order, then the box. -/
def drop (custom : Address) (inner : Repr → Memory τ C B → Option (Memory τ C B))
    (memory : Memory τ C B) (this : DynError τ C B) : Option (Memory τ C B) :=
  match this with
  | .custom _ data => (memory.lose (this.rest ++ [.error data.type data.error])).free custom
  | .context data => (inner data.error (memory.lose this.rest)).bind (·.free custom)

end DynError

/-! With a bound on the depth. -/

def kindIn (memory : Memory τ C B) : Nat → Repr → Option ErrorKind
  | 0,_ => none
  | depth + 1,error =>
    match error.decode (O := O) with
    | none => none
    | some (.os code) => some (OsCode.kind code)
    | some (.simple kind) => some kind
    | some (.simpleMessage message) => memory.messages message
    | some (.custom custom) => (memory.boxes.read custom).bind (DynError.kind (kindIn memory depth))

def backtraceIn (memory : Memory τ C B) : Nat → Repr → Option (Option B)
  | 0,_ => none
  | depth + 1,error =>
    match error.decode (O := O) with
    | none => none
    | some (.custom custom) =>
      (memory.boxes.read custom).bind (DynError.backtrace (backtraceIn memory depth))
    | some _ => some none

def downcastPtrIn [DecidableEq τ] (t : τ) (memory : Memory τ C B) : Nat → Repr → Option (Option Address)
  | 0,_ => none
  | depth + 1,error =>
    match error.decode (O := O) with
    | none => none
    | some (.custom custom) =>
      (memory.boxes.read custom).bind (DynError.downcastPtr t custom (downcastPtrIn t memory depth))
    | some _ => some none

def downcastOwnedIn [DecidableEq τ] (t : τ) (memory : Memory τ C B) :
    Nat → Repr → Option (Memory τ C B × Option (El t))
  | 0,_ => none
  | depth + 1,error =>
    match error.decode (O := O) with
    | none => none
    | some (.custom custom) =>
      (memory.boxes.read custom).bind
        (DynError.downcastOwned t custom (downcastOwnedIn t memory depth) memory)
    | some _ => some (memory,none)

def dropIn : Nat → Repr → Memory τ C B → Option (Memory τ C B)
  | 0,_,_ => none
  | depth + 1,error,memory =>
    match error.decode (O := O) with
    | none => none
    | some (.custom custom) =>
      (memory.boxes.read custom).bind (DynError.drop custom (dropIn depth) memory)
    | some _ => some memory

/-- An error that does not repeat a box is at most this deep. -/
def Memory.depth (memory : Memory τ C B) : Nat := memory.boxes.size + 1

variable (memory : Memory τ C B) (error : Repr)

def kind : Option ErrorKind := kindIn O memory memory.depth error

def isInterrupted : Option Bool := (kind O memory error).map (· == .interrupted)

/-- `PartialEq<ErrorKind>`. -/
def eqKind (value : ErrorKind) : Option Bool := (kind O memory error).map (· == value)

def backtrace : Option (Option B) := backtraceIn O memory memory.depth error

variable [DecidableEq τ] (t : τ)

/-- `as_ref` of a pointer to a box with an error of this type. -/
def asRef (custom : Address) : Option (El t) :=
  match memory.boxes.read custom with
  | some (.custom _ data) => if same : data.type = t then some (same ▸ data.error) else none
  | _ => none

def downcastRef : Option (Option (El t)) :=
  match downcastPtrIn O t memory memory.depth error with
  | none => none
  | some none => some none
  | some (some custom) => (asRef memory t custom).map some

def downcast : Option (Memory τ C B × Except Repr (El t)) :=
  match error.decode (O := O) with
  | none => none
  | some (.custom custom) =>
    match downcastOwnedIn O t memory memory.depth (.newCustom custom) with
    | none => none
    | some (memory,some error) => some (memory,.ok error)
    | some (memory,none) => some (memory,.error (.newCustom custom))
  | some data => some (memory,.error (.new data))

/-- The drop of an error that is not used any more. -/
def drop : Option (Memory τ C B) := dropIn O memory.depth error memory

end XxCore.Error
