import XxCore.Error.Chain

/-! The conversion of an `io::Error`, and the kind that the result has under its contexts. -/
namespace XxCore.Error

open Os

/-- `Box<dyn Error + Send + Sync>`: an error of this crate, or one of another type. -/
inductive BoxedError (τ : Type) [ErrorTypes τ] where
  | error (error : Repr)
  | foreign (t : τ) (error : El t)

/-- `io::Error`. The platform gives a kind to each code. -/
inductive IoError (τ : Type) [ErrorTypes τ] where
  | os (code : BitVec 32) (kind : IoErrorKind)
  | simple (kind : IoErrorKind)
  | simpleMessage (kind : IoErrorKind) (message : String)
  | custom (kind : IoErrorKind) (error : BoxedError τ)

/-- The types of the errors that the conversion puts into a box, and all others. -/
inductive TypeId (τ : Type) where
  | ioError
  | boxedError
  | other (t : τ)
  deriving DecidableEq

section

variable {τ : Type} [ErrorTypes τ]

namespace IoError

def kind : IoError τ → IoErrorKind
  | .os _ kind => kind
  | .simple kind => kind
  | .simpleMessage kind _ => kind
  | .custom kind _ => kind

def rawOsError : IoError τ → Option (BitVec 32)
  | .os code _ => some code
  | _ => none

def intoInner : IoError τ → Option (BoxedError τ)
  | .custom _ error => some error
  | _ => none

/-- The kind that an error has of itself. -/
def errorKind (O : Type) [OsCode O] : IoError τ → ErrorKind
  | .os code _ => OsCode.kind (OsCode.ofI32 code : O)
  | .simple kind => .ofIo kind
  | .simpleMessage kind _ => .ofIo kind
  | .custom kind _ => .ofIo kind

/-- There is no error of this crate in it. -/
def Foreign : IoError τ → Prop
  | .custom _ (.error _) => False
  | _ => True

end IoError

instance : ErrorTypes (TypeId τ) where
  El
    | .ioError => IoError τ
    | .boxedError => BoxedError τ
    | .other t => El t
  kind {t} error :=
    match t,error with
    | .ioError,error => .ofIo (IoError.kind error)
    | .boxedError,_ => .other
    | .other _,error => ErrorTypes.kind error

end

variable {τ C B : Type} [ErrorTypes τ] (O : Type) [OsCode O]

/-- `ErrorImpl::into_error` of an `io::Error`. If a box is made, it is at `custom`. -/
def intoError (memory : Memory (TypeId τ) C B) (custom : Address) (captured : Option B)
    (error : IoError τ) : Option (Memory (TypeId τ) C B × Repr) :=
  let place (data : DynError (TypeId τ) C B) := (memory.alloc custom data).map (·,Repr.newCustom custom)
  match error.rawOsError with
  | some code => some (memory,.newOs (OsCode.ofI32 code : O))
  | none =>
    match error.intoInner with
    | some inner =>
      match inner,ErrorKind.ofIo error.kind with
      | .error inner,_ => some (memory,inner)
      | boxed,.other => place (CustomError.newDyn .boxed captured (t := .boxedError) boxed .unit)
      | boxed,kind => place (CustomError.newDyn .boxed captured (t := .boxedError) boxed (.kind kind))
    | none => place (CustomError.newDyn .errorImpl captured (t := .ioError) error .unit)

variable {O} {memory mid next : Memory (TypeId τ) C B} {custom : Address} {captured : Option B}
  {error : IoError τ} {made wrapped : Repr} {added : List (Address × Option B × C)}

theorem laid_of_alloc {τ : Type} [ErrorTypes τ] {memory next : Memory τ C B} {vtable : Wrapper}
    {captured : Option B} {t : τ} {error : El t} {kind : CompactErrorKind}
    (placed : (memory.alloc custom (CustomError.newDyn vtable captured error kind)).map
      (·,Repr.newCustom custom) = some (next,made)) :
    Laid (.custom custom vtable ⟨captured,t,error,kind⟩ : Root τ B O) next ([] : List (Layer C B)) ∧
      made = .newCustom custom := by
  obtain ⟨placed,alloc,same⟩ := Option.map_eq_some_iff.mp placed
  obtain ⟨rfl,rfl⟩ := Prod.mk.inj same
  obtain ⟨boxes,held,rfl⟩ := Option.map_eq_some_iff.mp alloc
  exact ⟨.root (Boxes.read_alloc held),rfl⟩

/-- A payload is an error of the kind `Other`, and all else keeps its kind. -/
theorem intoError_root (foreign : error.Foreign)
    (converted : intoError O memory custom captured error = some (mid,made)) :
    ∃ root : Root (TypeId τ) B O, Laid root mid ([] : List (Layer C B)) ∧
      made = errorOf root ([] : List (Layer C B)) ∧
      root.kind = if error.intoInner.isSome then .other else error.errorKind O := by
  cases error with
  | os code kind =>
    obtain ⟨rfl,rfl⟩ := Prod.mk.inj (Option.some.inj converted)
    exact ⟨.os (OsCode.ofI32 code),.root trivial,rfl,rfl⟩
  | simple kind =>
    obtain ⟨laid,rfl⟩ := laid_of_alloc (O := O) converted
    exact ⟨_,laid,rfl,rfl⟩
  | simpleMessage kind message =>
    obtain ⟨laid,rfl⟩ := laid_of_alloc (O := O) converted
    exact ⟨_,laid,rfl,rfl⟩
  | custom kind boxed =>
    cases boxed with
    | error inner => exact foreign.elim
    | foreign t inner =>
      simp only [intoError,IoError.rawOsError,IoError.intoInner,IoError.kind] at converted
      split at converted
      · cases ‹BoxedError.foreign t inner = BoxedError.error _›
      · obtain ⟨laid,rfl⟩ := laid_of_alloc (O := O) converted
        exact ⟨_,laid,rfl,rfl⟩
      · obtain ⟨laid,rfl⟩ := laid_of_alloc (O := O) converted
        exact ⟨_,laid,rfl,rfl⟩

/-- The kind that is stored with a payload, which the vtable does not look at, is the right one. -/
theorem intoError_metaKind (foreign : error.Foreign) (payload : error.intoInner.isSome)
    (converted : intoError O memory custom captured error = some (mid,made)) :
    ∃ data, mid.boxes.read custom = some (.custom .boxed data) ∧
      data.metaKind .boxed = error.errorKind O := by
  cases error with
  | os code kind | simple kind | simpleMessage kind message => cases payload
  | custom kind boxed =>
    cases boxed with
    | error inner => exact foreign.elim
    | foreign t inner =>
      simp only [intoError,IoError.rawOsError,IoError.intoInner,IoError.kind] at converted
      split at converted
      · cases ‹BoxedError.foreign t inner = BoxedError.error _›
      · obtain ⟨laid,_⟩ := laid_of_alloc (O := O) converted
        exact ⟨_,laid.root_held,Eq.symm ‹ErrorKind.ofIo kind = .other›⟩
      · obtain ⟨laid,_⟩ := laid_of_alloc (O := O) converted
        exact ⟨_,laid.root_held,rfl⟩

/-- What the functions of the error say of its kind. -/
structure HasKind (O : Type) [OsCode O] {τ : Type} [ErrorTypes τ] (memory : Memory τ C B)
    (error : Repr) (value : ErrorKind) : Prop where
  kind : XxCore.Error.kind O memory error = some value
  isInterrupted : XxCore.Error.isInterrupted O memory error = some (value == .interrupted)
  eqKind : ∀ second, XxCore.Error.eqKind O memory error second = some (value == second)

theorem HasKind.of_kind {τ : Type} [ErrorTypes τ] {memory : Memory τ C B} {error : Repr}
    {value : ErrorKind} (kind : XxCore.Error.kind O memory error = some value) :
    HasKind O memory error value := by
  refine ⟨kind,?_,?_⟩
  · rw [XxCore.Error.isInterrupted,kind]
    rfl
  · intro second
    rw [XxCore.Error.eqKind,kind]
    rfl

/-- Under any number of contexts. -/
theorem converted_kind (foreign : error.Foreign)
    (converted : intoError O memory custom captured error = some (mid,made))
    (wraps : contexts O mid made added = some (next,wrapped)) :
    HasKind O next wrapped (if error.intoInner.isSome then .other else error.errorKind O) := by
  obtain ⟨root,laid,rfl,same⟩ := intoError_root foreign converted
  obtain ⟨layers,laid,rfl⟩ := laid.contexts wraps
  rw [← same]
  exact .of_kind (kind_laid laid)

/-- The kind of an `io::Error` is kept if it is not one with a payload, or of a kind that is `Other`
here. -/
theorem into_error_kind (foreign : error.Foreign)
    (converted : intoError O memory custom captured error = some (mid,made))
    (wraps : contexts O mid made added = some (next,wrapped)) :
    HasKind O next wrapped (error.errorKind O) ↔
      (error.intoInner.isSome → ErrorKind.ofIo error.kind = .other) := by
  have has := converted_kind foreign converted wraps
  constructor
  · intro kept payload
    rw [if_pos payload] at has
    have same := Option.some.inj (kept.kind.symm.trans has.kind)
    cases error with
    | custom kind boxed => exact same
    | os code kind | simple kind | simpleMessage kind message => cases payload
  · intro otherwise
    cases error with
    | custom kind boxed =>
      have same : ErrorKind.ofIo kind = .other := otherwise rfl
      rw [IoError.errorKind,same]
      exact has
    | os code kind | simple kind | simpleMessage kind message => exact has

/-- `EINTR` under a context is interrupted. -/
theorem into_error_kind_os :
    ∃ (next : Memory (TypeId Unit) Nat Unit) (wrapped : Repr),
      HasKind OsError next wrapped .interrupted := by
  let custom : Address := ⟨0x10,by decide,by decide⟩
  let error : IoError Unit := .os 4 .interrupted
  let memory : Memory (TypeId Unit) Nat Unit := ⟨⟨∅⟩,fun _ => none,[]⟩
  have foreign : error.Foreign := trivial
  have converted : intoError OsError memory custom none error = some (memory,_) := rfl
  let root : Root (TypeId Unit) Unit OsError := .os (OsCode.ofI32 4)
  have laid : Laid root memory ([] : List (Layer Nat Unit)) := .root trivial
  have free : memory.boxes.read custom = none := rfl
  obtain ⟨next,once⟩ := laid.context_of_free free none 1
  have wraps : contexts OsError memory (errorOf root ([] : List (Layer Nat Unit))) [(custom,none,1)] =
      some (next,.newCustom custom) := by
    rw [contexts,once]
    rfl
  exact ⟨_,_,(into_error_kind foreign converted wraps).mpr (by simp [error,IoError.intoInner])⟩

/-- `io::Error::new(io::ErrorKind::Interrupted, ..)` is not interrupted when converted. -/
theorem into_error_kind_lost :
    ¬ ∀ (memory mid next : Memory (TypeId Unit) Nat Unit) (custom : Address) (captured : Option Unit)
      (error : IoError Unit) (made wrapped : Repr) (added : List (Address × Option Unit × Nat)),
      error.Foreign → intoError OsError memory custom captured error = some (mid,made) →
      contexts OsError mid made added = some (next,wrapped) →
      HasKind OsError next wrapped (error.errorKind OsError) := by
  intro kept
  let custom : Address := ⟨0x10,by decide,by decide⟩
  let payload : BoxedError Unit := .foreign () (0 : Nat)
  let error : IoError Unit := .custom .interrupted payload
  let memory : Memory (TypeId Unit) Nat Unit := ⟨⟨∅⟩,fun _ => none,[]⟩
  have foreign : error.Foreign := trivial
  have converted : intoError OsError memory custom none error = some (_,_) := rfl
  have meant := kept _ _ _ _ _ _ _ _ [] foreign converted rfl
  have has := converted_kind foreign converted (show contexts OsError _ _ [] = some (_,_) from rfl)
  exact absurd (has.isInterrupted.symm.trans meant.isInterrupted) (by decide)

end XxCore.Error
