/-! `runtime.rs`: results of code that may unwind. -/
namespace XxCore

/-- The payload of an unwind that `catch_unwind_safe` caught. -/
structure Panic where
  message : String
  deriving DecidableEq, Repr

abbrev MaybePanic (α : Type) := Except Panic α

/-- `runtime::join`: the value, or the panic resumed on the caller. -/
def join : MaybePanic α → Except Panic α
  | .ok value => .ok value
  | .error panic => .error panic

/-- The state of an operation after `Future::run`; the cancel token of `Pending` is opaque. -/
inductive Progress (α : Type) where
  | pending
  | done (output : α)
  deriving DecidableEq, Repr

end XxCore
