import XxCore.Io.Read

/-! The trait `Write` of `async_std/io` as a record of functions, for writers of any type. -/
namespace XxCore.Io

/-- `write` reports how many bytes of the slice it has accepted. -/
structure Write (ω ε : Type) where
  write : ω → List UInt8 → Except ε Nat × ω
  flush : ω → Except ε Unit × ω

/-- The error that the code returns, and what it asks of others. -/
structure Errors (ε : Type) where
  writeZero : ε
  isInterrupted : ε → Bool

/-- The writer keeps what `length_check` checks. -/
def Write.Bounded (W : Write ω ε) : Prop :=
  ∀ writer buf n, (W.write writer buf).1 = .ok n → n ≤ buf.length

/-- The part of a slice that a read or a write has dealt with. -/
def handled (result : Except ε Nat) (buf : List UInt8) : List UInt8 :=
  match result with
  | .ok n => buf.take n
  | .error _ => []

@[simp] theorem handled_error {e : ε} {buf : List UInt8} : handled (.error e) buf = [] := rfl

end XxCore.Io
