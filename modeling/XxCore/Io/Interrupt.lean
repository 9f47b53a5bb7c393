import XxCore.Io.Write

/-! The helpers of `async_std/io/mod.rs` that look at the task. Whether the task is interrupted is
part of the world that a stream leaves behind, whatever its calls have done to it. -/
namespace XxCore.Io

variable {ρ ε : Type}

/-- The errors that the helpers make themselves. -/
structure ErrorKinds (ε : Type) extends Errors ε where
  interrupted : ε
  unexpectedEof : ε
  invalidUtf8 : ε
  interrupted_is : isInterrupted interrupted = true
  unexpectedEof_not : isInterrupted unexpectedEof = false
  invalidUtf8_not : isInterrupted invalidUtf8 = false

/-- How a call ends: it returns, or it panics. -/
inductive Exit (ε α : Type) where
  | returned (result : Except ε α)
  | unwound

def Exit.value {α : Type} : Exit ε α → Option α
  | .returned (.ok a) => some a
  | _ => none

def Exit.error {α : Type} : Exit ε α → Option ε
  | .returned (.error e) => some e
  | _ => none

theorem Exit.of_value {α : Type} {exit : Exit ε α} {a : α} (is : exit.value = some a) :
    exit = .returned (.ok a) := by
  rcases exit with (e | a') | _
  · contradiction
  · obtain rfl := Option.some.inj is
    rfl
  · contradiction

theorem Exit.of_error {α : Type} {exit : Exit ε α} {e : ε} (is : exit.error = some e) :
    exit = .returned (.error e) := by
  rcases exit with (e' | a) | _
  · obtain rfl := Option.some.inj is
    rfl
  · contradiction
  · contradiction

/-- `check_interrupt`. -/
def checkInterrupt (E : ErrorKinds ε) (interrupted : ρ → Bool) (r : ρ) : Except ε Unit :=
  if interrupted r = false then .ok () else .error E.interrupted

/-- `check_interrupt_if_zero`. -/
def checkInterruptIfZero (E : ErrorKinds ε) (interrupted : ρ → Bool) (r : ρ) (len : Nat) :
    Except ε Nat :=
  if len = 0 then
    match checkInterrupt E interrupted r with
    | .ok () => .ok len
    | .error e => .error e
  else .ok len

/-- `short_io_error_unless_interrupt`. -/
def shortIoErrorUnlessInterrupt (E : ErrorKinds ε) (interrupted : ρ → Bool) (r : ρ) : ε :=
  match checkInterrupt E interrupted r with
  | .ok () => E.unexpectedEof
  | .error e => e

section Check

variable {E : ErrorKinds ε} {interrupted : ρ → Bool} {r : ρ} {len : Nat}

theorem checkInterruptIfZero_eq : checkInterruptIfZero E interrupted r len =
    if len = 0 ∧ interrupted r = true then .error E.interrupted else .ok len := by
  rw [checkInterruptIfZero,checkInterrupt]
  by_cases zero : len = 0
  · cases running : interrupted r
    all_goals simp [zero]
  · simp [zero]

/-- The check lets a number of bytes through. -/
theorem checkInterruptIfZero_ok {n : Nat} (ok : checkInterruptIfZero E interrupted r len = .ok n) :
    n = len := by
  rw [checkInterruptIfZero_eq] at ok
  split at ok
  · contradiction
  · exact (Except.ok.inj ok).symm

theorem shortIoErrorUnlessInterrupt_eq (running : interrupted r = false) :
    shortIoErrorUnlessInterrupt E interrupted r = E.unexpectedEof := by
  rw [shortIoErrorUnlessInterrupt,checkInterrupt,if_pos running]

end Check

end XxCore.Io
