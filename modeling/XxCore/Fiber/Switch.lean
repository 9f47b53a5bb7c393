import XxCore.Fiber.X64
import XxCore.Lib.Transition

/-! Fibers on one thread: the code of the fiber that runs, and `Fiber::switch`, `exit` and
`exit_to_pool` where it leaves. -/
namespace XxCore.Fiber

open X64 Transition

/-- Where the stack of a fiber is. -/
structure Stack where
  base : Word
  len : Word
  deriving DecidableEq, Repr

def Stack.top (stack : Stack) : Word := stack.base + stack.len

inductive Status where
  /-- it was never started, or its exit function is done -/
  | idle
  | fresh (start : Start)
  /-- what the call of its last switch returns to -/
  | suspended (point : Context)
  /-- it has exited, and its exit function runs on the stack of another fiber -/
  | leaving
  | running
  deriving DecidableEq, Repr

/-- It may be switched to. -/
def Status.waits : Status → Bool
  | .fresh _ | .suspended _ => true
  | _ => false

/-- `home` is where the `Fiber` of each is. `exiting` is the fiber whose exit function runs, and
what the current one goes on from after it. -/
structure World (φ : Type) where
  machine : Machine
  current : φ
  home : φ → Word
  status : φ → Status
  exiting : Option (φ × Context)

inductive Label (φ : Type) where
  /-- any code of the current fiber, which may move its `Fiber` -/
  | compute (machine : Machine) (home : Word)
  /-- `set_start` of a fiber that is not started, at the address it will have -/
  | spawn (fiber : φ) (home : Word) (start : Start)
  /-- the call of the switch returns to `ret` -/
  | switch (to_ : φ) (ret : Word)
  /-- the current fiber was moved to `this`; nothing is at `ret` -/
  | exit (to_ : φ) (this exitFiber arg ret : Word)
  /-- the exit function has returned -/
  | returned (machine : Machine)

/-- The fiber that goes on. -/
def Label.target {φ : Type} : Label φ → Option φ
  | .switch to_ _ | .exit to_ .. => some to_
  | _ => none

/-- `program` runs first, on the stack of the thread. -/
def boot {φ : Type} [DecidableEq φ] (program : φ) (machine : Machine) (home : φ → Word) : World φ where
  machine := machine
  current := program
  home := home
  status := Function.update (fun _ => .idle) program .running
  exiting := none

variable {φ : Type} [DecidableEq φ] (text : Text) (stack : φ → Stack)

/-- What the registers are when a call from here returns to `ret`. -/
def point (m : Machine) (ret : Word) : Context := Context.of m.regs ret (m.regs .rsp)

def step (s : World φ) : Label φ → Option (World φ)
  | .compute machine home =>
    if s.exiting = none then
      some { s with machine, home := Function.update s.home s.current home }
    else none
  | .spawn fiber home start =>
    if s.exiting = none ∧ s.status fiber = .idle then
      some { s with
        machine := setStart text
          (setStack s.machine home (stack fiber).base (stack fiber).len) home start
        home := Function.update s.home fiber home
        status := Function.update s.status fiber (.fresh start) }
    else none
  | .switch to_ ret =>
    if s.exiting = none ∧ (s.status to_).waits then do
      let machine ← switch text s.machine (s.home s.current) (s.home to_) ret
      some { s with
        machine
        current := to_
        status := Function.update
          (Function.update s.status s.current (.suspended (point s.machine ret))) to_ .running }
    else none
  | .exit to_ this exitFiber arg ret =>
    match s.status to_ with
    -- a fiber that was never run keeps its start where the intercept is written
    | .suspended point =>
      if s.exiting = none then do
        let intercept := ⟨exitFiber,arg,programCounter s.machine (s.home to_)⟩
        let machine ← switch text (setIntercept text s.machine (s.home to_) intercept) this
          (s.home to_) ret
        some { s with
          machine
          current := to_
          status := Function.update (Function.update s.status s.current .leaving) to_ .running
          exiting := some (s.current,point) }
      else none
    | _ => none
  | .returned machine =>
    match s.exiting with
    | some (fiber,_) =>
      some { s with
        machine
        status := Function.update s.status fiber .idle
        exiting := none }
    | none => none

/-- What is kept in memory for a fiber that does not run. -/
def Status.Keeps (home : Word) (stack : Stack) (a : Word) : Status → Prop
  | .suspended _ => a ∈ slots home
  | .fresh _ => a ∈ slots home ∨ a ∈ startSlots stack.top
  | _ => False

def Keeps (s : World φ) (fiber : φ) (a : Word) : Prop :=
  (s.status fiber).Keeps (s.home fiber) (stack fiber) a

/-- A function that was entered with `entry` has returned with `exit`. -/
structure Returns (entry exit : Machine) : Prop where
  pc : exit.pc = entry.mem (entry.regs .rsp)
  rsp : exit.regs .rsp = entry.regs .rsp + 8
  preserved : ∀ reg : Reg, reg.preserved = true → exit.regs reg = entry.regs reg

/-- What the code around the routines has to keep to: nothing is written where something is kept
for another fiber, and what is below a stack pointer is not in use. -/
def Admitted (s : World φ) : Label φ → Prop
  | .compute machine _ => ∀ fiber a, Keeps stack s fiber a → machine.mem a = s.machine.mem a
  | .spawn fiber home _ =>
    Aligned home ∧ Aligned (stack fiber).top ∧ (∀ a ∈ slots home, a ∉ startSlots (stack fiber).top) ∧
      ∀ other a, a ∈ slots home ∨ a ∈ startSlots (stack fiber).top → ¬ Keeps stack s other a
  | .switch _ ret =>
    Aligned (s.machine.regs .rsp) ∧ Aligned (s.home s.current) ∧ ret ≠ text.start ∧
      ret ≠ text.intercept ∧
      ∀ other a, a = s.machine.regs .rsp - 8 ∨ a ∈ slots (s.home s.current) →
        ¬ Keeps stack s other a
  | .exit to_ this _ _ _ =>
    Aligned (s.machine.regs .rsp) ∧ Aligned this ∧
      (∀ a ∈ interceptSlots (s.machine.mem (s.home to_ + 0x28)),
        a ≠ s.machine.regs .rsp - 8 ∧ a ∉ slots this) ∧
      ∀ other a, a = s.machine.regs .rsp - 8 ∨ a ∈ slots this ∨
        a ∈ interceptSlots (s.machine.mem (s.home to_ + 0x28)) → ¬ Keeps stack s other a
  | .returned machine => Returns s.machine machine ∧
    ∀ fiber a, Keeps stack s fiber a → machine.mem a = s.machine.mem a

end XxCore.Fiber
