import Mathlib.Logic.Function.Basic

/-! A few x86-64 instructions on registers and on the quadwords of memory at aligned addresses. An
access that is not aligned has no result here. -/
namespace X64

abbrev Word := BitVec 64

inductive Reg where
  | rax | rbx | rcx | rdx | rsi | rdi | rbp | rsp | r8 | r9 | r10 | r11 | r12 | r13 | r14 | r15
  deriving DecidableEq, Repr

/-- What a called function gives back as it was, besides the stack pointer. -/
def Reg.preserved : Reg → Bool
  | .rbx | .rbp | .r12 | .r13 | .r14 | .r15 => true
  | _ => false

structure Machine where
  regs : Reg → Word
  mem : Word → Word
  pc : Word

def Aligned (a : Word) : Prop := a.toNat % 8 = 0

instance (a : Word) : Decidable (Aligned a) := inferInstanceAs (Decidable (_ = _))

theorem Aligned.add {a b : Word} (left : Aligned a) (right : Aligned b) : Aligned (a + b) := by
  unfold Aligned at *
  rw [BitVec.toNat_add]
  omega

theorem Aligned.sub {a b : Word} (left : Aligned a) (right : Aligned b) : Aligned (a - b) := by
  unfold Aligned at *
  rw [BitVec.toNat_sub]
  omega

def Machine.set (m : Machine) (reg : Reg) (value : Word) : Machine :=
  { m with regs := Function.update m.regs reg value }

def Machine.put (m : Machine) (a value : Word) : Machine :=
  { m with mem := Function.update m.mem a value }

section fields
variable (m : Machine) (reg other : Reg) (a value : Word)

@[simp] theorem Machine.set_self : (m.set reg value).regs reg = value := Function.update_self ..
@[simp] theorem Machine.set_mem : (m.set reg value).mem = m.mem := rfl
@[simp] theorem Machine.set_pc : (m.set reg value).pc = m.pc := rfl
@[simp] theorem Machine.put_regs : (m.put a value).regs = m.regs := rfl
@[simp] theorem Machine.put_self : (m.put a value).mem a = value := Function.update_self ..
@[simp] theorem Machine.put_pc : (m.put a value).pc = m.pc := rfl

variable {reg other a}

theorem Machine.set_other (ne : other ≠ reg) : (m.set reg value).regs other = m.regs other :=
  Function.update_of_ne ne ..

theorem Machine.put_other {b : Word} (ne : b ≠ a) : (m.put a value).mem b = m.mem b :=
  Function.update_of_ne ne ..

end fields

/-- Straight-line instructions; `[base + offset]` is the quadword there. -/
inductive Instr where
  | load (target base : Reg) (offset : Word)
  | store (base : Reg) (offset : Word) (source : Reg)
  | add (target : Reg) (value : Word)
  | sub (target : Reg) (value : Word)
  | push (value : Word)
  deriving DecidableEq, Repr

def Instr.exec (m : Machine) : Instr → Option Machine
  | .load target base offset =>
    if Aligned (m.regs base + offset) then some (m.set target (m.mem (m.regs base + offset)))
    else none
  | .store base offset source =>
    if Aligned (m.regs base + offset) then some (m.put (m.regs base + offset) (m.regs source))
    else none
  | .add target value => some (m.set target (m.regs target + value))
  | .sub target value => some (m.set target (m.regs target - value))
  | .push value =>
    if Aligned (m.regs .rsp - 8) then
      some ((m.set .rsp (m.regs .rsp - 8)).put (m.regs .rsp - 8) value)
    else none

def exec : List Instr → Machine → Option Machine
  | [], m => some m
  | instr :: rest, m => (instr.exec m).bind (exec rest)

theorem exec_append (first second : List Instr) (m : Machine) :
    exec (first ++ second) m = (exec first m).bind (exec second) := by
  induction first generalizing m with
  | nil => rfl
  | cons instr rest ih =>
    simp only [List.cons_append,exec,Option.bind_assoc]
    exact Option.bind_congr fun next _ => ih next

theorem exec_cons (instr : Instr) (rest : List Instr) (m : Machine) :
    exec (instr :: rest) m = (instr.exec m).bind (exec rest) := rfl

theorem exec_load {m : Machine} {target base : Reg} {offset : Word} {rest : List Instr}
    (aligned : Aligned (m.regs base + offset)) : exec (.load target base offset :: rest) m =
      exec rest (m.set target (m.mem (m.regs base + offset))) := by
  simp [exec,Instr.exec,aligned]

theorem exec_store {m : Machine} {base source : Reg} {offset : Word} {rest : List Instr}
    (aligned : Aligned (m.regs base + offset)) : exec (.store base offset source :: rest) m =
      exec rest (m.put (m.regs base + offset) (m.regs source)) := by
  simp [exec,Instr.exec,aligned]

theorem exec_add {m : Machine} {target : Reg} {value : Word} {rest : List Instr} :
    exec (.add target value :: rest) m = exec rest (m.set target (m.regs target + value)) := rfl

theorem exec_sub {m : Machine} {target : Reg} {value : Word} {rest : List Instr} :
    exec (.sub target value :: rest) m = exec rest (m.set target (m.regs target - value)) := rfl

theorem exec_push {m : Machine} {value : Word} {rest : List Instr}
    (aligned : Aligned (m.regs .rsp - 8)) : exec (.push value :: rest) m =
      exec rest ((m.set .rsp (m.regs .rsp - 8)).put (m.regs .rsp - 8) value) := by
  simp only [exec,Instr.exec,aligned,↓reduceIte,Option.bind_some]

/-- Several places of a function are set, the later ones last. -/
def updates {α : Type u} {β : Type v} [DecidableEq α] (f : α → β) : List (α × β) → α → β
  | [] => f
  | (a,b) :: rest => updates (Function.update f a b) rest

section updates
variable {α : Type u} {β : Type v} [DecidableEq α] {f : α → β} {places : List (α × β)} {a : α}

theorem updates_other (other : a ∉ places.map Prod.fst) : updates f places a = f a := by
  induction places generalizing f with
  | nil => rfl
  | cons place rest ih =>
    simp only [List.map_cons,List.mem_cons,not_or] at other
    exact (ih other.2).trans (Function.update_of_ne other.1 ..)

theorem updates_mem {b : β} (nodup : (places.map Prod.fst).Nodup) (mem : (a,b) ∈ places) :
    updates f places a = b := by
  induction places generalizing f with
  | nil => simp at mem
  | cons place rest ih =>
    rw [List.map_cons,List.nodup_cons] at nodup
    rcases List.mem_cons.mp mem with rfl | mem
    · exact (updates_other nodup.1).trans (Function.update_self ..)
    · exact ih nodup.2 mem

end updates

/-- A block of stores leaves the registers alone. -/
theorem exec_saves {base : Reg} (fields : List (Word × Reg)) (m : Machine)
    (aligned : ∀ field ∈ fields, Aligned (m.regs base + field.1)) :
    exec (fields.map fun field => .store base field.1 field.2) m =
      some { m with
        mem := updates m.mem (fields.map fun field => (m.regs base + field.1,m.regs field.2)) } := by
  induction fields generalizing m with
  | nil => rfl
  | cons field rest ih =>
    rw [List.map_cons,exec_store (aligned field (by simp))]
    exact ih _ fun other mem => aligned other (by simp [mem])

/-- A block of loads leaves the memory alone; its base is none of its targets. -/
theorem exec_loads {base : Reg} (fields : List (Reg × Word)) (m : Machine)
    (aligned : ∀ field ∈ fields, Aligned (m.regs base + field.2))
    (kept : base ∉ fields.map Prod.fst) :
    exec (fields.map fun field => .load field.1 base field.2) m =
      some { m with
        regs := updates m.regs (fields.map fun field => (field.1,m.mem (m.regs base + field.2))) } := by
  induction fields generalizing m with
  | nil => rfl
  | cons field rest ih =>
    simp only [List.map_cons,List.mem_cons,not_or] at kept
    have same : (m.set field.1 (m.mem (m.regs base + field.2))).regs base = m.regs base :=
      Machine.set_other m _ kept.1
    rw [List.map_cons,exec_load (aligned field (by simp)),ih]
    · rw [same]
      rfl
    · intro other mem
      rw [same]
      exact aligned other (by simp [mem])
    · exact kept.2

/-- Instructions and the jump through a register that ends them. -/
structure Routine where
  body : List Instr
  target : Reg

def Routine.run (routine : Routine) (m : Machine) : Option Machine :=
  (exec routine.body m).map fun final => { final with pc := final.regs routine.target }

end X64
