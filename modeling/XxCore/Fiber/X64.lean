import Mathlib.Data.List.Nodup
import XxCore.Lib.X64

/-! `fiber/x64.s`, `x64.rs` and what `fiber/mod.rs` writes for them. A call of a routine pushes
where it returns to. -/
namespace XxCore.Fiber

open X64

structure Context where
  r12 : Word
  r13 : Word
  r14 : Word
  r15 : Word
  rip : Word
  rsp : Word
  rbx : Word
  rbp : Word
  deriving DecidableEq, Repr

/-- The fields of the `Context` at an address, as `repr(C)` lays them out. -/
def Context.read (mem : Word → Word) (a : Word) : Context where
  r12 := mem (a + 0x00)
  r13 := mem (a + 0x08)
  r14 := mem (a + 0x10)
  r15 := mem (a + 0x18)
  rip := mem (a + 0x20)
  rsp := mem (a + 0x28)
  rbx := mem (a + 0x30)
  rbp := mem (a + 0x38)

/-- The offsets of its fields. -/
def offsets : List Word := [0x00,0x08,0x10,0x18,0x20,0x28,0x30,0x38]

def slots (a : Word) : List Word := offsets.map (a + ·)

/-- What is kept for a machine with these registers to go on at `rip` with the stack at `rsp`. -/
def Context.of (regs : Reg → Word) (rip rsp : Word) : Context where
  r12 := regs .r12
  r13 := regs .r13
  r14 := regs .r14
  r15 := regs .r15
  rip := rip
  rsp := rsp
  rbx := regs .rbx
  rbp := regs .rbp

/-- `xx_core_fiber_x64_start`, up to its jump. -/
def startRoutine : Routine where
  body := [.load .rax .rsp (-0x10),.load .rdi .rsp (-0x08),.push 0]
  target := .rax

def interceptRoutine : Routine where
  body := [.load .rax .rsp (-0x18),.load .rdi .rsp (-0x10),.sub .rsp 8]
  target := .rax

/-- The registers go to the `Context` at `rdi`. -/
def saveBody : List Instr :=
  [.load .rax .rsp 0,.add .rsp 8,
    .store .rdi 0x00 .r12,.store .rdi 0x08 .r13,.store .rdi 0x10 .r14,.store .rdi 0x18 .r15,
    .store .rdi 0x20 .rax,.store .rdi 0x28 .rsp,.store .rdi 0x30 .rbx,.store .rdi 0x38 .rbp]

/-- They come from the one at `rsi`. -/
def loadBody : List Instr :=
  [.load .rax .rsi 0x20,.load .r12 .rsi 0x00,.load .r13 .rsi 0x08,.load .r14 .rsi 0x10,
    .load .r15 .rsi 0x18,.load .rsp .rsi 0x28,.load .rbx .rsi 0x30,.load .rbp .rsi 0x38]

def switchRoutine : Routine where
  body := saveBody ++ loadBody
  target := .rax

/-- The routines and where they are in the code. -/
structure Text where
  start : Word
  intercept : Word
  switch : Word
  apart : start ≠ intercept

structure Start where
  start : Word
  arg : Word
  deriving DecidableEq, Repr

structure Intercept where
  intercept : Word
  arg : Word
  ret : Word
  deriving DecidableEq, Repr

/-- Where `Start` is written, below the `rsp` of the context. -/
def startSlots (rsp : Word) : List Word := [rsp - 0x10,rsp - 0x08]

def interceptSlots (rsp : Word) : List Word := [rsp - 0x18,rsp - 0x10,rsp - 0x08]

variable (text : Text)

/-- `Context::set_stack` on the context at `a`. -/
def setStack (m : Machine) (a stack len : Word) : Machine := m.put (a + 0x28) (stack + len)

def setStart (m : Machine) (a : Word) (start : Start) : Machine :=
  let rsp := m.mem (a + 0x28)
  ((m.put (rsp - 0x10) start.start).put (rsp - 0x08) start.arg).put (a + 0x20) text.start

def setIntercept (m : Machine) (a : Word) (intercept : Intercept) : Machine :=
  let rsp := m.mem (a + 0x28)
  (((m.put (rsp - 0x18) intercept.intercept).put (rsp - 0x10) intercept.arg).put (rsp - 0x08)
    intercept.ret).put (a + 0x20) text.intercept

def programCounter (m : Machine) (a : Word) : Word := m.mem (a + 0x20)

/-- The call of the switch, that returns to `ret`. -/
def callSwitch (m : Machine) (from_ to_ ret : Word) : Option Machine :=
  exec [.push ret] ((m.set .rdi from_).set .rsi to_)

/-- The code that a switch has jumped to, if it is one of the routines. -/
def enter (m : Machine) : Option Machine :=
  if m.pc = text.start then startRoutine.run m
  else if m.pc = text.intercept then interceptRoutine.run m
  else some m

/-- `switch(from, to)`, up to code that is not a routine. -/
def switch (m : Machine) (from_ to_ ret : Word) : Option Machine := do
  let called ← callSwitch m from_ to_ ret
  let switched ← switchRoutine.run called
  enter text switched

theorem Context.read_congr {mem mem' : Word → Word} {a : Word}
    (same : ∀ slot ∈ slots a, mem slot = mem' slot) : read mem a = read mem' a := by
  have at_ (offset : Word) (field : offset ∈ offsets) : mem (a + offset) = mem' (a + offset) :=
    same _ (List.mem_map_of_mem field)
  simp only [read,at_ _ (show 0x00 ∈ offsets by decide),at_ _ (show 0x08 ∈ offsets by decide),
    at_ _ (show 0x10 ∈ offsets by decide),at_ _ (show 0x18 ∈ offsets by decide),
    at_ _ (show 0x20 ∈ offsets by decide),at_ _ (show 0x28 ∈ offsets by decide),
    at_ _ (show 0x30 ∈ offsets by decide),at_ _ (show 0x38 ∈ offsets by decide)]

theorem slots_nodup (a : Word) : (slots a).Nodup := by
  apply List.Nodup.map
  · exact fun _ _ same => (BitVec.add_right_inj a).mp same
  · decide

/-- The registers that the switch saves, by the offsets. -/
def saved : List (Word × Reg) :=
  [(0x00,.r12),(0x08,.r13),(0x10,.r14),(0x18,.r15),(0x20,.rax),(0x28,.rsp),(0x30,.rbx),(0x38,.rbp)]

def loaded : List (Reg × Word) :=
  [(.rax,0x20),(.r12,0x00),(.r13,0x08),(.r14,0x10),(.r15,0x18),(.rsp,0x28),(.rbx,0x30),(.rbp,0x38)]

theorem aligned_saved {a : Word} (aligned : Aligned a) : ∀ field ∈ saved, Aligned (a + field.1) := by
  have all : ∀ field ∈ saved, Aligned field.1 := by decide
  exact fun field mem => aligned.add (all field mem)

theorem aligned_loaded {a : Word} (aligned : Aligned a) :
    ∀ field ∈ loaded, Aligned (a + field.2) := by
  have all : ∀ field ∈ loaded, Aligned field.2 := by decide
  exact fun field mem => aligned.add (all field mem)

/-- The memory with the registers saved at `a`. -/
def saveAt (mem : Word → Word) (a : Word) (regs : Reg → Word) : Word → Word :=
  updates mem (saved.map fun field => (a + field.1,regs field.2))

theorem saveAt_other {mem : Word → Word} {a slot : Word} {regs : Reg → Word} (other : slot ∉ slots a) :
    saveAt mem a regs slot = mem slot := by
  apply updates_other
  have same : (saved.map fun field => (a + field.1,regs field.2)).map Prod.fst = slots a := rfl
  rwa [same]

theorem read_saveAt {mem : Word → Word} {a : Word} {regs : Reg → Word} :
    Context.read (saveAt mem a regs) a = Context.of regs (regs .rax) (regs .rsp) := by
  have nodup : ((saved.map fun field => (a + field.1,regs field.2)).map Prod.fst).Nodup :=
    slots_nodup a
  have at_ (offset : Word) (reg : Reg) (field : (offset,reg) ∈ saved) :
      saveAt mem a regs (a + offset) = regs reg :=
    updates_mem nodup (List.mem_map.mpr ⟨_,field,rfl⟩)
  simp only [Context.read,Context.of,at_ 0x00 .r12 (by decide),at_ 0x08 .r13 (by decide),
    at_ 0x10 .r14 (by decide),at_ 0x18 .r15 (by decide),at_ 0x20 .rax (by decide),
    at_ 0x28 .rsp (by decide),at_ 0x30 .rbx (by decide),at_ 0x38 .rbp (by decide)]

/-- What a machine goes on from, and all that a call leaves as it was. -/
def contextOf (m : Machine) : Context := Context.of m.regs m.pc (m.regs .rsp)

theorem exec_saveBody {m : Machine} (from_ : Aligned (m.regs .rdi)) (stack : Aligned (m.regs .rsp)) :
    ∃ next, exec saveBody m = some next ∧ next.pc = m.pc ∧ next.regs .rsi = m.regs .rsi ∧
      (∃ regs, next.mem = saveAt m.mem (m.regs .rdi) regs ∧
        Context.of regs (regs .rax) (regs .rsp) =
          Context.of m.regs (m.mem (m.regs .rsp)) (m.regs .rsp + 8)) := by
  have zero : m.regs .rsp + 0 = m.regs .rsp := BitVec.add_zero _
  have stores : saveBody = .load .rax .rsp 0 :: .add .rsp 8 ::
    saved.map (fun field => .store .rdi field.1 field.2) := rfl
  have base : (((m.set .rax (m.mem (m.regs .rsp))).set .rsp (m.regs .rsp + 8)).regs .rdi) =
      m.regs .rdi := rfl
  rw [stores,exec_load (zero.symm ▸ stack),exec_add,zero,exec_saves]
  · refine ⟨_,rfl,rfl,rfl,_,rfl,?_⟩
    rfl
  · exact aligned_saved from_

theorem exec_loadBody {m : Machine} (to_ : Aligned (m.regs .rsi)) :
    ∃ next, exec loadBody m = some next ∧ next.mem = m.mem ∧
      contextOf { next with pc := next.regs .rax } = Context.read m.mem (m.regs .rsi) := by
  have loads : loadBody = loaded.map (fun field => .load field.1 .rsi field.2) := rfl
  rw [loads,exec_loads loaded m (aligned_loaded to_) (by decide)]
  exact ⟨_,rfl,rfl,rfl⟩

/-- The routine saves what the call returns to at `from_` and jumps to what was saved at `to_`. A
machine may switch to where it saves itself. -/
theorem run_switch {m : Machine} (from_ to_ ret : Word) (stack : Aligned (m.regs .rsp))
    (save : Aligned from_) (load : Aligned to_) :
    ∃ called final regs, callSwitch m from_ to_ ret = some called ∧
      switchRoutine.run called = some final ∧
      final.mem = saveAt (Function.update m.mem (m.regs .rsp - 8) ret) from_ regs ∧
      Context.of regs (regs .rax) (regs .rsp) = Context.of m.regs ret (m.regs .rsp) ∧
      contextOf final = Context.read final.mem to_ := by
  have push : Aligned (((m.set .rdi from_).set .rsi to_).regs .rsp - 8) := stack.sub (by decide)
  have called : ∃ called, callSwitch m from_ to_ ret = some called ∧ called.regs .rdi = from_ ∧
      called.regs .rsi = to_ ∧ called.regs .rsp = m.regs .rsp - 8 ∧
      called.mem = Function.update m.mem (m.regs .rsp - 8) ret ∧
      ∀ rip rsp, Context.of called.regs rip rsp = Context.of m.regs rip rsp := by
    rw [callSwitch,exec_push push]
    exact ⟨_,rfl,rfl,rfl,rfl,rfl,fun _ _ => rfl⟩
  obtain ⟨called,ran,rdi,rsi,rsp,mem,kept⟩ := called
  have top : called.mem (called.regs .rsp) = ret := by
    rw [mem,rsp]
    exact Function.update_self ..
  obtain ⟨saved,ranSave,_,rsi_,regs,wrote,same⟩ :=
    exec_saveBody (rdi ▸ save) (rsp ▸ stack.sub (by decide))
  obtain ⟨final,ranLoad,mem',context⟩ := exec_loadBody (rsi_.trans rsi ▸ load)
  rw [rdi,mem] at wrote
  rw [rsi_,rsi] at context
  refine ⟨called,{ final with pc := final.regs .rax },regs,ran,?_,mem'.trans wrote,?_,?_⟩
  · simp [Routine.run,switchRoutine,exec_append,ranSave,ranLoad]
  · rw [same,kept,top,rsp,BitVec.sub_add_cancel]
  · rw [context,mem']

/-- A fiber that was never run. -/
theorem run_start {m : Machine} (stack : Aligned (m.regs .rsp)) :
    ∃ final, startRoutine.run m = some final ∧ final.pc = m.mem (m.regs .rsp - 0x10) ∧
      final.regs .rdi = m.mem (m.regs .rsp - 0x08) ∧ final.regs .rsp = m.regs .rsp - 8 ∧
      final.mem = Function.update m.mem (m.regs .rsp - 8) 0 := by
  have below (offset : Word) (aligned : Aligned offset) : Aligned (m.regs .rsp + offset) :=
    stack.add aligned
  have next : Aligned ((m.set .rax (m.mem (m.regs .rsp + -0x10))).regs .rsp + -0x08) :=
    below _ (by decide)
  have push (a b : Word) : Aligned (((m.set .rax a).set .rdi b).regs .rsp - 8) :=
    stack.sub (by decide)
  rw [Routine.run,startRoutine,exec_load (below _ (by decide)),exec_load next,
    exec_push (push _ _)]
  refine ⟨_,rfl,?_,?_,rfl,rfl⟩
  · exact congrArg m.mem (BitVec.sub_eq_add_neg ..).symm
  · exact congrArg m.mem (BitVec.sub_eq_add_neg ..).symm

/-- A fiber that goes on in the exit function of another one. -/
theorem run_intercept {m : Machine} (stack : Aligned (m.regs .rsp)) :
    ∃ final, interceptRoutine.run m = some final ∧ final.pc = m.mem (m.regs .rsp - 0x18) ∧
      final.regs .rdi = m.mem (m.regs .rsp - 0x10) ∧ final.regs .rsp = m.regs .rsp - 8 ∧
      final.mem = m.mem ∧ ∀ rip rsp, Context.of final.regs rip rsp = Context.of m.regs rip rsp := by
  have below (offset : Word) (aligned : Aligned offset) : Aligned (m.regs .rsp + offset) :=
    stack.add aligned
  have next : Aligned ((m.set .rax (m.mem (m.regs .rsp + -0x18))).regs .rsp + -0x10) :=
    below _ (by decide)
  rw [Routine.run,interceptRoutine,exec_load (below _ (by decide)),exec_load next,exec_sub]
  refine ⟨_,rfl,?_,?_,rfl,rfl,fun _ _ => rfl⟩
  · exact congrArg m.mem (BitVec.sub_eq_add_neg ..).symm
  · exact congrArg m.mem (BitVec.sub_eq_add_neg ..).symm

theorem rip_mem_slots (a : Word) : a + 0x20 ∈ slots a := List.mem_map_of_mem (by decide)

theorem rsp_mem_slots (a : Word) : a + 0x28 ∈ slots a := List.mem_map_of_mem (by decide)

theorem offset_ne {a b c : Word} (ne : b ≠ c) : a + b ≠ a + c :=
  fun same => ne ((BitVec.add_right_inj a).mp same)

theorem below_ne {a b c : Word} (ne : b ≠ c) : a - b ≠ a - c :=
  fun same => ne ((BitVec.sub_right_inj a).mp same)

/-- `Fiber::set_start`. -/
theorem set_start_spec (m : Machine) (a base len : Word) (start : Start)
    (apart : ∀ slot ∈ slots a, slot ∉ startSlots (base + len)) :
    (setStart text (setStack m a base len) a start).regs = m.regs ∧
      (Context.read (setStart text (setStack m a base len) a start).mem a).rip = text.start ∧
      (Context.read (setStart text (setStack m a base len) a start).mem a).rsp = base + len ∧
      (setStart text (setStack m a base len) a start).mem (base + len - 0x10) = start.start ∧
      (setStart text (setStack m a base len) a start).mem (base + len - 0x08) = start.arg ∧
      ∀ slot, slot ∉ slots a → slot ∉ startSlots (base + len) →
        (setStart text (setStack m a base len) a start).mem slot = m.mem slot := by
  have rsp : (setStack m a base len).mem (a + 0x28) = base + len := Machine.put_self ..
  have above := apart _ (rip_mem_slots a)
  have stack := apart _ (rsp_mem_slots a)
  simp only [startSlots,List.mem_cons,List.not_mem_nil,or_false,not_or] at above stack
  unfold setStart
  rw [rsp]
  refine ⟨rfl,?_,?_,?_,?_,?_⟩
  · exact Machine.put_self ..
  · change ((Machine.put _ _ _).put _ _).mem (a + 0x28) = _
    rw [Machine.put_other _ _ (offset_ne (by decide)),Machine.put_other _ _ stack.2,
      Machine.put_other _ _ stack.1]
    exact rsp
  · rw [Machine.put_other _ _ (Ne.symm above.1),Machine.put_other _ _ (below_ne (by decide))]
    exact Machine.put_self ..
  · rw [Machine.put_other _ _ (Ne.symm above.2)]
    exact Machine.put_self ..
  · intro slot outside free
    simp only [startSlots,List.mem_cons,List.not_mem_nil,or_false,not_or] at free
    rw [Machine.put_other _ _ (ne_of_mem_of_not_mem (rip_mem_slots a) outside).symm,
      Machine.put_other _ _ free.2,Machine.put_other _ _ free.1]
    exact Machine.put_other _ _ (ne_of_mem_of_not_mem (rsp_mem_slots a) outside).symm

/-- The intercept is below the stack of the fiber that will run it. -/
theorem set_intercept_spec (m : Machine) (a : Word) (intercept : Intercept)
    (apart : ∀ slot ∈ slots a, slot ∉ interceptSlots (m.mem (a + 0x28))) :
    (setIntercept text m a intercept).regs = m.regs ∧
      Context.read (setIntercept text m a intercept).mem a =
        { Context.read m.mem a with rip := text.intercept } ∧
      (setIntercept text m a intercept).mem (m.mem (a + 0x28) - 0x18) = intercept.intercept ∧
      (setIntercept text m a intercept).mem (m.mem (a + 0x28) - 0x10) = intercept.arg ∧
      (setIntercept text m a intercept).mem (m.mem (a + 0x28) - 0x08) = intercept.ret ∧
      ∀ slot, slot ≠ a + 0x20 → slot ∉ interceptSlots (m.mem (a + 0x28)) →
        (setIntercept text m a intercept).mem slot = m.mem slot := by
  have other (slot : Word) (ne : slot ≠ a + 0x20) (free : slot ∉ interceptSlots (m.mem (a + 0x28))) :
      (setIntercept text m a intercept).mem slot = m.mem slot := by
    simp only [interceptSlots,List.mem_cons,List.not_mem_nil,or_false,not_or] at free
    unfold setIntercept
    rw [Machine.put_other _ _ ne,Machine.put_other _ _ free.2.2,Machine.put_other _ _ free.2.1,
      Machine.put_other _ _ free.1]
  have field (offset : Word) (mem : offset ∈ offsets) (ne : offset ≠ 0x20) :
      (setIntercept text m a intercept).mem (a + offset) = m.mem (a + offset) :=
    other _ (offset_ne ne) (apart _ (List.mem_map_of_mem mem))
  have above := apart _ (rip_mem_slots a)
  simp only [interceptSlots,List.mem_cons,List.not_mem_nil,or_false,not_or] at above
  refine ⟨rfl,?_,?_,?_,?_,other⟩
  · have rip : (setIntercept text m a intercept).mem (a + 0x20) = text.intercept :=
      Machine.put_self ..
    simp only [Context.read,rip,field 0x00 (by decide) (by decide),
      field 0x08 (by decide) (by decide),field 0x10 (by decide) (by decide),
      field 0x18 (by decide) (by decide),field 0x28 (by decide) (by decide),
      field 0x30 (by decide) (by decide),field 0x38 (by decide) (by decide)]
  · unfold setIntercept
    rw [Machine.put_other _ _ (Ne.symm above.1),Machine.put_other _ _ (below_ne (by decide)),
      Machine.put_other _ _ (below_ne (by decide))]
    exact Machine.put_self ..
  · unfold setIntercept
    rw [Machine.put_other _ _ (Ne.symm above.2.1),Machine.put_other _ _ (below_ne (by decide))]
    exact Machine.put_self ..
  · unfold setIntercept
    rw [Machine.put_other _ _ (Ne.symm above.2.2)]
    exact Machine.put_self ..

end XxCore.Fiber
