import XxCore.Fiber.Switch

/-! A fiber goes on where it left. -/
namespace XxCore.Fiber

open X64 Transition

variable {φ : Type} [DecidableEq φ] {text : Text} {stack : φ → Stack} {s next : World φ} {f g : φ}

/-- What is in memory for a fiber that does not run. -/
def Status.Held (text : Text) (mem : Word → Word) (home : Word) (stack : Stack) : Status → Prop
  | .suspended point => Aligned home ∧ Context.read mem home = point ∧ Aligned point.rsp ∧
      point.rip ≠ text.start ∧ point.rip ≠ text.intercept
  | .fresh start => Aligned home ∧ Aligned stack.top ∧ (Context.read mem home).rip = text.start ∧
      (Context.read mem home).rsp = stack.top ∧ mem (stack.top - 0x10) = start.start ∧
      mem (stack.top - 0x08) = start.arg
  | _ => True

theorem Status.Held.frame {status : Status} {mem mem' : Word → Word} {home : Word} {stack : Stack}
    (held : status.Held text mem home stack)
    (same : ∀ a, status.Keeps home stack a → mem' a = mem a) : status.Held text mem' home stack := by
  cases status with
  | suspended point =>
    obtain ⟨aligned,read,top,pc⟩ := held
    have same : Context.read mem' home = Context.read mem home :=
      Context.read_congr fun slot mem_ => same slot mem_
    exact ⟨aligned,same.trans read,top,pc⟩
  | fresh start =>
    obtain ⟨aligned,top,rip,rsp,first,arg⟩ := held
    have read : Context.read mem' home = Context.read mem home :=
      Context.read_congr fun slot mem_ => same slot (.inl mem_)
    refine ⟨aligned,top,?_,?_,?_,?_⟩
    · rw [read,rip]
    · rw [read,rsp]
    · rw [same _ (.inr (by simp [startSlots])),first]
    · rw [same _ (.inr (by simp [startSlots])),arg]
  | _ => trivial

structure Stored (text : Text) (stack : φ → Stack) (s : World φ) : Prop where
  held : ∀ fiber, (s.status fiber).Held text s.machine.mem (s.home fiber) (stack fiber)
  apart : ∀ f g a, f ≠ g → Keeps stack s f a → ¬ Keeps stack s g a
  running : ∀ fiber, s.status fiber = .running ↔ fiber = s.current
  /-- the exit function is called as if the fiber below it had called it -/
  exiting : ∀ f p, s.exiting = some (f,p) → s.status f = .leaving ∧
    Context.of s.machine.regs p.rip p.rsp = p ∧ s.machine.regs .rsp = p.rsp - 8 ∧
    s.machine.mem (s.machine.regs .rsp) = p.rip

theorem stored_boot (program : φ) (machine : Machine) (home : φ → Word) :
    Stored text stack (boot program machine home) := by
  have status (fiber : φ) : (boot program machine home).status fiber =
      if fiber = program then .running else .idle := by simp [boot,Function.update_apply]
  constructor
  · intro fiber
    rw [status]
    split <;> trivial
  · intro f g a _ keeps
    simp only [Keeps,status] at keeps
    split at keeps <;> exact keeps.elim
  · intro fiber
    rw [status]
    simp [boot]
  · simp [boot]

theorem Status.held_of_not_waits {status : Status} {mem : Word → Word} {home : Word}
    {stack : Stack} (none_ : status.waits = false) : status.Held text mem home stack := by
  cases status <;> simp_all [waits,Held]

theorem Status.waits_of_keeps {status : Status} {home a : Word} {stack : Stack}
    (keeps : status.Keeps home stack a) : status.waits = true := by
  cases status <;> simp_all [waits,Keeps]

/-- A step that is about the fiber `g`: the others that wait have waited before, and what is kept
for them is left alone. -/
theorem Stored.change (stored : Stored text stack s) (g : φ)
    (same : ∀ f, f ≠ g → (next.status f).waits = true →
      next.status f = s.status f ∧ next.home f = s.home f)
    (memory : ∀ f a, f ≠ g → Keeps stack s f a → (next.status f).waits = true →
      next.machine.mem a = s.machine.mem a)
    (held : (next.status g).Held text next.machine.mem (next.home g) (stack g))
    (apart : ∀ f a, f ≠ g → Keeps stack next g a → ¬ Keeps stack s f a)
    (running : ∀ f, next.status f = .running ↔ f = next.current)
    (exiting : ∀ f p, next.exiting = some (f,p) → next.status f = .leaving ∧
      Context.of next.machine.regs p.rip p.rsp = p ∧ next.machine.regs .rsp = p.rsp - 8 ∧
      next.machine.mem (next.machine.regs .rsp) = p.rip) : Stored text stack next := by
  have kept (f : φ) (a : Word) (other : f ≠ g) (keeps : Keeps stack next f a) :
      Keeps stack s f a := by
    obtain ⟨status,home⟩ := same f other (Status.waits_of_keeps keeps)
    unfold Keeps at keeps ⊢
    rwa [← status,← home]
  constructor
  · intro f
    by_cases own : f = g
    · exact own ▸ held
    · cases waits : (next.status f).waits with
      | false => exact Status.held_of_not_waits waits
      | true =>
        obtain ⟨status,home⟩ := same f own waits
        rw [status,home]
        exact (stored.held f).frame fun a keeps => memory f a own keeps waits
  · intro f f' a ne first second
    by_cases own : f = g
    · subst own
      exact apart f' a ne.symm first (kept f' a ne.symm second)
    · by_cases own' : f' = g
      · subst own'
        exact apart f a ne second (kept f a ne first)
      · exact stored.apart f f' a ne (kept f a own first) (kept f' a own' second)
  · exact running
  · exact exiting

/-- The machine after the switch from the current fiber to the fiber `g`. -/
structure Switched (stack : φ → Stack) (s : World φ) (g : φ) (ret : Word) (m : Machine) : Prop where
  away : Context.read m.mem (s.home s.current) = point s.machine ret
  memory : ∀ a, a ∉ slots (s.home s.current) → a ≠ s.machine.regs .rsp - 8 →
    (∀ start, s.status g = .fresh start → a ≠ (stack g).top - 8) → m.mem a = s.machine.mem a
  back : ∀ p, s.status g = .suspended p → contextOf m = p
  starts : ∀ start, s.status g = .fresh start → m.pc = start.start ∧ m.regs .rdi = start.arg ∧
    m.regs .rsp = (stack g).top - 8 ∧ m.mem ((stack g).top - 8) = 0

/-- The routine itself, up to its jump. -/
theorem routine_spec {ret : Word} (admitted : Admitted text stack s (.switch g ret))
    (load : Aligned (s.home g)) (keeps : ∀ slot ∈ slots (s.home g), Keeps stack s g slot) :
    ∃ called final, callSwitch s.machine (s.home s.current) (s.home g) ret = some called ∧
      switchRoutine.run called = some final ∧
      Context.read final.mem (s.home s.current) = point s.machine ret ∧
      (∀ a, a ∉ slots (s.home s.current) → a ≠ s.machine.regs .rsp - 8 →
        final.mem a = s.machine.mem a) ∧
      contextOf final = Context.read s.machine.mem (s.home g) := by
  obtain ⟨aligned,save,_,_,free⟩ := admitted
  obtain ⟨called,final,regs,ran,ran',mem,away,back⟩ := run_switch _ _ ret aligned save load
  have memory (a : Word) (other : a ∉ slots (s.home s.current))
      (below : a ≠ s.machine.regs .rsp - 8) : final.mem a = s.machine.mem a := by
    rw [mem,saveAt_other other]
    exact Function.update_of_ne below ..
  refine ⟨called,final,ran,ran',?_,memory,?_⟩
  · rw [mem,read_saveAt,away]
    rfl
  · rw [back]
    apply Context.read_congr
    intro slot slot_
    exact memory slot (fun own => free g slot (.inr own) (keeps slot slot_))
      fun below => free g slot (.inl below) (keeps slot slot_)

theorem switch_spec {ret : Word} (stored : Stored text stack s)
    (admitted : Admitted text stack s (.switch g ret)) (waits : (s.status g).waits = true) :
    ∃ m, switch text s.machine (s.home s.current) (s.home g) ret = some m ∧
      Switched stack s g ret m := by
  have held := stored.held g
  cases status : s.status g with
  | suspended p =>
    rw [status] at held
    obtain ⟨load,read,_,notStart,notIntercept⟩ := held
    obtain ⟨called,final,ran,ran',away,memory,back⟩ := routine_spec admitted load
      fun slot slot_ => by simpa only [Keeps,status,Status.Keeps] using slot_
    rw [read] at back
    have pc : final.pc = p.rip := congrArg Context.rip back
    refine ⟨final,by simp [switch,ran,ran',enter,pc,notStart,notIntercept],?_⟩
    constructor
    · exact away
    · exact fun a other below _ => memory a other below
    · intro p' same
      cases status.symm.trans same
      exact back
    · intro start same
      cases status.symm.trans same
  | fresh start =>
    rw [status] at held
    obtain ⟨load,top,rip,rsp,first,arg⟩ := held
    obtain ⟨called,final,ran,ran',away,memory,back⟩ := routine_spec admitted load
      fun slot slot_ => by simp only [Keeps,status,Status.Keeps]; exact .inl slot_
    have pc : final.pc = text.start := (congrArg Context.rip back).trans rip
    have sp : final.regs .rsp = (stack g).top := (congrArg Context.rsp back).trans rsp
    obtain ⟨_,_,_,_,free⟩ := admitted
    have keeps (slot : Word) (slot_ : slot ∈ startSlots (stack g).top) : Keeps stack s g slot := by
      simp only [Keeps,status,Status.Keeps]
      exact .inr slot_
    have same (slot : Word) (slot_ : slot ∈ startSlots (stack g).top) :
        final.mem slot = s.machine.mem slot :=
      memory slot (fun own => free g slot (.inr own) (keeps slot slot_))
        fun below => free g slot (.inl below) (keeps slot slot_)
    obtain ⟨last,started,pc',rdi,rsp',mem⟩ := run_start (sp.symm ▸ top)
    have other (a : Word) (ne : a ≠ (stack g).top - 8) : last.mem a = final.mem a := by
      rw [mem,sp]
      exact Function.update_of_ne ne ..
    refine ⟨last,by simp [switch,ran,ran',enter,pc,started],?_⟩
    constructor
    · rw [← away]
      apply Context.read_congr
      intro slot own
      apply other
      rintro rfl
      exact free g _ (.inr own) (keeps _ (by simp [startSlots]))
    · intro a outside below top_
      rw [other a (top_ start status)]
      exact memory a outside below
    · intro p same
      cases status.symm.trans same
    · intro start' same_
      cases status.symm.trans same_
      rw [pc',rdi,rsp',mem,sp,same _ (by simp [startSlots]),same _ (by simp [startSlots]),first,arg]
      exact ⟨rfl,rfl,rfl,Function.update_self ..⟩
  | _ => simp [status,Status.waits] at waits

/-- The machine at the entry of the exit function, on the stack of the fiber `g`. -/
structure Intercepted (s : World φ) (g : φ) (p : Context) (this exitFiber arg : Word)
    (m : Machine) : Prop where
  memory : ∀ a, a ∉ slots this → a ≠ s.machine.regs .rsp - 8 → a ∉ interceptSlots p.rsp →
    a ≠ s.home g + 0x20 → m.mem a = s.machine.mem a
  pc : m.pc = exitFiber
  rdi : m.regs .rdi = arg
  rsp : m.regs .rsp = p.rsp - 8
  ret : m.mem (m.regs .rsp) = p.rip
  kept : Context.of m.regs p.rip p.rsp = p

theorem exit_spec {p : Context} {this exitFiber arg ret : Word} (stored : Stored text stack s)
    (admitted : Admitted text stack s (.exit g this exitFiber arg ret))
    (status : s.status g = .suspended p) :
    ∃ m, switch text (setIntercept text s.machine (s.home g)
        ⟨exitFiber,arg,programCounter s.machine (s.home g)⟩) this (s.home g) ret = some m ∧
      Intercepted s g p this exitFiber arg m := by
  have held := stored.held g
  rw [status] at held
  obtain ⟨load,read,top,_,_⟩ := held
  obtain ⟨aligned,save,apart,free⟩ := admitted
  have rsp : s.machine.mem (s.home g + 0x28) = p.rsp := congrArg Context.rsp read
  have keeps (slot : Word) (slot_ : slot ∈ slots (s.home g)) : Keeps stack s g slot := by
    simpa only [Keeps,status,Status.Keeps] using slot_
  have below : ∀ slot ∈ slots (s.home g),
      slot ∉ interceptSlots (s.machine.mem (s.home g + 0x28)) :=
    fun slot slot_ inside => free g slot (.inr (.inr inside)) (keeps slot slot_)
  obtain ⟨regs,context,function,arg_,ret_,other⟩ := set_intercept_spec text s.machine (s.home g)
    ⟨exitFiber,arg,programCounter s.machine (s.home g)⟩ below
  generalize setIntercept text s.machine (s.home g) _ = m at regs context function arg_ ret_ other ⊢
  rw [rsp] at function arg_ ret_ other apart
  obtain ⟨called,final,saved,ran,ran',mem,_,back⟩ :=
    run_switch this (s.home g) ret (regs.symm ▸ aligned) save load
  have memory (a : Word) (outside : a ∉ slots this) (below : a ≠ s.machine.regs .rsp - 8) :
      final.mem a = m.mem a := by
    rw [mem,saveAt_other outside,regs]
    exact Function.update_of_ne below ..
  have there : Context.read final.mem (s.home g) = { p with rip := text.intercept } := by
    rw [← read,← context]
    apply Context.read_congr
    intro slot slot_
    exact memory slot (fun own => free g slot (.inr (.inl own)) (keeps slot slot_))
      fun at_ => free g slot (.inl at_) (keeps slot slot_)
  rw [there] at back
  have pc : final.pc = text.intercept := congrArg Context.rip back
  have sp : final.regs .rsp = p.rsp := congrArg Context.rsp back
  obtain ⟨last,entered,pc',rdi,rsp',mem',kept⟩ := run_intercept (sp.symm ▸ top)
  have inside (a : Word) (in_ : a ∈ interceptSlots p.rsp) : last.mem a = m.mem a := by
    rw [mem']
    exact memory a (apart a in_).2 (apart a in_).1
  refine ⟨last,by simp [switch,ran,ran',enter,pc,text.apart.symm,entered],?_⟩
  constructor
  · intro a outside below_ free_ rip
    rw [mem',memory a outside below_]
    exact other a rip free_
  · rw [pc',sp,← mem',inside _ (by simp [interceptSlots]),function]
  · rw [rdi,sp,← mem',inside _ (by simp [interceptSlots]),arg_]
  · rw [rsp',sp]
  · rw [rsp',sp,inside _ (by simp [interceptSlots]),ret_]
    exact congrArg Context.rip read
  · have same : Context.of final.regs p.rip (final.regs .rsp) = p :=
      congrArg (fun context : Context => { context with rip := p.rip }) back
    rw [kept,← sp,same]

namespace Stored

theorem compute {machine : Machine} {home : Word} (stored : Stored text stack s)
    (admitted : Admitted text stack s (.compute machine home)) (idle : s.exiting = none) :
    Stored text stack { s with machine, home := Function.update s.home s.current home } := by
  have running : s.status s.current = .running := (stored.running s.current).mpr rfl
  apply stored.change s.current
  · exact fun f other _ => ⟨rfl,Function.update_of_ne other ..⟩
  · exact fun f a _ keeps _ => admitted f a keeps
  · simp [running,Status.Held]
  · intro f a _ keeps
    simp [Keeps,running,Status.Keeps] at keeps
  · exact stored.running
  · simp [idle]

theorem returned {machine : Machine} {p : Context} (stored : Stored text stack s)
    (admitted : Admitted text stack s (.returned machine)) (exiting : s.exiting = some (g,p)) :
    Stored text stack { s with
      machine
      status := Function.update s.status g .idle
      exiting := none } := by
  have leaving := (stored.exiting g p exiting).1
  apply stored.change g
  · exact fun f other _ => ⟨Function.update_of_ne other ..,rfl⟩
  · exact fun f a _ keeps _ => admitted.2 f a keeps
  · simp [Status.Held]
  · intro f a _ keeps
    simp [Keeps,Status.Keeps] at keeps
  · intro f
    rw [← stored.running f]
    by_cases own : f = g
    · subst own
      simp [leaving]
    · exact Eq.congr_left (Function.update_of_ne own ..)
  · simp

theorem spawn {home : Word} {start : Start} (stored : Stored text stack s)
    (admitted : Admitted text stack s (.spawn g home start)) (idle : s.exiting = none)
    (unused : s.status g = .idle) :
    Stored text stack { s with
      machine := setStart text (setStack s.machine home (stack g).base (stack g).len) home start
      home := Function.update s.home g home
      status := Function.update s.status g (.fresh start) } := by
  obtain ⟨aligned,top,apart,free⟩ := admitted
  obtain ⟨_,rip,rsp,first,arg,memory⟩ :=
    set_start_spec text s.machine home (stack g).base (stack g).len start apart
  apply stored.change g
  · exact fun f other _ => ⟨Function.update_of_ne other ..,Function.update_of_ne other ..⟩
  · intro f a _ keeps _
    apply memory
    · exact fun inside => free f a (.inl inside) keeps
    · exact fun inside => free f a (.inr inside) keeps
  · simp only [Function.update_self]
    exact ⟨aligned,top,rip,rsp,first,arg⟩
  · intro f a _ keeps
    simp only [Keeps,Function.update_self] at keeps
    exact free f a keeps
  · intro f
    rw [← stored.running f]
    by_cases own : f = g
    · subst own
      simp [unused]
    · exact Eq.congr_left (Function.update_of_ne own ..)
  · simp [idle]

theorem switch {ret : Word} {m : Machine} (stored : Stored text stack s)
    (admitted : Admitted text stack s (.switch g ret)) (idle : s.exiting = none)
    (waits : (s.status g).waits = true) (switched : Switched stack s g ret m) :
    Stored text stack { s with
      machine := m
      current := g
      status := Function.update
        (Function.update s.status s.current (.suspended (point s.machine ret))) g .running } := by
  have running : s.status s.current = .running := (stored.running s.current).mpr rfl
  have apart : s.current ≠ g := by
    rintro rfl
    simp [running,Status.waits] at waits
  obtain ⟨aligned,home,notStart,notIntercept,free⟩ := admitted
  apply stored.change s.current
  · intro f other waits
    by_cases to_ : f = g
    · subst to_
      simp [Status.waits] at waits
    · simp only [Function.update_of_ne to_,Function.update_of_ne other,and_self]
  · intro f a other keeps waits'
    apply switched.memory a
    · exact fun inside => free f a (.inr inside) keeps
    · exact fun below => free f a (.inl below) keeps
    · rintro start fresh rfl
      have to_ : f ≠ g := by
        rintro rfl
        simp [Status.waits] at waits'
      apply stored.apart f g _ to_ keeps
      simp [Keeps,fresh,Status.Keeps,startSlots]
  · simp only [Function.update_of_ne apart,Function.update_self]
    exact ⟨home,switched.away,aligned,notStart,notIntercept⟩
  · intro f a other keeps
    simp only [Keeps,Function.update_of_ne apart,Function.update_self] at keeps
    exact free f a (.inr keeps)
  · intro f
    by_cases to_ : f = g
    · subst to_
      simp
    · simp only [Function.update_of_ne to_,to_,iff_false]
      by_cases own : f = s.current
      · subst own
        simp
      · rw [Function.update_of_ne own,stored.running f]
        exact own
  · simp [idle]

theorem exit {p : Context} {this exitFiber arg ret : Word} {m : Machine}
    (stored : Stored text stack s)
    (admitted : Admitted text stack s (.exit g this exitFiber arg ret))
    (status : s.status g = .suspended p) (entered : Intercepted s g p this exitFiber arg m) :
    Stored text stack { s with
      machine := m
      current := g
      status := Function.update (Function.update s.status s.current .leaving) g .running
      exiting := some (s.current,p) } := by
  have running : s.status s.current = .running := (stored.running s.current).mpr rfl
  have apart : s.current ≠ g := by
    rintro rfl
    simp [running] at status
  have held := stored.held g
  rw [status] at held
  have rsp : s.machine.mem (s.home g + 0x28) = p.rsp := congrArg Context.rsp held.2.1
  obtain ⟨_,_,_,free⟩ := admitted
  rw [rsp] at free
  apply stored.change s.current
  · intro f other waits
    by_cases to_ : f = g
    · subst to_
      simp [Status.waits] at waits
    · simp only [Function.update_of_ne to_,Function.update_of_ne other,and_self]
  · intro f a other keeps waits
    have to_ : f ≠ g := by
      rintro rfl
      simp [Status.waits] at waits
    apply entered.memory a
    · exact fun inside => free f a (.inr (.inl inside)) keeps
    · exact fun below => free f a (.inl below) keeps
    · exact fun inside => free f a (.inr (.inr inside)) keeps
    · rintro rfl
      apply stored.apart f g _ to_ keeps
      simpa only [Keeps,status,Status.Keeps] using rip_mem_slots _
  · simp [Function.update_of_ne apart,Status.Held]
  · intro f a _ keeps
    simp [Keeps,Function.update_of_ne apart,Status.Keeps] at keeps
  · intro f
    by_cases to_ : f = g
    · subst to_
      simp
    · simp only [Function.update_of_ne to_,to_,iff_false]
      by_cases own : f = s.current
      · subst own
        simp
      · rw [Function.update_of_ne own,stored.running f]
        exact own
  · intro f q exiting
    simp only [Option.some.injEq,Prod.mk.injEq] at exiting
    obtain ⟨rfl,rfl⟩ := exiting
    refine ⟨?_,entered.kept,entered.rsp,entered.ret⟩
    exact (Function.update_of_ne apart ..).trans (Function.update_self ..)

theorem step {label : Label φ} (stored : Stored text stack s)
    (admitted : Admitted text stack s label) (ran : step text stack s label = some next) :
    Stored text stack next := by
  cases label with
  | compute machine home =>
    simp only [Fiber.step,Option.ite_none_right_eq_some,Option.some.injEq] at ran
    obtain ⟨idle,rfl⟩ := ran
    exact stored.compute admitted idle
  | spawn fiber home start =>
    simp only [Fiber.step,Option.ite_none_right_eq_some,Option.some.injEq] at ran
    obtain ⟨⟨idle,unused⟩,rfl⟩ := ran
    exact stored.spawn admitted idle unused
  | switch to_ ret =>
    simp only [Fiber.step,Option.ite_none_right_eq_some,Option.bind_eq_bind,
      Option.bind_eq_some_iff,Option.some.injEq] at ran
    obtain ⟨⟨idle,waits⟩,m,ran,rfl⟩ := ran
    obtain ⟨m',ran',switched⟩ := switch_spec stored admitted waits
    cases ran.symm.trans ran'
    exact stored.switch admitted idle waits switched
  | exit to_ this exitFiber arg ret =>
    simp only [Fiber.step] at ran
    split at ran
    next p status =>
      simp only [Option.ite_none_right_eq_some,Option.bind_eq_bind,Option.bind_eq_some_iff,
        Option.some.injEq] at ran
      obtain ⟨_,m,ran,rfl⟩ := ran
      obtain ⟨m',ran',entered⟩ := exit_spec stored admitted status
      cases ran.symm.trans ran'
      exact stored.exit admitted status entered
    · cases ran
  | returned machine =>
    simp only [Fiber.step] at ran
    split at ran
    next f p exiting =>
      cases ran
      exact stored.returned admitted exiting
    · cases ran

end Stored

theorem stored_of_path {program : φ} {machine : Machine} {home : φ → Word} {labels : List (Label φ)}
    (path : Path (step text stack) (Admitted text stack) (boot program machine home) labels s) :
    Stored text stack s :=
  path.invariant (Stored text stack) (fun _ _ _ stored ok ran => stored.step ok ran)
    (stored_boot program machine home)

/-- A fiber that waits is left alone by the steps that do not go on with it. -/
theorem waits_step {label : Label φ} (stored : Stored text stack s)
    (ran : step text stack s label = some next) (waits : (s.status f).waits = true)
    (other : label.target ≠ some f) : next.status f = s.status f := by
  have own : f ≠ s.current := by
    rintro rfl
    simp [(stored.running s.current).mpr rfl,Status.waits] at waits
  cases label with
  | compute machine home =>
    simp only [step,Option.ite_none_right_eq_some,Option.some.injEq] at ran
    rw [← ran.2]
  | spawn fiber home start =>
    simp only [step,Option.ite_none_right_eq_some,Option.some.injEq] at ran
    obtain ⟨⟨_,unused⟩,rfl⟩ := ran
    apply Function.update_of_ne
    rintro rfl
    simp [unused,Status.waits] at waits
  | switch to_ ret =>
    have to_ne : f ≠ to_ := fun same => other (congrArg some same.symm)
    simp only [step,Option.ite_none_right_eq_some,Option.bind_eq_bind,Option.bind_eq_some_iff,
      Option.some.injEq] at ran
    obtain ⟨_,m,_,rfl⟩ := ran
    exact (Function.update_of_ne to_ne ..).trans (Function.update_of_ne own ..)
  | exit to_ this exitFiber arg ret =>
    have to_ne : f ≠ to_ := fun same => other (congrArg some same.symm)
    simp only [step] at ran
    split at ran
    · simp only [Option.ite_none_right_eq_some,Option.bind_eq_bind,Option.bind_eq_some_iff,
        Option.some.injEq] at ran
      obtain ⟨_,m,_,rfl⟩ := ran
      exact (Function.update_of_ne to_ne ..).trans (Function.update_of_ne own ..)
    · cases ran
  | returned machine =>
    simp only [step] at ran
    split at ran
    next g p exiting =>
      cases ran
      apply Function.update_of_ne
      rintro rfl
      simp [(stored.exiting _ p exiting).1,Status.waits] at waits
    · cases ran

theorem waits_path {labels : List (Label φ)} (stored : Stored text stack s)
    (path : Path (step text stack) (Admitted text stack) s labels next)
    (waits : (s.status f).waits = true) (others : ∀ label ∈ labels, label.target ≠ some f) :
    Stored text stack next ∧ next.status f = s.status f := by
  apply (path.restrict others).invariant fun m => Stored text stack m ∧ m.status f = s.status f
  · intro m label m' kept ok ran
    refine ⟨kept.1.step ok.1 ran,?_⟩
    rw [← kept.2] at waits ⊢
    exact waits_step kept.1 ran waits ok.2
  · exact ⟨stored,rfl⟩

theorem step_switch {ret : Word} {m : Machine} (idle : s.exiting = none)
    (waits : (s.status g).waits = true)
    (switched : switch text s.machine (s.home s.current) (s.home g) ret = some m) :
    step text stack s (.switch g ret) = some { s with
      machine := m
      current := g
      status := Function.update
        (Function.update s.status s.current (.suspended (point s.machine ret))) g .running } := by
  simp [step,idle,waits,switched]

theorem step_exit {p : Context} {this exitFiber arg ret : Word} {m : Machine}
    (idle : s.exiting = none) (status : s.status g = .suspended p)
    (switched : switch text (setIntercept text s.machine (s.home g)
      ⟨exitFiber,arg,programCounter s.machine (s.home g)⟩) this (s.home g) ret = some m) :
    step text stack s (.exit g this exitFiber arg ret) = some { s with
      machine := m
      current := g
      status := Function.update (Function.update s.status s.current .leaving) g .running
      exiting := some (s.current,p) } := by
  simp [step,idle,status,switched]

variable {program : φ} {machine : Machine} {home : φ → Word} {before between : List (Label φ)}
  {left back : World φ} {ret ret' : Word}

/-- What a switch leaves the fiber with, in any later state before it goes on. -/
theorem suspended_of_switch
    (path : Path (step text stack) (Admitted text stack) (boot program machine home) before s)
    (away : Admitted text stack s (.switch g ret))
    (ran : step text stack s (.switch g ret) = some left)
    (later : Path (step text stack) (Admitted text stack) left between back)
    (others : ∀ label ∈ between, label.target ≠ some s.current) :
    Stored text stack back ∧ back.status s.current = .suspended (point s.machine ret) := by
  have stored := stored_of_path path
  have next := stored.step away ran
  have status : left.status s.current = .suspended (point s.machine ret) := by
    simp only [step,Option.ite_none_right_eq_some,Option.bind_eq_bind,Option.bind_eq_some_iff,
      Option.some.injEq] at ran
    obtain ⟨⟨_,waits⟩,m,_,rfl⟩ := ran
    have apart : s.current ≠ g := by
      rintro rfl
      simp [(stored.running s.current).mpr rfl,Status.waits] at waits
    exact (Function.update_of_ne apart ..).trans (Function.update_self ..)
  rw [← status]
  exact waits_path next later (by rw [status]; rfl) others

/-- The exit function gives back what a called function does, and pops the intercepted address. -/
theorem context_of_returns {p : Context} {this exitFiber arg : Word} {m exited : Machine}
    (returns : Returns m exited) (entered : Intercepted s g p this exitFiber arg m) :
    contextOf exited = p := by
  have rsp : exited.regs .rsp = p.rsp := by
    rw [returns.rsp,entered.rsp]
    exact BitVec.sub_add_cancel ..
  have kept : Context.of exited.regs p.rip p.rsp = Context.of m.regs p.rip p.rsp := by
    simp only [Context.of,returns.preserved .r12 rfl,returns.preserved .r13 rfl,
      returns.preserved .r14 rfl,returns.preserved .r15 rfl,returns.preserved .rbx rfl,
      returns.preserved .rbp rfl]
  rw [contextOf,returns.pc,entered.ret,rsp,kept,entered.kept]

/-- Two fibers with a stack each. -/
def sampleText : Text := ⟨0x10,0x20,0x30,by decide⟩

def sampleStack : Bool → Stack
  | false => ⟨0x6000,0x1000⟩
  | true => ⟨0x8000,0x1000⟩

def sampleWorld : World Bool :=
  boot false ⟨fun _ => 0x6800,fun _ => 0,0x40⟩ fun fiber => if fiber then 0x200 else 0x100

theorem sample_spawn :
    Admitted sampleText sampleStack sampleWorld (.spawn true 0x200 ⟨0x50,7⟩) := by
  have apart : ∀ a ∈ slots 0x200, a ∉ startSlots (sampleStack true).top := by
    simp [slots,offsets,startSlots,sampleStack,Stack.top]
  refine ⟨by decide,by decide,apart,?_⟩
  rintro (_ | _) a _ keeps
  · exact keeps
  · exact keeps

/-- One fiber is started and switched to, and may switch back or exit. -/
theorem sample_run : ∃ s left : World Bool,
    step sampleText sampleStack sampleWorld (.spawn true 0x200 ⟨0x50,7⟩) = some s ∧
    Admitted sampleText sampleStack s (.switch true 0x44) ∧
    step sampleText sampleStack s (.switch true 0x44) = some left ∧ s.current = false ∧
    point s.machine 0x44 = ⟨0x6800,0x6800,0x6800,0x6800,0x44,0x6800,0x6800,0x6800⟩ ∧
    s.exiting = none ∧ left.exiting = none ∧
    Admitted sampleText sampleStack left (.switch false 0x54) ∧
    Admitted sampleText sampleStack left (.exit false 0x8800 0x60 0x8800 0) := by
  have run : ∃ s left : World Bool,
      step sampleText sampleStack sampleWorld (.spawn true 0x200 ⟨0x50,7⟩) = some s ∧
      step sampleText sampleStack s (.switch true 0x44) = some left ∧ s.current = false ∧
      point s.machine 0x44 = ⟨0x6800,0x6800,0x6800,0x6800,0x44,0x6800,0x6800,0x6800⟩ ∧
      s.exiting = none ∧ s.machine.regs .rsp = 0x6800 ∧ s.home false = 0x100 ∧ s.home true = 0x200 ∧
      s.status false = .running ∧ s.status true = .fresh ⟨0x50,7⟩ ∧ left.exiting = none ∧
      left.machine.regs .rsp = 0x8ff8 ∧ left.home = s.home ∧ left.current = true ∧
      left.status true = .running ∧ (∃ p, left.status false = .suspended p) ∧
      left.machine.mem (0x100 + 0x28) = 0x6800 :=
    ⟨_,_,rfl,rfl,rfl,rfl,rfl,rfl,rfl,rfl,rfl,rfl,rfl,rfl,rfl,rfl,rfl,⟨_,rfl⟩,rfl⟩
  obtain ⟨s,left,spawned,switched,current,registers,idle,rsp,home,home',running,fresh,idle',rsp',
    homes,current',running',⟨p,suspended⟩,saved⟩ := run
  refine ⟨s,left,spawned,?_,switched,current,registers,idle,idle',?_,?_⟩
  · simp only [Admitted,rsp,current,home]
    refine ⟨by decide,by decide,by decide,by decide,?_⟩
    rintro (_ | _) a written keeps
    · simp [Keeps,running,Status.Keeps] at keeps
    · have apart : ∀ a ∈ (0x6800 - 8 : Word) :: slots 0x100,
          a ∉ slots 0x200 ++ startSlots (sampleStack true).top := by
        simp [slots,offsets,startSlots,sampleStack,Stack.top]
      simp only [Keeps,fresh,home',Status.Keeps] at keeps
      exact apart a (List.mem_cons.mpr written) (List.mem_append.mpr keeps)
  · simp only [Admitted,rsp',current',homes,home']
    refine ⟨by decide,by decide,by decide,by decide,?_⟩
    rintro (_ | _) a written keeps
    · have apart : ∀ a ∈ (0x8ff8 - 8 : Word) :: slots 0x200, a ∉ slots 0x100 := by
        simp [slots,offsets]
      simp only [Keeps,suspended,homes,home,Status.Keeps] at keeps
      exact apart a (List.mem_cons.mpr written) keeps
    · simp [Keeps,running',Status.Keeps] at keeps
  · simp only [Admitted,rsp',homes,home,saved]
    refine ⟨by decide,by decide,by simp [slots,offsets,interceptSlots],?_⟩
    rintro (_ | _) a written keeps
    · have apart : ∀ a ∈ (0x8ff8 - 8 : Word) :: (slots 0x8800 ++ interceptSlots 0x6800),
          a ∉ slots 0x100 := by
        simp [slots,offsets,interceptSlots]
      simp only [Keeps,suspended,homes,home,Status.Keeps] at keeps
      exact apart a (List.mem_cons.mpr (written.imp_right List.mem_append.mpr)) keeps
    · simp [Keeps,running',Status.Keeps] at keeps

/-- The same when it goes on because the current fiber exits: the exit function is entered with its
argument once the machine has left the stack of that fiber, and where it returns to is where the
other fiber has left. -/
theorem exit_returns {this exitFiber arg : Word}
    (path : Path (step text stack) (Admitted text stack) (boot program machine home) before s)
    (away : Admitted text stack s (.switch g ret))
    (ran : step text stack s (.switch g ret) = some left)
    (later : Path (step text stack) (Admitted text stack) left between back)
    (others : ∀ label ∈ between, label.target ≠ some s.current) (idle : back.exiting = none)
    (exits : Admitted text stack back (.exit s.current this exitFiber arg ret')) :
    ∃ entered, step text stack back (.exit s.current this exitFiber arg ret') = some entered ∧
      entered.machine.pc = exitFiber ∧ entered.machine.regs .rdi = arg ∧
      entered.machine.regs .rsp = s.machine.regs .rsp - 8 ∧
      entered.status back.current = .leaving ∧
      ∀ exited, Admitted text stack entered (.returned exited) →
        ∃ next, step text stack entered (.returned exited) = some next ∧
          next.current = s.current ∧ contextOf next.machine = point s.machine ret ∧
          next.status back.current = .idle := by
  obtain ⟨stored,status⟩ := suspended_of_switch path away ran later others
  obtain ⟨m,switched,is⟩ := exit_spec stored exits status
  have own : back.current ≠ s.current := by
    intro same
    have running := (stored.running back.current).mpr rfl
    rw [same,status] at running
    cases running
  refine ⟨_,step_exit idle status switched,is.pc,is.rdi,is.rsp,?_,?_⟩
  · exact (Function.update_of_ne own ..).trans (Function.update_self ..)
  · intro exited admitted
    refine ⟨_,rfl,rfl,?_,Function.update_self ..⟩
    exact context_of_returns admitted.1 is

theorem exit_returns_once : ∃ left entered : World Bool,
    step sampleText sampleStack left (.exit false 0x8800 0x60 0x8800 0) = some entered ∧
    entered.machine.pc = 0x60 ∧ entered.machine.regs .rdi = 0x8800 := by
  obtain ⟨s,left,spawned,first,switched,current,_,_,idle,_,exits⟩ := sample_run
  have path : Path (step sampleText sampleStack) (Admitted sampleText sampleStack) sampleWorld
    [.spawn true 0x200 ⟨0x50,7⟩] s := .cons sample_spawn spawned .nil
  obtain ⟨entered,ran,pc,rdi,_⟩ :=
    exit_returns path first switched .nil (by simp) idle (current.symm ▸ exits)
  exact ⟨left,entered,current ▸ ran,pc,rdi⟩

/-- A fiber that was given a start enters its function with the argument, at the top of its own
stack, with a null return address there. -/
theorem spawn_starts {place : Word} {start : Start}
    (path : Path (step text stack) (Admitted text stack) (boot program machine home) before s)
    (spawned : Admitted text stack s (.spawn g place start))
    (ran : step text stack s (.spawn g place start) = some left)
    (later : Path (step text stack) (Admitted text stack) left between back)
    (others : ∀ label ∈ between, label.target ≠ some g) (idle : back.exiting = none)
    (first : Admitted text stack back (.switch g ret)) :
    ∃ next, step text stack back (.switch g ret) = some next ∧ next.machine.pc = start.start ∧
      next.machine.regs .rdi = start.arg ∧ next.machine.regs .rsp = (stack g).top - 8 ∧
      next.machine.mem ((stack g).top - 8) = 0 ∧
      ∀ a, a ∉ slots (back.home back.current) → a ≠ back.machine.regs .rsp - 8 →
        a ≠ (stack g).top - 8 → next.machine.mem a = back.machine.mem a := by
  have stored := stored_of_path path
  have next := stored.step spawned ran
  have fresh : left.status g = .fresh start := by
    simp only [step,Option.ite_none_right_eq_some,Option.some.injEq] at ran
    obtain ⟨_,rfl⟩ := ran
    exact Function.update_self ..
  obtain ⟨stored,status⟩ := waits_path next later (by rw [fresh]; rfl) others
  rw [fresh] at status
  have waits : (back.status g).waits = true := by rw [status]; rfl
  obtain ⟨m,switched,is⟩ := switch_spec stored first waits
  obtain ⟨pc,rdi,rsp,null⟩ := is.starts start status
  refine ⟨_,step_switch idle waits switched,pc,rdi,rsp,null,?_⟩
  exact fun a outside below top => is.memory a outside below fun _ _ => top

theorem spawn_starts_once : ∃ s next : World Bool,
    step sampleText sampleStack s (.switch true 0x44) = some next ∧ next.machine.pc = 0x50 ∧
    next.machine.regs .rdi = 7 ∧ next.machine.regs .rsp = 0x8ff8 := by
  obtain ⟨s,left,spawned,first,_,_,_,idle,_⟩ := sample_run
  obtain ⟨next,ran,pc,rdi,rsp,_⟩ :=
    spawn_starts .nil sample_spawn spawned .nil (by simp) idle first
  exact ⟨s,next,ran,pc,rdi,rsp⟩

end XxCore.Fiber
