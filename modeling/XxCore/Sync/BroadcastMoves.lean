import XxCore.Sync.BroadcastInvariant

/-! A value that the last receiver has moved out of its slot is not used again, unless another
receiver that counted itself off before is still about to clone it. -/
namespace XxCore.Sync.Broadcast

variable {θ V : Type}

/-- The slot whose value the task is about to clone or to move. -/
def Pc.accesses : Pc V → Option Nat
  | .access j _ => some j
  | _ => none

/-- Whoever is about to clone or move a value finds it in the slot, and no memory was read that
holds no value. -/
structure Intact (c : Config θ V) : Prop where
  values : ∀ t j, (c.locals t).pc.accesses = some j →
    ∃ v, (c.shared.slots j).data = some v ∧ (c.shared.slots j).moved = false
  fault : c.shared.fault = false

/-- No value is moved out of a slot that another receiver is about to clone. -/
def NoRace (c : Config θ V) (label : θ × Label V) : Prop :=
  ∀ j, (c.locals label.1).pc = .access j true →
    ∀ u, u ≠ label.1 → (c.locals u).pc.accesses ≠ some j

theorem accesses_slot {pc : Pc V} {j : Nat} (accesses : pc.accesses = some j) :
    pc.slot = some j := by
  cases pc <;> simp_all [Pc.accesses,Pc.slot]

/-- The value that a task is about to use is there. -/
theorem Own.data {t : θ} {s : Broadcast θ V} {l : Local V} (own : Own t s l) (shared : Shared s)
    {j : Nat} (at_ : l.pc.accesses = some j) : ∃ v, (s.slots j).data = some v := by
  cases pc : l.pc with
  | access i last =>
    rw [pc] at at_
    cases at_
    obtain ⟨r,k,v,_,_,rfl,shows_,sent,_⟩ := own.using_ pc
    exact ⟨v,shared.data k v shows_ sent⟩
  | _ => simp [pc,Pc.accesses] at at_

variable [DecidableEq θ]

/-- What a step does to the flag of a slot that says that its value is gone. -/
theorem Step.unmoved {t : θ} {l l' : Local V} {s s' : Broadcast θ V} {label : Label V}
    (step : Step t l s label l' s') {j : Nat} (here : (s.slots j).moved = false) :
    (s'.slots j).moved = false ∨ l.pc = .access j true ∨ (s.slots j).guards = [] := by
  have kept {i : Nat} {slot : Slot θ V} (same : slot.moved = (s.slots i).moved) :
      ((s.setSlot i slot).slots j).moved = false := by
    by_cases eq : j = i
    · subst eq; simpa [same] using here
    · simpa [setSlot_ne eq] using here
  cases step with
  | tryRecv | unlock => exact .inl (kept rfl)
  | fetchSub => exact .inl (kept rfl)
  | update pc unlocked =>
    rename_i value index receivers
    by_cases eq : j = s.masked index
    · exact .inr (.inr (by rw [eq]; exact unlocked))
    · exact .inl (by simpa [put,setSlot_ne eq] using here)
  | access pc data =>
    rename_i i last value
    by_cases eq : j = i
    · cases last with
      | true => exact .inr (.inl (by rw [eq]; exact pc))
      | false => subst eq; exact .inl (by simpa [readOut] using here)
    · exact .inl (by simpa [readOut,setSlot_ne eq] using here)
  | _ => exact .inl here

/-- A task comes to the value of a slot that still waits for it. -/
theorem Step.accesses {t : θ} {l l' : Local V} {s s' : Broadcast θ V} {label : Label V}
    (step : Step t l s label l' s') (shared : Shared s) (own : Own t s l) {j : Nat}
    (at_ : l'.pc.accesses = some j) :
    l'.pc = l.pc ∧ s'.slots = s.slots ∨ (s'.slots j).moved = false := by
  cases step with
  | accessNone => exact .inl ⟨rfl,rfl⟩
  | fetchSub pc receiver =>
    obtain ⟨r,reader,rfl,shows_⟩ := own.taking pc
    cases at_
    have waits := List.ne_nil_of_mem (shared.expects reader shows_)
    have := shared.unmoved _ (shared.mod_lt _) waits
    exact .inr (by simpa [Broadcast.fetchSub] using this)
  | dropSender => by_cases last : s.txCount = 1 <;> simp [Pc.accesses,last] at at_
  | unlock => rename_i after _; cases after <;> simp [Pc.accesses,afterUnlock] at at_
  | loadHead => simp [Pc.accesses,skip] at at_
  | _ => simp [Pc.accesses] at at_

/-- A step reads no memory that holds no value, if its own slot still has its value. -/
theorem Step.faultless {t : θ} {l l' : Local V} {s s' : Broadcast θ V} {label : Label V}
    (step : Step t l s label l' s') (shared : Shared s) (own : Own t s l)
    (intact : ∀ j, l.pc.accesses = some j → (s.slots j).moved = false) (none : s.fault = false) :
    s'.fault = false := by
  cases step with
  | update pc unlocked =>
    obtain ⟨k,counted,flight,rfl,_,_⟩ := own.updating pc
    -- the value that `send` takes out is one that somebody was still expected to receive
    simp only [put,none,shared.masked,Bool.false_or,Bool.and_eq_false_imp,decide_eq_true_eq]
    intro previous
    have waits : (s.board.cells (k % s.capacity)).expected ≠ [] := fun empty =>
      previous ((shared.remaining_eq_zero (shared.mod_lt k)).mpr empty)
    obtain ⟨i,v,eq,shows_,sent⟩ := shared.waits (shared.mod_lt k) waits
    have data := shared.data i v shows_ sent
    have unmoved := shared.unmoved _ (shared.mod_lt k) waits
    rw [← eq] at data
    simp [Slot.holds,data,unmoved]
  | accessNone pc data =>
    obtain ⟨v,some_⟩ := own.data shared (by rw [pc]; rfl)
    simp [data] at some_
  | access pc data =>
    have := intact _ (by rw [pc]; rfl)
    simp [readOut,none,this]
  | _ => exact none

theorem step_intact {c c' : Config θ V} {label : θ × Label V} (holds : outline.Holds () c)
    (intact : Intact c) (inLap : InLap c label) (noRace : NoRace c label)
    (stepped : step c label = some c') : Intact c' := by
  have after := step_holds holds inLap stepped
  obtain ⟨t,choice⟩ := label
  obtain ⟨l,s,ran,rfl⟩ := Threads.step_eq_some.mp stepped
  have step := prog_step ran
  refine ⟨fun u j at_ => ?_,?_⟩
  · obtain ⟨v,data⟩ := (after.2 u).data after.1 at_
    refine ⟨v,data,?_⟩
    by_cases same : u = t
    · subst same
      simp only [Function.update_self] at at_
      rcases step.accesses holds.1 (holds.2 u) at_ with ⟨pc,slots⟩ | unmoved
      · rw [pc] at at_
        obtain ⟨_,_,unmoved⟩ := intact.values u j at_
        simpa [slots] using unmoved
      · exact unmoved
    · simp only [Function.update_of_ne same] at at_
      obtain ⟨_,_,unmoved⟩ := intact.values u j at_
      rcases step.unmoved unmoved with kept | moves | unlocked
      · exact kept
      · exact absurd at_ (noRace j moves u same)
      · have mine := ((holds.2 u).guards j).mpr (accesses_slot at_)
        simp [unlocked] at mine
  · exact step.faultless holds.1 (holds.2 t) (fun j at_ => (intact.values t j at_).choose_spec.2)
      intact.fault

theorem init_intact {capacity : Nat} {tx rx : θ} : Intact (init (V := V) capacity tx rx) :=
  ⟨nofun,rfl⟩

/-- In every run in which no value is moved out of a slot while another receiver is about to clone
it, nobody uses a value that was moved out. -/
theorem values_intact {padding size capacity : Nat} {tx rx : θ} {labels : List (θ × Label V)}
    {c : Config θ V} (created : slotCount padding size = some capacity)
    (path : Transition.Path step (fun c label => InLap c label ∧ NoRace c label)
      (init capacity tx rx) labels c) : Intact c :=
  (path.invariant (fun c => outline.Holds () c ∧ Intact c)
    (fun _ _ _ kept ok stepped =>
      ⟨step_holds kept.1 ok.1 stepped,step_intact kept.1 kept.2 ok.1 ok.2 stepped⟩)
    ⟨init_holds created tx rx,init_intact⟩).2

/-- One slot; task 0 sends a value that both task 1 and task 2 receive. -/
def subscribeTrace : List (Fin 3 × Label Nat) :=
  [(2,.call .subscribe),(2,.next),(0,.call (.send 7)),(0,.next),(0,.next),(1,.call .tryRecv),
    (2,.call .tryRecv),(1,.next),(2,.next),(1,.next)]

def raceFree (c : Config (Fin 3) V) (label : Fin 3 × Label V) : Bool :=
  match (c.locals label.1).pc, c.shared.board.readers label.1 with
  | .loadSequence j, some r =>
    decide ((c.shared.board.cells j).number < r.position + 1 + 2 ^ 64 ∧
      r.position + 1 < (c.shared.board.cells j).number + 2 ^ 64)
  | .access j true, _ => decide (∀ u, u ≠ label.1 → (c.locals u).pc.accesses ≠ some j)
  | _, _ => true

theorem raceFree_sound (c : Config (Fin 3) V) (label : Fin 3 × Label V)
    (checked : raceFree c label = true) : InLap c label ∧ NoRace c label := by
  constructor
  · intro j r pc reader
    simpa [raceFree,pc,reader] using checked
  · intro j pc
    simpa [raceFree,pc] using checked

theorem slotCount_one : slotCount 0 1 = some 1 := by simp [slotCount]

/-- Task 1 clones the value before task 2 takes it out. -/
theorem values_intact_cloned : ∃ c, Transition.run step (subscribeTrace ++
      [(1,.next),(2,.next),(2,.next),(2,.next)]) (init 1 0 1) = some c ∧
    (c.locals 2).pc = .returned (.received 7) ∧ Intact c := by
  obtain ⟨c,checked,executed,received⟩ : ∃ c, Transition.run
      (fun c l => if raceFree c l then step c l else none)
        (subscribeTrace ++ [(1,.next),(2,.next),(2,.next),(2,.next)]) (init 1 0 1) = some c ∧
      Transition.run step (subscribeTrace ++ [(1,.next),(2,.next),(2,.next),(2,.next)])
        (init 1 0 1) = some c ∧ (c.locals 2).pc = .returned (.received 7) := ⟨_,rfl,rfl,rfl⟩
  exact ⟨c,executed,received,values_intact slotCount_one
    (Transition.run_path_checked raceFree raceFree_sound checked)⟩

/-- Task 1 has counted itself off, task 2 is the last and takes the value out, and task 1 is left
with a slot whose value is gone. -/
theorem values_not_always_intact : ¬ ∀ (labels : List (Fin 3 × Label Nat)) (c : Config (Fin 3) Nat),
    Transition.Path step Transition.anyStep (init 1 0 1) labels c → Intact c := by
  intro always
  obtain ⟨c,executed,accesses,moved⟩ : ∃ c, Transition.run step
      (subscribeTrace ++ [(2,.next),(2,.next)]) (init 1 0 1) = some c ∧
      (c.locals 1).pc.accesses = some 0 ∧ (c.shared.slots 0).moved = true := ⟨_,rfl,rfl,rfl⟩
  have intact := always _ c (Transition.run_path (fun _ _ _ => trivial) executed)
  obtain ⟨_,_,unmoved⟩ := intact.values 1 0 accesses
  rw [moved] at unmoved
  contradiction

end XxCore.Sync.Broadcast
