/-! Labelled transition functions and their finite runs. The label fixes whatever a
scheduler or an environment may choose, so a step is a partial function. -/
namespace Transition

variable {S : Type u} {L : Type v} {A : Type w}

/-- Run the labels in order; `none` as soon as one of them is not enabled. -/
def run (step : S → L → Option S) : List L → S → Option S
  | [], s => some s
  | l :: rest, s => (step s l).bind (run step rest)

/-- A finite run whose every step is also admitted by `allowed`. -/
inductive Path (step : S → L → Option S) (allowed : S → L → Prop) : S → List L → S → Prop where
  | nil : Path step allowed s [] s
  | cons : allowed s l → step s l = some next → Path step allowed next rest final →
      Path step allowed s (l :: rest) final

/-- No restriction on the steps of a run. -/
def anyStep : S → L → Prop := fun _ _ => True

variable {step : S → L → Option S} {allowed : S → L → Prop}

theorem Path.weaken {weaker : S → L → Prop} (path : Path step allowed s labels final)
    (imp : ∀ s l, allowed s l → weaker s l) : Path step weaker s labels final := by
  induction path with
  | nil => exact .nil
  | cons ok next _ ih => exact .cons (imp _ _ ok) next ih

/-- The same under an invariant that the run keeps. -/
theorem Path.under {weaker : S → L → Prop} (inv : S → Prop)
    (keeps : ∀ s l next, inv s → allowed s l → step s l = some next → weaker s l ∧ inv next)
    (path : Path step allowed s labels final) (start : inv s) : Path step weaker s labels final := by
  induction path with
  | nil => exact .nil
  | cons ok next _ ih =>
    obtain ⟨admitted,kept⟩ := keeps _ _ _ start ok next
    exact .cons admitted next (ih kept)

/-- What holds of the labels of a run is a restriction on its steps. -/
theorem Path.restrict {p : L → Prop} (path : Path step allowed s labels final)
    (every : ∀ l ∈ labels, p l) : Path step (fun s l => allowed s l ∧ p l) s labels final := by
  induction path with
  | nil => exact .nil
  | cons ok next _ ih =>
    exact .cons ⟨ok,every _ (by simp)⟩ next (ih fun l mem => every l (by simp [mem]))

theorem Path.append {middle : S} (path : Path step allowed s labels middle)
    (more : Path step allowed middle labels' final) : Path step allowed s (labels ++ labels') final := by
  induction path with
  | nil => exact more
  | cons ok next _ ih => exact .cons ok next (ih more)

theorem Path.executed (path : Path step allowed s labels final) : run step labels s = some final := by
  induction path with
  | nil => rfl
  | cons _ next _ ih => simpa [run,next] using ih

/-- The invariant rule: what every admitted step keeps, every run keeps. -/
theorem Path.invariant (inv : S → Prop)
    (keeps : ∀ s l next, inv s → allowed s l → step s l = some next → inv next)
    (path : Path step allowed s labels final) (start : inv s) : inv final := by
  induction path with
  | nil => exact start
  | cons ok next _ ih => exact ih (keeps _ _ _ start ok next)

/-- The invariant rule for what is kept about a state and the labels that led to it. -/
theorem Path.history (inv : List L → S → Prop)
    (keeps : ∀ past s l next, inv past s → allowed s l → step s l = some next → inv (past ++ [l]) next)
    (path : Path step allowed s labels final) {past : List L} (start : inv past s) :
    inv (past ++ labels) final := by
  induction path generalizing past with
  | nil => rwa [List.append_nil]
  | @cons s l next rest final ok stepped _ ih =>
    rw [List.append_cons]
    exact ih (keeps past s l next start ok stepped)

/-- The measure rule: if a step lowers a measure when it is one of the `lossy` ones and keeps it
otherwise, a run keeps the measure exactly if none of its steps is lossy. -/
theorem Path.measure (inv : S → Prop) (measure : S → Nat) (lossy : S → L → Prop)
    (keeps : ∀ s l next, inv s → allowed s l → step s l = some next →
      inv next ∧ (lossy s l → measure next < measure s) ∧ (¬ lossy s l → measure next = measure s))
    (path : Path step allowed s labels final) (start : inv s) : measure final ≤ measure s ∧
      (measure final = measure s ↔ Path step (fun s l => allowed s l ∧ ¬ lossy s l) s labels final) := by
  induction path with
  | nil => exact ⟨Nat.le_refl _,iff_of_true rfl .nil⟩
  | @cons s l next rest final ok stepped _ ih =>
    obtain ⟨kept,less,same⟩ := keeps _ _ _ start ok stepped
    obtain ⟨le,exactly⟩ := ih kept
    by_cases lost : lossy s l
    · have less := less lost
      refine ⟨by omega,iff_of_false (by omega) fun path => ?_⟩
      cases path with
      | cons ok => exact ok.2 lost
    · rw [same lost] at le exactly
      refine ⟨le,exactly.trans ⟨fun path => .cons ⟨ok,lost⟩ stepped path,fun path => ?_⟩⟩
      cases path with
      | cons _ other path =>
        obtain rfl := Option.some.inj (stepped.symm.trans other)
        exact path

/-- What the steps of a schedule weigh together. -/
def tally (step : S → L → Option S) (weight : S → L → Nat) : S → List L → Nat
  | _, [] => 0
  | s, l :: rest => weight s l + ((step s l).map fun next => tally step weight next rest).getD 0

theorem tally_zero (s : S) (labels : List L) : tally step (fun _ _ => 0) s labels = 0 := by
  induction labels generalizing s with
  | nil => rfl
  | cons l rest ih => cases next : step s l <;> simp [tally,next,ih]

theorem tally_add (weight weight' : S → L → Nat) (s : S) (labels : List L) :
    tally step (fun s l => weight s l + weight' s l) s labels =
      tally step weight s labels + tally step weight' s labels := by
  induction labels generalizing s with
  | nil => rfl
  | cons l rest ih =>
    cases next : step s l with
    | none => simp [tally,next]
    | some middle =>
      simp only [tally,next,Option.map_some,Option.getD_some,ih]
      omega

/-- The balance rule: if every step pays for what it changes in a measure, so does a run. -/
theorem Path.balance (inv : S → Prop) (measure : S → Nat) (gain loss : S → L → Nat)
    (keeps : ∀ s l next, inv s → allowed s l → step s l = some next →
      inv next ∧ measure s + gain s l = measure next + loss s l)
    (path : Path step allowed s labels final) (start : inv s) :
    measure s + tally step gain s labels = measure final + tally step loss s labels := by
  induction path with
  | nil => rfl
  | @cons s l next rest final ok stepped _ ih =>
    obtain ⟨kept,paid⟩ := keeps _ _ _ start ok stepped
    have more := ih kept
    simp only [tally,stepped,Option.map_some,Option.getD_some]
    omega

/-- The runs of an abstract system that is given by a relation. -/
inductive Trace (rel : A → L → A → Prop) : A → List L → A → Prop where
  | nil : Trace rel a [] a
  | cons : rel a l b → Trace rel b rest final → Trace rel a (l :: rest) final

/-- The refinement rule: if every admitted step is one of the abstract system, under an invariant,
every run is. -/
theorem Path.refines {rel : A → L → A → Prop} (inv : S → Prop) (abs : S → A)
    (simulates : ∀ s l next, inv s → allowed s l → step s l = some next →
      inv next ∧ rel (abs s) l (abs next))
    (path : Path step allowed s labels final) (start : inv s) :
    inv final ∧ Trace rel (abs s) labels (abs final) := by
  induction path with
  | nil => exact ⟨start,.nil⟩
  | cons ok next _ ih =>
    obtain ⟨kept,first⟩ := simulates _ _ _ start ok next
    obtain ⟨holds,more⟩ := ih kept
    exact ⟨holds,.cons first more⟩

/-- The projection rule: if every admitted step is one step of another system or leaves it as it
is, a run is one of the other system, over the labels that are steps there. -/
theorem Path.project {B : Type x} {M : Type y} {other : B → M → Option B} (abs : S → B)
    (label : L → Option M)
    (steps : ∀ s l next m, allowed s l → step s l = some next → label l = some m →
      other (abs s) m = some (abs next))
    (silent : ∀ s l next, allowed s l → step s l = some next → label l = none → abs next = abs s)
    (path : Path step allowed s labels final) :
    Path other anyStep (abs s) (labels.filterMap label) (abs final) := by
  induction path with
  | nil => exact .nil
  | @cons s l next rest final ok stepped _ ih =>
    cases is : label l with
    | none =>
      rw [List.filterMap_cons_none is,← silent s l next ok stepped is]
      exact ih
    | some m =>
      rw [List.filterMap_cons_some is]
      exact .cons trivial (steps s l next m ok stepped is) ih

/-- The stuttering rule: if every admitted step is one of another system or, when its label is not a
`loud` one, leaves that system as it is, then a run without some such labels is a run there. -/
theorem Path.stutters {B : Type x} {other : B → L → Option B} (inv : S → Prop) (abs : S → B)
    (loud : L → Bool)
    (simulates : ∀ s l next, inv s → allowed s l → step s l = some next → inv next ∧
      (other (abs s) l = some (abs next) ∨ loud l = false ∧ abs next = abs s))
    (path : Path step allowed s labels final) (start : inv s) :
    inv final ∧ ∃ labels', labels'.Sublist labels ∧ labels'.filter loud = labels.filter loud ∧
      Path other anyStep (abs s) labels' (abs final) := by
  induction path with
  | nil => exact ⟨start,[],.slnil,rfl,.nil⟩
  | @cons s l next rest final ok stepped _ ih =>
    obtain ⟨kept,first⟩ := simulates _ _ _ start ok stepped
    obtain ⟨holds,labels',part,same,more⟩ := ih kept
    rcases first with first | ⟨silent,still⟩
    · refine ⟨holds,l :: labels',part.cons_cons l,?_,.cons trivial first more⟩
      rw [List.filter_cons,List.filter_cons,same]
    · rw [still] at more
      refine ⟨holds,labels',part.cons l,?_,more⟩
      rw [same,List.filter_cons_of_neg (by simp [silent])]

/-- The descent rule: if every admitted step lowers a measure, it bounds the length of a run. -/
theorem Path.descends (inv : S → Prop) (measure : S → Nat)
    (keeps : ∀ s l next, inv s → allowed s l → step s l = some next →
      inv next ∧ measure next < measure s)
    (path : Path step allowed s labels final) (start : inv s) :
    labels.length + measure final ≤ measure s := by
  induction path with
  | nil => simp
  | cons ok stepped _ ih =>
    obtain ⟨kept,less⟩ := keeps _ _ _ start ok stepped
    have more := ih kept
    simp only [List.length_cons]
    omega

/-- An executed schedule is a run, provided its labels are admitted. -/
theorem run_path {labels : List L} {s final : S} (free : ∀ s, ∀ l ∈ labels, allowed s l)
    (executed : run step labels s = some final) : Path step allowed s labels final := by
  induction labels generalizing s with
  | nil => cases executed; exact .nil
  | cons l rest ih =>
    cases next : step s l with
    | none => simp [run,next] at executed
    | some middle =>
      exact .cons (free s l (by simp)) next
        (ih (fun s l mem => free s l (by simp [mem])) (by simpa [run,next] using executed))

/-- The same with a restriction that a test decides at every step of the schedule. -/
theorem run_path_checked (check : S → L → Bool) (sound : ∀ s l, check s l = true → allowed s l)
    {labels : List L} {s final : S}
    (executed : run (fun s l => if check s l then step s l else none) labels s = some final) :
    Path step allowed s labels final := by
  induction labels generalizing s with
  | nil => cases executed; exact .nil
  | cons l rest ih =>
    cases checked : check s l with
    | false => simp [run,checked] at executed
    | true =>
      cases next : step s l with
      | none => simp [run,checked,next] at executed
      | some middle =>
        exact .cons (sound s l checked) next (ih (by simpa [run,checked,next] using executed))

end Transition
