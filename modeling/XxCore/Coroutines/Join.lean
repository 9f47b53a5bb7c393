import XxCore.Coroutines.Select

/-! `coroutines/join.rs` over the branch machine: a join hands out what both of its futures
finished with, or resumes the panic of one of them. -/
namespace XxCore.Coroutines

variable {O U : Child → Type} {E : Type}

structure Join (α β : Type) where
  first : α
  second : β

/-- `Join::flatten` of two results -/
def Join.flattenResult (join : Join (Except ε α) (Except ε β)) : Except ε (Join α β) := do
  return ⟨← join.first,← join.second⟩

/-- `Join::flatten` of two options -/
def Join.flattenOption (join : Join (Option α) (Option β)) : Option (Join α β) := do
  return ⟨← join.first,← join.second⟩

/-- `Option::transpose` -/
def transpose : Option (Except ε α) → Except ε (Option α)
  | none => .ok none
  | some (.ok value) => .ok (some value)
  | some (.error error) => .error error

def Join.fromBranch (output : BranchOutput O) : Except Abort (Join (O .first) (O .second)) :=
  let result := (Join.mk (transpose output.first) (transpose output.second)).flattenResult
  match join result with
  | .error panic => .error (.resumed panic)
  | .ok join =>
    match join.flattenOption with
    | some join => .ok join
    -- `expect_unchecked`
    | none => .error .unreachable

/-- `join` runs the branch with `(|result| !matches!(result, Ok(Ok(_))), ..)`. -/
def joinCancel : ShouldCancel fun i => MaybePanic (U i) := fun _ result =>
  match result with
  | .ok (.ok _) => false
  | _ => true

/-- The `flatten` inside of `BranchOutput::flatten` -/
def flatten : MaybePanic (MaybePanic α) → MaybePanic α
  | .ok result => result
  | .error panic => .error panic

def BranchOutput.flatten (output : BranchOutput fun i => MaybePanic (U i)) : BranchOutput U :=
  ⟨output.isFirst,output.first.map Coroutines.flatten,output.second.map Coroutines.flatten⟩

/-- What a child finishes with in a step. -/
def Label.value : Label O E → (i : Child) → Option (MaybePanic (O i))
  | .runReturns .first progress, .first => outcome progress
  | .runReturns .second progress, .second => outcome progress
  | .callback .first value, .first => some (.ok value)
  | .callback .second value, .second => some (.ok value)
  | _, _ => none

/-- What a child has finished with. -/
def produced (labels : List (Label O E)) (i : Child) : List (MaybePanic (O i)) :=
  labels.filterMap (·.value i)

section Values

variable {P : (i : Child) → MaybePanic (O i) → Prop} {sc : ShouldCancel O} {b : Branch O}

/-- The handles hold values of their children. -/
def Branch.From (P : (i : Child) → MaybePanic (O i) → Prop) (b : Branch O) : Prop :=
  ∀ i v, b.handles i = .done v → P i v

/-- A branch result is made of values of the children: of both of them, or of the first one alone
if that asked for a cancel. -/
structure BranchOutput.From (sc : ShouldCancel O) (P : (i : Child) → MaybePanic (O i) → Prop)
    (output : BranchOutput O) : Prop where
  first : ∀ v, output.first = some v → P .first v
  second : ∀ v, output.second = some v → P .second v
  whole : output.Both ∨ output.second = none ∧ ∃ v, output.first = some v ∧ sc .first v = true

/-- A stretch of branch code hands on values of the children. -/
def Hands (sc : ShouldCancel O) (P : (i : Child) → MaybePanic (O i) → Prop)
    (r : Except Fault (Branch O × Next O E)) : Prop :=
  ∀ b next, r = .ok (b,next) → b.From P ∧ ∀ output, next.output? = some output → output.From sc P

theorem Hands.silent {next : Next O E} (values : b.From P) (quiet : next.output? = none) :
    Hands sc P (.ok (b,next)) := by
  rintro b' next' eq
  obtain ⟨rfl,rfl⟩ := Prod.mk.inj (Except.ok.inj eq)
  exact ⟨values,Next.silent quiet⟩

theorem Hands.error (fault : Fault) : Hands (E := E) sc P (.error fault) := by
  rintro b next eq
  contradiction

theorem Branch.From.set {i : Child} {state : State (O i)} (values : b.From P)
    (value : ∀ v, state = .done v → P i v) : (b.set i state).From P := by
  intro j v done
  by_cases same : j = i
  · subst same
    exact value v (by simpa using done)
  · exact values j v (by simpa [Branch.set,same] using done)

theorem Branch.From.empty {i : Child} (values : b.From P) : (b.set i .empty).From P :=
  values.set (by simp)

theorem Branch.From.interrupt {flag : Bool} (values : b.From P) :
    Branch.From P { b with interruptCallback := flag } := values

theorem Hands.bind {x : Except Fault α} {f : α → Except Fault (Branch O × Next O E)}
    (each : ∀ a, x = .ok a → Hands sc P (f a)) : Hands sc P (x >>= f) := by
  cases x with
  | error fault => exact .error fault
  | ok a => exact each a rfl

theorem Hands.output {wrap : BranchOutput O → Next O E} {output : BranchOutput O} (values : b.From P)
    (shown : (wrap output).output? = some output) (whole : output.From sc P) :
    Hands sc P (.ok (b,wrap output)) := by
  rintro b' next eq
  obtain ⟨rfl,rfl⟩ := Prod.mk.inj (Except.ok.inj eq)
  refine ⟨values,fun output is => ?_⟩
  obtain rfl := Option.some.inj (shown.symm.trans is)
  exact whole

end Values

@[simp] theorem value_runReturns (i : Child) (progress : MaybePanic (Progress (O i))) :
    (.runReturns i progress : Label O E).value i = outcome progress := by cases i <;> rfl

@[simp] theorem value_callback (i : Child) (value : O i) :
    (.callback i value : Label O E).value i = some (.ok value) := by cases i <;> rfl

theorem produced_append (past : List (Label O E)) (label : Label O E) (i : Child) :
    produced (past ++ [label]) i = produced past i ++ (label.value i).toList := by
  rw [produced,List.filterMap_append]
  cases value : label.value i <;> simp [produced,value]

/-- What a run keeps of the values: those in the branch and those it has handed out are the ones
the children finished with, and each child finishes once. -/
structure Traced (sc : ShouldCancel O) (past : List (Label O E)) (w : World O E) : Prop where
  branch : w.branch.From fun i v => v ∈ produced past i
  yields : ∀ yield ∈ w.yields, yield.output.From sc fun i v => v ∈ produced past i
  once : ∀ i, produced past i = [] ∨ w.life i = .finished ∧ (produced past i).length = 1

variable {sc : ShouldCancel O} {w next : World O E} {past : List (Label O E)}

theorem enter_from {P : (i : Child) → MaybePanic (O i) → Prop} {r : Except Fault (Branch O × Next O E)}
    (hands : Hands sc P r) (branch : w.branch.From P)
    (yields : ∀ yield ∈ w.yields, yield.output.From sc P) :
    (w.enter r).branch.From P ∧ ∀ yield ∈ (w.enter r).yields, yield.output.From sc P := by
  rcases r with fault | ⟨b,after⟩
  · exact ⟨branch,yields⟩
  · obtain ⟨values,output⟩ := hands b after rfl
    cases after with
    | done result | complete result =>
      refine ⟨values,fun yield mem => ?_⟩
      rcases List.mem_cons.mp mem with rfl | old
      · exact output _ rfl
      · exact yields yield old
    | callRun i | callCancel frame i | pending | leave | cancelled result => exact ⟨values,yields⟩

theorem enter_life {r : Except Fault (Branch O × Next O E)} {i : Child}
    (calls : ∀ b j, r = .ok (b,.callRun j) → j ≠ i) : (w.enter r).life i = w.life i := by
  rcases r with fault | ⟨b,after⟩
  · rfl
  · cases after with
    | callRun j => exact Function.update_of_ne (calls b j rfl).symm _ _
    | _ => rfl

/-- A step of a branch: the stretch of branch code it enters, and what its child finishes with. -/
theorem Traced.enter {w' : World O E} {r : Except Fault (Branch O × Next O E)} {label : Label O E}
    (traced : Traced sc past w) (same : w'.branch = w.branch) (yields : w'.yields = w.yields)
    (hands : ∀ P : (i : Child) → MaybePanic (O i) → Prop, w.branch.From P →
      (∀ i v, label.value i = some v → P i v) → Hands sc P r)
    (once : ∀ i, produced (past ++ [label]) i = [] ∨
      (w'.enter r).life i = .finished ∧ (produced (past ++ [label]) i).length = 1) :
    Traced sc (past ++ [label]) (w'.enter r) := by
  have old {i : Child} {v : MaybePanic (O i)} (mem : v ∈ produced past i) :
      v ∈ produced (past ++ [label]) i := by
    rw [produced_append]
    exact List.mem_append_left _ mem
  have branch : w.branch.From fun i v => v ∈ produced (past ++ [label]) i :=
    fun i v done => old (traced.branch i v done)
  obtain ⟨values,outputs⟩ := enter_from (w := w') (hands _ branch fun i v is => by
      simp [produced_append,is]) (by rwa [same]) fun yield mem => by
    obtain ⟨first,second,whole⟩ := traced.yields yield (by rwa [← yields])
    exact ⟨fun v is => old (first v is),fun v is => old (second v is),whole⟩
  exact ⟨values,outputs,once⟩

/-- A child that has not finished has produced nothing. -/
theorem Traced.fresh {i : Child} (traced : Traced sc past w) (unfinished : w.life i ≠ .finished) :
    produced past i = [] := (traced.once i).resolve_right fun done => unfinished done.1

/-- A cancel finishes no child. -/
theorem Traced.quiet {w' : World O E} {r : Except Fault (Branch O × Next O E)} {label : Label O E}
    (traced : Traced sc past w) (same : w'.branch = w.branch) (yields : w'.yields = w.yields)
    (life : w'.life = w.life) (silent : ∀ i, label.value i = none)
    (hands : ∀ P : (i : Child) → MaybePanic (O i) → Prop, w.branch.From P → Hands sc P r)
    (calls : ∀ b j, r ≠ .ok (b,.callRun j)) : Traced sc (past ++ [label]) (w'.enter r) := by
  refine traced.enter same yields (fun P values _ => hands P values) fun i => ?_
  rw [produced_append,silent,enter_life fun b j is => absurd is (calls b j),life]
  simpa using traced.once i

theorem BranchOutput.Both.values {output : BranchOutput O} (both : output.Both) :
    ∃ first second, output.first = some first ∧ output.second = some second := by
  obtain ⟨first,is⟩ := Option.isSome_iff_exists.mp both.1
  obtain ⟨second,is'⟩ := Option.isSome_iff_exists.mp both.2
  exact ⟨first,second,is,is'⟩

end XxCore.Coroutines
