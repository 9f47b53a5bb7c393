import XxCore.Coroutines.BranchSafety

/-! `coroutines/select.rs` over the branch machine: which future the flag of the branch result
names, compared with the order in which the futures finished. -/
namespace XxCore.Coroutines

variable {O : Child → Type} {E : Type}

inductive Select (α β : Type) where
  | first (result : α) (other : Option β)
  | second (result : β) (other : Option α)

/-- How `Select::from_branch` can fail to return. -/
inductive Abort where
  | resumed (panic : Panic)
  | unreachable
  deriving DecidableEq, Repr

/-- `map(runtime::join)`, with the resumed panic as an abort of the caller. -/
def joinOption : Option (MaybePanic α) → Except Abort (Option α)
  | none => .ok none
  | some result =>
    match join result with
    | .ok value => .ok (some value)
    | .error panic => .error (.resumed panic)

def Select.fromBranch (output : BranchOutput O) :
    Except Abort (Select (O .first) (O .second)) := do
  let a ← joinOption output.first
  let b ← joinOption output.second
  match output.isFirst, a, b with
  | true, some a, b => .ok (.first a b)
  | false, a, some b => .ok (.second b a)
  | _, _, _ => .error .unreachable

/-- `select_future` runs the branch with `(|_| true, |_| true)`. -/
def selectCancel : ShouldCancel O := fun _ _ => true

/-- The branch result names the future that finished first, and so does the `Select` made of
it, unless a panic of one of the futures is resumed instead. -/
structure Faithful (finished : List Child) (output : BranchOutput O) : Prop where
  flag : output.isFirst = true ↔ finished.head? = some .first
  select : match Select.fromBranch output with
    | .ok (.first _ _) => finished.head? = some .first
    | .ok (.second _ _) => finished.head? = some .second
    | .error (.resumed panic) =>
      output.first = some (.error panic) ∨ output.second = some (.error panic)
    | .error .unreachable => False

/-- The output has a value wherever `from_branch` looks for one. -/
def BranchOutput.Winner (output : BranchOutput O) : Prop :=
  if output.isFirst then output.first.isSome = true else output.second.isSome = true

/-- The children finish one after the other, and the list says in which order. -/
def Order (w : World O E) : Prop :=
  ((∀ i, w.life i ≠ .finished) ∧ w.finished = []) ∨
  ∃ i, w.life i = .finished ∧ ((w.life i.other ≠ .finished ∧ w.finished = [i]) ∨
    (w.life i.other = .finished ∧ w.finished = [i,i.other]))

structure Race (w : World O E) : Prop where
  order : Order w
  cancelling : .cancelFirst ∈ w.stack → w.life .first = .inProgress
  yields : ∀ yield ∈ w.yields, Faithful w.finished yield.output

/-- A child that was not finished joins the order behind the other one. -/
theorem Order.live {w : World O E} (order : Order w) (i : Child) (unfinished : w.life i ≠ .finished)
    (stack : List (Frame E)) : Order ({ w with stack := stack }.live i .finished) ∧
    ({ w with stack := stack }.live i .finished).finished.head? =
      some (if w.life i.other = .finished then i.other else i) := by
  rcases order with ⟨none,eq⟩ | ⟨j,finished,⟨other,eq⟩ | ⟨other,eq⟩⟩
  · refine ⟨.inr ⟨i,?_⟩,?_⟩ <;> simp [World.live,none,eq]
  · have : j = i.other := by cases i <;> cases j <;> simp_all [Child.other]
    subst this
    refine ⟨.inr ⟨i.other,?_⟩,?_⟩ <;> simp [World.live,finished,eq]
  · exfalso
    cases i <;> cases j <;> simp_all [Child.other]

/-- A child that starts or pends does not finish. -/
theorem Order.unfinished {w : World O E} (order : Order w) (i : Child) (life : Life)
    (unfinished : w.life i ≠ .finished) (still : life ≠ .finished) (stack : List (Frame E)) :
    Order ({ w with stack := stack }.live i life) := by
  rcases order with ⟨none,eq⟩ | ⟨j,finished,rest⟩
  · refine .inl ⟨?_,by simp [World.live,still,eq]⟩
    rw [Child.forall_iff i]
    simp [World.live,still,none]
  · have : j = i.other := by cases i <;> cases j <;> simp_all [Child.other]
    subst this
    have notBoth : w.finished = [i.other] := by simpa [unfinished] using rest
    exact .inr ⟨i.other,by simpa [World.live] using finished,
      .inl ⟨by simpa [World.live] using still,by simpa [World.live,still] using notBoth⟩⟩

/-- Entering branch code that succeeds starts at most one child and finishes none. -/
theorem Order.enter {w : World O E} (order : Order w) (b : Branch O) (next : Next O E)
    (idle : ∀ i, next = .callRun i → w.life i ≠ .finished) : Order (w.enter (.ok (b,next))) := by
  cases next with
  | callRun i =>
    have := order.unfinished i .running (idle i rfl) (by simp) w.stack
    simpa [Order,World.enter,World.resume,World.live] using this
  | _ => exact order

/-- The output that the end of a stretch of branch code hands out. -/
def Next.output? : Next O E → Option (BranchOutput O)
  | .done output | .complete output => some output
  | _ => none

/-- Code that hands nothing out keeps whatever is asked of an output. -/
theorem Next.silent {next : Next O E} {P : BranchOutput O → Prop} (quiet : next.output? = none) :
    ∀ output, next.output? = some output → P output := by
  simp [quiet]

/-- The step lemma's frame: what entering branch code has to show to keep a race. -/
theorem Race.enter {w : World O E} (b : Branch O) (next : Next O E) (order : Order w)
    (idle : ∀ i, next = .callRun i → w.life i = .idle)
    (calls : ∀ i, next = .callCancel .cancelFirst i → w.life .first = .inProgress)
    (old : .cancelFirst ∈ w.stack → w.life .first = .inProgress)
    (yields : ∀ yield ∈ w.yields, Faithful w.finished yield.output)
    (output : ∀ output, next.output? = some output → Faithful w.finished output) :
    Race (w.enter (.ok (b,next))) := by
  refine ⟨order.enter b next fun i eq => by simp [idle i eq],?_,?_⟩
  · cases next with
    | callRun i =>
      intro mem
      have pending := old (by simpa [World.enter,World.resume] using mem)
      cases i with
      | first => simp [idle .first rfl] at pending
      | second => simpa [World.enter,World.resume] using pending
    | callCancel frame i =>
      intro mem
      rcases List.mem_cons.mp mem with rfl | below
      · exact calls i rfl
      · exact old below
    | _ => exact old
  · cases next with
    | done result =>
      intro yield mem
      rcases List.mem_cons.mp mem with rfl | below
      · exact output _ rfl
      · exact yields _ below
    | complete result =>
      intro yield mem
      rcases List.mem_cons.mp mem with rfl | below
      · exact output _ rfl
      · exact yields _ below
    | _ => exact yields

end XxCore.Coroutines
