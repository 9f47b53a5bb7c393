import Mathlib.Data.List.Count
import XxCore.Coroutines.Branch

/-! What every order of events keeps of a branch: where its `run` stands, which handles are
taken and which cancel tokens are still held by a frame. -/
namespace XxCore.Coroutines

variable {O : Child → Type} {E : Type}

@[simp] theorem Branch.set_same (b : Branch O) (i : Child) (state : State (O i)) :
    (b.set i state).handles i = state := by simp [Branch.set]

@[simp] theorem Branch.set_first_second (b : Branch O) (state : State (O .first)) :
    (b.set .first state).handles .second = b.handles .second := by simp [Branch.set]

@[simp] theorem Branch.set_second_first (b : Branch O) (state : State (O .second)) :
    (b.set .second state).handles .first = b.handles .first := by simp [Branch.set]

@[simp] theorem Branch.set_interrupt (b : Branch O) (i : Child) (state : State (O i)) :
    (b.set i state).interruptCallback = b.interruptCallback := rfl

theorem Branch.done_iff (b : Branch O) (i : Child) :
    b.done i = true ↔ ∃ value, b.handles i = .done value := by
  unfold Branch.done
  cases b.handles i <;> simp [State.isDone]

theorem Branch.done_eq_false_iff (b : Branch O) (i : Child) :
    b.done i = false ↔ ∀ value, b.handles i ≠ .done value := by
  rw [← Bool.not_eq_true,Branch.done_iff]
  simp

@[simp] theorem Branch.set_other (b : Branch O) (i : Child) (state : State (O i)) :
    (b.set i state).handles i.other = b.handles i.other := by cases i <;> simp [Child.other]

@[simp] theorem Branch.set_of_other (b : Branch O) (i : Child) (state : State (O i.other)) :
    (b.set i.other state).handles i = b.handles i :=
  Function.update_of_ne (by cases i <;> simp [Child.other]) _ _

theorem Child.forall_iff {P : Child → Prop} (i : Child) : (∀ j, P j) ↔ P i ∧ P i.other := by
  constructor
  · intro all; exact ⟨all _,all _⟩
  · rintro ⟨own,rest⟩ j
    cases i <;> cases j <;> assumption

@[simp] theorem Child.other_other (i : Child) : i.other.other = i := by cases i <;> rfl

@[simp] theorem Child.other_ne (i : Child) : i.other ≠ i := by cases i <;> simp [Child.other]

/-- The value a future is finished with when its `run` returned, if it is. -/
def outcome : MaybePanic (Progress α) → Option (MaybePanic α)
  | .ok .pending => none
  | .ok (.done output) => some (.ok output)
  | .error panic => some (.error panic)

theorem progress_eq (b : Branch O) (i : Child) (p : MaybePanic (Progress (O i)))
    (taken : b.handles i = .empty) :
    FutureHandle.progress b i p = .ok (match outcome p with
      | none => (b.set i .pending,none)
      | some result => (b.set i (.done result),some result)) := by
  have notDone : b.done i = false := by simp [Branch.done,State.isDone,taken]
  rcases p with panic | _ | output
  · simp [FutureHandle.progress,FutureHandle.complete,outcome,notDone,bind,Except.bind,pure,
      Except.pure]
  · simp [FutureHandle.progress,outcome]
  · simp [FutureHandle.progress,FutureHandle.complete,outcome,notDone,bind,Except.bind,pure,
      Except.pure]

theorem afterFirst_cases (sc : ShouldCancel O) (b : Branch O)
    (p : MaybePanic (Progress (O .first))) (taken : b.handles .first = .empty)
    (ready : b.handles .second = .ready) :
    (outcome p = none ∧ (afterFirst sc b p : Except Fault (Branch O × Next O E)) =
      .ok ((b.set .first .pending).set .second .empty,.callRun .second)) ∨
    (∃ result, outcome p = some result ∧ sc .first result = false ∧
      (afterFirst sc b p : Except Fault (Branch O × Next O E)) =
        .ok ((b.set .first (.done result)).set .second .empty,.callRun .second)) ∨
    (∃ result, outcome p = some result ∧ sc .first result = true ∧
      ∃ b', (afterFirst sc b p : Except Fault (Branch O × Next O E)) =
        .ok (b',.done ⟨true,some result,none⟩)) := by
  unfold afterFirst
  rw [progress_eq b .first p taken]
  cases finished : outcome p with
  | none => simp [runSecond,FutureHandle.take,ready,bind,Except.bind,pure,Except.pure]
  | some result =>
    cases cancel : sc .first result with
    | false => simp [runSecond,FutureHandle.take,ready,cancel,bind,Except.bind,pure,Except.pure]
    | true =>
      simp [FutureHandle.result,cancel,bind,Except.bind,pure,Except.pure]

/-- Both futures finished: their results are taken and neither is missing. -/
def BranchOutput.Both (output : BranchOutput O) : Prop :=
  output.first.isSome = true ∧ output.second.isSome = true

theorem results_eq (b : Branch O) (isFirst : Bool) (first : b.done .first = true)
    (second : b.done .second = true) :
    ∃ b' output, results b isFirst = .ok (b',output) ∧ output.isFirst = isFirst ∧ output.Both := by
  obtain ⟨v₁,h₁⟩ := (Branch.done_iff _ _).mp first
  obtain ⟨v₂,h₂⟩ := (Branch.done_iff _ _).mp second
  simp [results,FutureHandle.result,h₁,h₂,bind,Except.bind,pure,Except.pure,BranchOutput.Both]

theorem afterSecond_cases (sc : ShouldCancel O) (b : Branch O)
    (p : MaybePanic (Progress (O .second))) (taken : b.handles .second = .empty)
    (settled : b.handles .first = .pending ∨ b.done .first = true) :
    (outcome p = none ∧ (afterSecond sc b p : Except Fault (Branch O × Next O E)) =
      .ok (b.set .second .pending,.pending)) ∨
    (∃ result, outcome p = some result ∧ b.done .first = true ∧
      ∃ b' output, (afterSecond sc b p : Except Fault (Branch O × Next O E)) =
        .ok (b',.done output) ∧ output.isFirst = true ∧ output.Both) ∨
    (∃ result, outcome p = some result ∧ b.handles .first = .pending ∧
      sc .second result = false ∧ (afterSecond sc b p : Except Fault (Branch O × Next O E)) =
        .ok (b.set .second (.done result),.pending)) ∨
    (∃ result, outcome p = some result ∧ b.handles .first = .pending ∧
      sc .second result = true ∧ (afterSecond sc b p : Except Fault (Branch O × Next O E)) =
        .ok ({ (b.set .second (.done result)).set .first .empty with interruptCallback := true },
          .callCancel .cancelFirst .first)) := by
  unfold afterSecond
  rw [progress_eq b .second p taken]
  cases finished : outcome p with
  | none => simp [bind,Except.bind,pure,Except.pure]
  | some result =>
    rcases settled with pending | first
    · cases cancel : sc .second result with
      | false =>
        simp [Branch.done,State.isDone,pending,cancel,finishRun,bind,Except.bind]
      | true =>
        simp [Branch.done,State.isDone,pending,cancel,FutureHandle.cancel,FutureHandle.takeCancel,
          State.takeCancel,bind,Except.bind,pure,Except.pure]
        rfl
    · obtain ⟨v,h⟩ := (Branch.done_iff _ _).mp first
      obtain ⟨b',output,eq,flag,both⟩ := results_eq (b.set .second (.done result)) true
        (by simp [Branch.done,State.isDone,h]) (by simp [Branch.done,State.isDone])
      simp [Branch.done,State.isDone,h,finishRun,eq,bind,Except.bind,pure,Except.pure,flag,both]

theorem afterCancelFirst_cases (b : Branch O) (second : b.done .second = true)
    (first : b.interruptCallback = false → b.done .first = true) :
    (b.interruptCallback = true ∧ (afterCancelFirst b : Except Fault (Branch O × Next O E)) =
      .ok ({ b with interruptCallback := false },.pending)) ∨
    (b.interruptCallback = false ∧
      ∃ b' output, (afterCancelFirst b : Except Fault (Branch O × Next O E)) =
        .ok (b',.done output) ∧ output.isFirst = true ∧ output.Both) := by
  cases flag : b.interruptCallback with
  | true => simp [afterCancelFirst,finishRun,flag]
  | false =>
    obtain ⟨b',output,eq,isFirst,both⟩ :=
      results_eq { b with interruptCallback := false } true (first flag) second
    simp [afterCancelFirst,finishRun,flag,eq,isFirst,both,bind,Except.bind,pure,Except.pure]

theorem completeChild_cases (sc : ShouldCancel O) (b : Branch O) (i : Child) (value : O i)
    (unfinished : b.done i = false) :
    let b₁ := b.set i (.done (.ok value))
    let next : Except Fault (Branch O × Next O E) := completeChild sc b i value
    (b.interruptCallback = true ∧ next = .ok ({ b₁ with interruptCallback := false },.leave)) ∨
    (b.interruptCallback = false ∧ b.done i.other = true ∧
      ∃ b' output, next = .ok (b',.complete output) ∧
        output.isFirst = decide (i ≠ .first) ∧ output.Both) ∨
    (b.interruptCallback = false ∧ b.done i.other = false ∧ sc i (.ok value) = false ∧
      next = .ok (b₁,.leave)) ∨
    (b.interruptCallback = false ∧ b.handles i.other = .pending ∧ sc i (.ok value) = true ∧
      next = .ok (b₁.set i.other .empty,.callCancel .cancelOther i.other)) ∨
    (b.interruptCallback = false ∧ b.done i.other = false ∧ b.handles i.other ≠ .pending ∧
      sc i (.ok value) = true ∧ next = .error .cancelTwice) := by
  intro b₁ next
  have first : FutureHandle.complete b i (.ok value) = .ok b₁ := by
    simp [FutureHandle.complete,unfinished,b₁]
  have eq : next = completeSingle b₁ i (sc i (.ok value)) := by
    simp [next,completeChild,first,bind,Except.bind]
  have own : b₁.done i = true := by simp [b₁,Branch.done,State.isDone]
  have rest : b₁.done i.other = b.done i.other := by simp [b₁,Branch.done]
  have both : (b₁.done .first && b₁.done .second) = b.done i.other := by
    cases i
    · rw [own,← rest]; rfl
    · rw [own,← rest]; simp [Child.other]
  have flag : b₁.interruptCallback = b.interruptCallback := rfl
  rw [eq]
  unfold completeSingle
  rw [both,flag]
  cases interrupt : b.interruptCallback with
  | true => simp
  | false =>
    cases done : b.done i.other with
    | true =>
      rw [done,Bool.and_eq_true] at both
      obtain ⟨b',output,result,isFirst,complete⟩ :=
        results_eq b₁ (decide (i ≠ .first)) both.1 both.2
      refine .inr (.inl ⟨rfl,rfl,b',output,?_,isFirst,complete⟩)
      simp only [Bool.false_eq_true,↓reduceIte,result,bind,Except.bind,pure,Except.pure]
    | false =>
      cases cancel : sc i (.ok value) with
      | false => simp
      | true =>
        have token : (b₁.handles i.other) = b.handles i.other := by simp [b₁]
        cases handle : b.handles i.other <;>
          simp [FutureHandle.cancel,FutureHandle.takeCancel,State.takeCancel,token,handle,bind,
            Except.bind,pure,Except.pure]

theorem Branch.set_self (b : Branch O) (i : Child) : b.set i (b.handles i) = b := by
  simp [Branch.set]

theorem State.takeCancel_other (state : State α) (other : state ≠ .pending) :
    state.takeCancel = (false,state) := by
  cases state <;> simp_all [State.takeCancel]

theorem cancelAll_cases (b : Branch O) :
    (b.handles .first = .pending ∧ b.handles .second = .pending ∧
      (cancelAll b : Branch O × Next O E) =
        ({ (b.set .first .empty).set .second .empty with interruptCallback := true },
          .callCancel (.cancelAllFirst true) .first)) ∨
    (b.handles .first = .pending ∧ b.handles .second ≠ .pending ∧
      (cancelAll b : Branch O × Next O E) =
        (b.set .first .empty,.callCancel (.cancelAllFirst false) .first)) ∨
    (b.handles .first ≠ .pending ∧ b.handles .second = .pending ∧
      (cancelAll b : Branch O × Next O E) =
        (b.set .second .empty,.callCancel (.cancelAllSecond none) .second)) ∨
    (b.handles .first ≠ .pending ∧ b.handles .second ≠ .pending ∧
      ∃ result, (cancelAll b : Branch O × Next O E) = (b,.cancelled result)) := by
  have keep (b : Branch O) (i : Child) (other : b.handles i ≠ .pending) :
      FutureHandle.takeCancel b i = (false,b) := by
    simp [FutureHandle.takeCancel,State.takeCancel_other _ other,Branch.set_self]
  have take (b : Branch O) (i : Child) (pending : b.handles i = .pending) :
      FutureHandle.takeCancel b i = (true,b.set i .empty) := by
    simp [FutureHandle.takeCancel,State.takeCancel,pending]
  by_cases first : b.handles .first = .pending <;> by_cases second : b.handles .second = .pending
  · exact .inl ⟨first,second,by
      simp [cancelAll,take b _ first,take (b.set .first .empty) .second (by simpa using second)]⟩
  · exact .inr (.inl ⟨first,second,by
      simp [cancelAll,take b _ first,keep (b.set .first .empty) .second (by simpa using second)]⟩)
  · exact .inr (.inr (.inl ⟨first,second,by
      simp [cancelAll,keep b _ first,take b _ second,cancelAllRest]⟩))
  · exact .inr (.inr (.inr ⟨first,second,_,by
      simp only [cancelAll,keep b _ first,keep b _ second,cancelAllRest]; rfl⟩))

def Frame.isCancel : Frame E → Bool
  | .run _ | .cancelFirst => false
  | _ => true

/-- The frame of `cancel_all` that still has to run the second token. -/
def Frame.holdsSecond : Frame E → Bool
  | .cancelAllFirst second => second
  | _ => false

def cancelRuns (cancels : List CancelRun) (i : Child) : Nat := cancels.countP (·.child = i)

/-- Tokens taken from the handle of a child and not run yet. -/
def heldTokens (stack : List (Frame E)) : Child → Nat
  | .first => 0
  | .second => stack.countP Frame.holdsSecond

@[simp] theorem cancelRuns_cons (cancels : List CancelRun) (i j : Child) (life : Life) :
    cancelRuns (⟨j,life⟩ :: cancels) i = cancelRuns cancels i + if j = i then 1 else 0 := by
  simp [cancelRuns,List.countP_cons]

@[simp] theorem heldTokens_cons (stack : List (Frame E)) (frame : Frame E)
    (other : frame.holdsSecond = false) (i : Child) :
    heldTokens (frame :: stack) i = heldTokens stack i := by
  cases i <;> simp [heldTokens,other]

/-- The branch is in progress: its `run` returned `Pending` and it has not completed. -/
structure Waiting (w : World O E) : Prop where
  handle : ∀ i, (w.branch.handles i = .pending ∧ w.life i = .inProgress) ∨
    (w.branch.handles i = .empty ∧ w.life i = .inProgress) ∨
    ((∃ value, w.branch.handles i = .done value) ∧ w.life i = .finished)
  unfinished : ∃ i, w.life i = .inProgress
  interrupt : w.branch.interruptCallback = true ↔ ∀ i, w.branch.handles i = .empty
  paired : ∀ i, w.branch.handles i = .pending → w.branch.handles i.other ≠ .empty
  frames : ∀ frame ∈ w.stack, frame.isCancel = true
  tokens : ∀ i, cancelRuns w.cancels i + heldTokens w.stack i ≤ 1
  untouched : ∀ i, w.branch.handles i = .pending → cancelRuns w.cancels i + heldTokens w.stack i = 0
  yields : w.yields = []

structure Completed (w : World O E) : Prop where
  life : ∀ i, w.life i ≠ .inProgress
  frames : ∀ frame ∈ w.stack, frame.isCancel = true
  tokens : ∀ i, cancelRuns w.cancels i + heldTokens w.stack i ≤ 1
  yields : w.yields.length = 1

/-- The five places where the branch can stand between two stretches of its code. -/
inductive Shape (w : World O E) : Prop where
  | fresh (status : w.status = .fresh) (stack : w.stack = []) (branch : w.branch = .new)
      (life : ∀ i, w.life i = .idle) (cancels : w.cancels = []) (yields : w.yields = [])
  | first (status : w.status = .running) (stack : w.stack = [.run .first])
      (taken : w.branch.handles .first = .empty) (ready : w.branch.handles .second = .ready)
      (life : w.life .first = .running ∧ w.life .second = .idle)
      (interrupt : w.branch.interruptCallback = false)
      (cancels : w.cancels = []) (yields : w.yields = [])
  | second (status : w.status = .running) (stack : w.stack = [.run .second])
      (taken : w.branch.handles .second = .empty) (life : w.life .second = .running)
      (settled : (w.branch.handles .first = .pending ∧ w.life .first = .inProgress) ∨
        ((∃ value, w.branch.handles .first = .done value) ∧ w.life .first = .finished))
      (interrupt : w.branch.interruptCallback = false)
      (cancels : w.cancels = []) (yields : w.yields = [])
  | cancelling (status : w.status = .running) (stack : w.stack = [.cancelFirst])
      (second : ∃ value, w.branch.handles .second = .done value) (life : w.life .second = .finished)
      (settled : (w.branch.handles .first = .empty ∧ w.life .first = .inProgress ∧
          w.branch.interruptCallback = true) ∨
        ((∃ value, w.branch.handles .first = .done value) ∧ w.life .first = .finished ∧
          w.branch.interruptCallback = false))
      (cancels : w.cancels = [⟨.first,.inProgress⟩]) (yields : w.yields = [])
  | waiting (status : w.status = .pending) (waiting : Waiting w)
  | completed (status : w.status = .complete) (completed : Completed w)

theorem init_shape : Shape (World.init : World O E) :=
  .fresh rfl rfl rfl (fun _ => rfl) rfl rfl

@[simp] theorem World.enter_ok_fault (w : World O E) (entered : Branch O × Next O E) :
    (w.enter (.ok entered)).fault = w.fault := by
  rcases entered with ⟨b,next⟩
  cases next <;> rfl

@[simp] theorem World.live_fault (w : World O E) (i : Child) (life : Life) :
    (w.live i life).fault = w.fault := rfl

/-- A step of the world is a stretch of branch code entered under its contract guard. -/
theorem callback_enter {sc : ShouldCancel O} {w next : World O E} {i : Child} {value : O i}
    (stepped : step sc w (.callback i value) = some next) :
    w.fault = none ∧ w.life i = .inProgress ∧
      next = (w.live i .finished).enter (completeChild sc w.branch i value) := by
  unfold step at stepped
  split at stepped
  · contradiction
  · rename_i noFault
    simp only [Option.ite_none_right_eq_some,Option.some.injEq] at stepped
    exact ⟨by simpa using noFault,stepped.1,stepped.2.symm⟩

theorem callback_waiting {sc : ShouldCancel O} {w next : World O E} {i : Child} {value : O i}
    (status : w.status = .pending) (waiting : Waiting w)
    (stepped : step sc w (.callback i value) = some next) (ok : next.fault = none) :
    Shape next := by
  obtain ⟨noFault,inProgress,rfl⟩ := callback_enter stepped
  obtain ⟨handle,unfinished,interrupt,paired,frames,tokens,untouched,yields⟩ := waiting
  have handleOwn := handle i
  have handleOther := handle i.other
  have notDone : w.branch.done i = false := by
    rw [Branch.done_eq_false_iff]
    intro v h
    simp [h,inProgress] at handleOwn
  rw [Child.forall_iff i] at tokens untouched interrupt
  rcases completeChild_cases (E := E) sc w.branch i value notDone with
    ⟨flag,eq⟩ | ⟨flag,done,b',output,eq,isFirst,both⟩ | ⟨flag,open_,keep,eq⟩ |
    ⟨flag,pending,cancel,eq⟩ | ⟨_,_,_,_,eq⟩ <;> rw [eq] at ok ⊢
  · have empty := interrupt.mp flag
    refine .waiting status ⟨?_,⟨i.other,?_⟩,?_,?_,frames,?_,?_,yields⟩
    all_goals try rw [Child.forall_iff i]
    · simpa [World.enter,World.resume,World.live] using handleOther
    · simpa [World.enter,World.resume,World.live,empty.2] using handleOther
    · simp [World.enter,World.resume,World.live]
    · cases i <;> simp [World.enter,World.resume,World.live,Child.other]
    · exact tokens
    · simp [World.enter,World.resume,World.live,empty.2]
  · obtain ⟨v,finished⟩ := (Branch.done_iff _ _).mp done
    have life : w.life i.other = .finished := by simpa [finished] using handleOther
    refine .completed rfl ⟨?_,frames,?_,by simp [World.enter,World.resume,World.live,yields]⟩
    all_goals rw [Child.forall_iff i]
    · simp [World.enter,World.resume,World.live,life]
    · exact tokens
  · have other := (Branch.done_eq_false_iff _ _).mp open_
    have life : w.life i.other = .inProgress := by
      rcases handleOther with h | h | ⟨⟨v,h⟩,_⟩
      · exact h.2
      · exact h.2
      · exact absurd h (other v)
    refine .waiting status ⟨?_,⟨i.other,?_⟩,?_,?_,frames,?_,?_,yields⟩
    all_goals try rw [Child.forall_iff i]
    · simpa [World.enter,World.resume,World.live] using handleOther
    · simpa [World.enter,World.resume,World.live] using life
    · simp [World.enter,World.resume,World.live,flag]
    · cases i <;> simp [World.enter,World.resume,World.live,Child.other]
    · exact tokens
    · simpa [World.enter,World.resume,World.live] using untouched.2
  · have life : w.life i.other = .inProgress := by simpa [pending] using handleOther
    have unspent := untouched.2 pending
    refine .waiting status ⟨?_,⟨i.other,?_⟩,?_,?_,?_,?_,?_,yields⟩
    all_goals try rw [Child.forall_iff i]
    · simp [World.enter,World.resume,World.live,life]
    · simpa [World.enter,World.resume,World.live] using life
    · simp [World.enter,World.resume,World.live,flag]
    · simp [World.enter,World.resume,World.live]
    · simpa [World.enter,World.resume,World.live,Frame.isCancel] using frames
    · simp [World.enter,World.resume,World.live,heldTokens_cons w.stack .cancelOther rfl]
      omega
    · simp [World.enter,World.resume,World.live]
  · simp [World.enter] at ok

theorem callback_shape {sc : ShouldCancel O} {w next : World O E} {i : Child} {value : O i}
    (shape : Shape w) (stepped : step sc w (.callback i value) = some next)
    (ok : next.fault = none) : Shape next := by
  obtain ⟨noFault,inProgress,eq⟩ := callback_enter stepped
  cases shape with
  | fresh _ _ _ life => simp [life] at inProgress
  | first _ _ _ _ life => cases i <;> simp [life] at inProgress
  | second status stack taken life settled interrupt cancels yields =>
    cases i with
    | second => simp [life] at inProgress
    | first =>
      have pending : w.branch.handles .first = .pending := by simpa [inProgress] using settled
      have notDone : w.branch.done .first = false := by simp [Branch.done,State.isDone,pending]
      subst eq
      rcases completeChild_cases (E := E) sc w.branch .first value notDone with
        ⟨flag,_⟩ | ⟨_,done,_⟩ | ⟨_,_,_,eq⟩ | ⟨_,pending,_⟩ | ⟨_,_,_,_,eq⟩
      · simp [interrupt] at flag
      · simp [Child.other,Branch.done,State.isDone,taken] at done
      · rw [eq]
        exact .second status stack (by simpa [World.enter,World.resume,World.live] using taken)
          (by simpa [World.enter,World.resume,World.live] using life)
          (by simp [World.enter,World.resume,World.live])
          interrupt cancels yields
      · simp [Child.other,taken] at pending
      · simp [eq,World.enter] at ok
  | cancelling status stack second life settled cancels yields =>
    cases i with
    | second => simp [life] at inProgress
    | first =>
      have open_ : w.branch.handles .first = .empty ∧ w.branch.interruptCallback = true := by
        simpa [inProgress] using settled
      have notDone : w.branch.done .first = false := by simp [Branch.done,State.isDone,open_]
      subst eq
      rcases completeChild_cases (E := E) sc w.branch .first value notDone with
        ⟨_,eq⟩ | ⟨flag,_⟩ | ⟨flag,_⟩ | ⟨flag,_⟩ | ⟨flag,_⟩
      · rw [eq]
        exact .cancelling status stack (by simpa [World.enter,World.resume,World.live] using second)
          (by simpa [World.enter,World.resume,World.live] using life)
          (by simp [World.enter,World.resume,World.live]) cancels yields
      · simp [open_] at flag
      · simp [open_] at flag
      · simp [open_] at flag
      · simp [open_] at flag
  | waiting status waiting => exact callback_waiting status waiting stepped ok
  | completed _ completed => exact absurd inProgress (completed.life i)

theorem start_shape {sc : ShouldCancel O} {w next : World O E} (shape : Shape w)
    (stepped : step sc w .start = some next) : Shape next := by
  unfold step at stepped
  split at stepped
  · contradiction
  simp only [Option.ite_none_right_eq_some,Option.some.injEq] at stepped
  obtain ⟨status,rfl⟩ := stepped
  cases shape with
  | fresh _ stack branch life cancels yields =>
    have eq : (runFirst w.branch : Except Fault (Branch O × Next O E)) =
        .ok (Branch.new.set .first .empty,.callRun .first) := by
      simp [runFirst,FutureHandle.take,branch,Branch.new,bind,Except.bind,pure,Except.pure]
    rw [eq]
    exact .first rfl (by simp [World.enter,World.resume,stack])
      (by simp [World.enter,World.resume])
      (by simp [World.enter,World.resume,Branch.new]) (by simp [World.enter,World.resume,life])
      rfl cancels yields
  | _ => simp_all

theorem runReturns_enter {sc : ShouldCancel O} {w next : World O E} {i : Child}
    {p : MaybePanic (Progress (O i))} (stepped : step sc w (.runReturns i p) = some next) :
    w.fault = none ∧ ∃ rest, w.stack = .run i :: rest ∧
      next = ({ w with stack := rest }.live i (.after p)).enter (afterRun sc w.branch i p) := by
  unfold step at stepped
  split at stepped
  · contradiction
  · rename_i noFault
    simp only at stepped
    split at stepped
    · rename_i j rest stack
      simp only [Option.ite_none_right_eq_some,Option.some.injEq] at stepped
      obtain ⟨rfl,rfl⟩ := stepped
      exact ⟨by simpa using noFault,rest,stack,rfl⟩
    · contradiction

/-- A future's life after its `run` tells whether it finished there. -/
theorem Life.after_none {p : MaybePanic (Progress α)} (pending : outcome p = none) :
    Life.after p = .inProgress := by
  rcases p with _ | _ | _ <;> simp_all [outcome,Life.after]

theorem Life.after_some {p : MaybePanic (Progress α)} (finished : outcome p = some result) :
    Life.after p = .finished := by
  rcases p with _ | _ | _ <;> simp_all [outcome,Life.after]

theorem runReturns_shape {sc : ShouldCancel O} {w next : World O E} {i : Child}
    {p : MaybePanic (Progress (O i))} (shape : Shape w)
    (stepped : step sc w (.runReturns i p) = some next) : Shape next := by
  obtain ⟨noFault,rest,top,rfl⟩ := runReturns_enter stepped
  cases shape with
  | fresh _ stack => simp [stack] at top
  | first status stack taken ready life interrupt cancels yields =>
    cases i with
    | second => simp [stack] at top
    | first =>
      obtain rfl : [] = rest := by simpa [stack] using top
      rcases afterFirst_cases (E := E) sc w.branch p taken ready with
        ⟨finished,eq⟩ | ⟨result,finished,keep,eq⟩ | ⟨result,finished,cancel,b',eq⟩ <;>
        simp only [afterRun,eq]
      · exact .second status (by simp [World.enter,World.resume,World.live])
          (by simp [World.enter,World.resume,World.live])
          (by simp [World.enter,World.resume,World.live])
          (by simp [World.enter,World.resume,World.live,Life.after_none finished])
          interrupt cancels yields
      · exact .second status (by simp [World.enter,World.resume,World.live])
          (by simp [World.enter,World.resume,World.live])
          (by simp [World.enter,World.resume,World.live])
          (by simp [World.enter,World.resume,World.live,Life.after_some finished])
          interrupt cancels yields
      · refine .completed rfl ⟨?_,?_,?_,?_⟩
        · rw [Child.forall_iff .first]
          simp [World.enter,World.resume,World.live,Life.after_some finished,Child.other,life]
        · simp [World.enter,World.resume,World.live]
        · intro i
          cases i <;> simp [World.enter,World.resume,World.live,cancels,cancelRuns,heldTokens]
        · simp [World.enter,World.resume,World.live,yields]
  | second status stack taken life settled interrupt cancels yields =>
    cases i with
    | first => simp [stack] at top
    | second =>
      obtain rfl : [] = rest := by simpa [stack] using top
      have known : w.branch.handles .first = .pending ∨ w.branch.done .first = true := by
        rw [Branch.done_iff]
        exact settled.imp And.left And.left
      rcases afterSecond_cases (E := E) sc w.branch p taken known with
        ⟨finished,eq⟩ | ⟨result,finished,done,b',output,eq,_⟩ | ⟨result,finished,pending,keep,eq⟩ |
        ⟨result,finished,pending,cancel,eq⟩ <;> simp only [afterRun,eq]
      · refine .waiting rfl ⟨?_,⟨.second,?_⟩,?_,?_,?_,?_,?_,yields⟩
        all_goals try rw [Child.forall_iff .first]
        · simp [World.enter,World.resume,World.live,Life.after_none finished,Child.other]
          exact settled.imp_right .inr
        · simp [World.enter,World.resume,World.live,Life.after_none finished]
        · simp [World.enter,World.resume,World.live,interrupt,Child.other]
        · rcases settled with ⟨h,_⟩ | ⟨⟨v,h⟩,_⟩ <;>
            simp [World.enter,World.resume,World.live,Child.other,h]
        · simp [World.enter,World.resume,World.live]
        · simp [World.enter,World.resume,World.live,cancels,cancelRuns,heldTokens,Child.other]
        · simp [World.enter,World.resume,World.live,cancels,cancelRuns,heldTokens,Child.other]
      · obtain ⟨v,first⟩ := (Branch.done_iff _ _).mp done
        have firstLife : w.life .first = .finished := by simpa [first] using settled
        refine .completed rfl ⟨?_,?_,?_,?_⟩
        all_goals try rw [Child.forall_iff .first]
        · simp [World.enter,World.resume,World.live,Life.after_some finished,Child.other,firstLife]
        · simp [World.enter,World.resume,World.live]
        · simp [World.enter,World.resume,World.live,cancels,cancelRuns,heldTokens,Child.other]
        · simp [World.enter,World.resume,World.live,yields]
      · have firstLife : w.life .first = .inProgress := by simpa [pending] using settled
        refine .waiting rfl ⟨?_,⟨.first,?_⟩,?_,?_,?_,?_,?_,yields⟩
        all_goals try rw [Child.forall_iff .first]
        · simp [World.enter,World.resume,World.live,Life.after_some finished,Child.other,pending,
            firstLife]
        · simp [World.enter,World.resume,World.live,firstLife]
        · simp [World.enter,World.resume,World.live,interrupt,Child.other]
        · simp [World.enter,World.resume,World.live,Child.other]
        · simp [World.enter,World.resume,World.live]
        · simp [World.enter,World.resume,World.live,cancels,cancelRuns,heldTokens,Child.other]
        · simp [World.enter,World.resume,World.live,cancels,cancelRuns,heldTokens,Child.other]
      · have firstLife : w.life .first = .inProgress := by simpa [pending] using settled
        exact .cancelling status (by simp [World.enter,World.resume,World.live])
          (by simp [World.enter,World.resume,World.live])
          (by simp [World.enter,World.resume,World.live,Life.after_some finished])
          (by simp [World.enter,World.resume,World.live,firstLife])
          (by simp [World.enter,World.resume,World.live,cancels,firstLife]) yields
  | cancelling _ stack => simp [stack] at top
  | waiting _ waiting => simpa [top,Frame.isCancel] using waiting.frames
  | completed _ completed => simpa [top,Frame.isCancel] using completed.frames

theorem cancelReturns_enter {sc : ShouldCancel O} {w next : World O E} {result : CancelResult E}
    (stepped : step sc w (.cancelReturns result) = some next) :
    w.fault = none ∧ ∃ frame rest, w.stack = frame :: rest ∧ (∀ i, frame ≠ .run i) ∧
      next = { w with stack := rest }.enter (afterCancel w.branch result frame) := by
  unfold step at stepped
  split at stepped
  · contradiction
  · rename_i noFault
    simp only at stepped
    split at stepped
    · contradiction
    · contradiction
    · rename_i frame rest notRun stack
      obtain rfl := Option.some.inj stepped
      exact ⟨by simpa using noFault,frame,rest,stack,fun i h => notRun i (by simp [h]),rfl⟩

/-- Once `run` has returned, popping a cancel frame only moves a held token to its run. -/
theorem afterCancel_keeps (w : World O E) (result : CancelResult E)
    (top : w.stack = frame :: rest) (frames : ∀ frame ∈ w.stack, frame.isCancel = true) :
    let next := { w with stack := rest }.enter (afterCancel w.branch result frame)
    next.branch = w.branch ∧ next.life = w.life ∧ next.status = w.status ∧
    next.yields = w.yields ∧ (∀ frame ∈ next.stack, frame.isCancel = true) ∧
    ∀ i, cancelRuns next.cancels i + heldTokens next.stack i =
      cancelRuns w.cancels i + heldTokens w.stack i := by
  have below : ∀ frame ∈ rest, frame.isCancel = true := fun f mem => frames f (by simp [top,mem])
  have isCancel : frame.isCancel = true := frames frame (by simp [top])
  intro next
  cases frame with
  | run => simp [Frame.isCancel] at isCancel
  | cancelFirst => simp [Frame.isCancel] at isCancel
  | cancelOther =>
    exact ⟨rfl,rfl,rfl,rfl,below,fun i => by
      rw [top,heldTokens_cons rest .cancelOther rfl]; rfl⟩
  | cancelAllFirst second =>
    cases second with
    | false =>
      exact ⟨rfl,rfl,rfl,rfl,below,fun i => by
        rw [top,heldTokens_cons rest (.cancelAllFirst false) rfl]; rfl⟩
    | true =>
      refine ⟨rfl,rfl,rfl,rfl,?_,?_⟩
      · simpa [next,afterCancel,cancelAllRest,World.enter,World.resume,Frame.isCancel] using below
      · intro i
        cases i <;>
          simp [next,afterCancel,cancelAllRest,World.enter,World.resume,top,heldTokens,
            List.countP_cons,Frame.holdsSecond]
        omega
  | cancelAllSecond first =>
    exact ⟨rfl,rfl,rfl,rfl,below,fun i => by
      rw [top,heldTokens_cons rest (.cancelAllSecond first) rfl]; rfl⟩

/-- While `run` waits for the first future's cancel, the flag tells whether it finished. -/
theorem Shape.cancelFirst {w : World O E} (shape : Shape w) (top : w.stack = .cancelFirst :: rest) :
    w.branch.done .second = true ∧
      (w.branch.interruptCallback = false → w.branch.done .first = true) := by
  cases shape with
  | cancelling _ _ second _ settled =>
    refine ⟨(Branch.done_iff _ _).mpr second,fun flag => ?_⟩
    rw [Branch.done_iff]
    simpa [flag] using settled.imp_right And.left
  | waiting _ waiting => simpa [top,Frame.isCancel] using waiting.frames
  | completed _ completed => simpa [top,Frame.isCancel] using completed.frames
  | _ => simp_all

theorem cancelReturns_shape {sc : ShouldCancel O} {w next : World O E} {result : CancelResult E}
    (shape : Shape w) (stepped : step sc w (.cancelReturns result) = some next) :
    Shape next := by
  obtain ⟨noFault,frame,rest,top,notRun,rfl⟩ := cancelReturns_enter stepped
  have shape' := shape
  cases shape with
  | fresh _ stack => simp [stack] at top
  | first _ stack =>
    obtain rfl : .run .first = frame := by simpa [stack] using (List.cons.inj (stack ▸ top)).1
    exact absurd rfl (notRun _)
  | second _ stack =>
    obtain rfl : .run .second = frame := by simpa [stack] using (List.cons.inj (stack ▸ top)).1
    exact absurd rfl (notRun _)
  | cancelling status stack second life settled cancels yields =>
    obtain ⟨rfl,rfl⟩ : .cancelFirst = frame ∧ [] = rest := by simpa [stack] using top
    obtain ⟨done,known⟩ := shape'.cancelFirst stack
    obtain ⟨v₂,h₂⟩ := second
    rcases afterCancelFirst_cases (E := E) w.branch done known with
      ⟨flag,eq⟩ | ⟨flag,b',output,eq,_⟩ <;> simp only [afterCancel,eq]
    · obtain ⟨empty,firstLife⟩ : w.branch.handles .first = .empty ∧ w.life .first = .inProgress := by
        simpa [flag] using settled
      refine .waiting rfl ⟨?_,⟨.first,firstLife⟩,?_,?_,?_,?_,?_,yields⟩
      all_goals try rw [Child.forall_iff .first]
      · simp [World.enter,World.resume,Child.other,empty,firstLife,h₂,life]
      · simp [World.enter,World.resume,Child.other,h₂]
      · simp [World.enter,World.resume,Child.other,h₂,empty]
      · simp [World.enter,World.resume]
      · simp [World.enter,World.resume,cancels,cancelRuns,heldTokens,Child.other]
      · simp [World.enter,World.resume,cancels,cancelRuns,heldTokens,Child.other,empty]
    · have firstLife : w.life .first = .finished := by
        rcases settled with ⟨_,_,raised⟩ | ⟨_,firstLife,_⟩
        · simp [flag] at raised
        · exact firstLife
      refine .completed rfl ⟨?_,?_,?_,?_⟩
      all_goals try rw [Child.forall_iff .first]
      · simp [World.enter,World.resume,Child.other,firstLife,life]
      · simp [World.enter,World.resume]
      · simp [World.enter,World.resume,cancels,cancelRuns,heldTokens,Child.other]
      · simp [World.enter,World.resume,yields]
  | waiting status waiting =>
    obtain ⟨branch,life,sameStatus,sameYields,frames,tokens⟩ :=
      afterCancel_keeps w result top waiting.frames
    refine .waiting (sameStatus.trans status) ⟨?_,?_,?_,?_,frames,?_,?_,?_⟩
    · rw [branch,life]; exact waiting.handle
    · rw [life]; exact waiting.unfinished
    · rw [branch]; exact waiting.interrupt
    · rw [branch]; exact waiting.paired
    · intro i; rw [tokens]; exact waiting.tokens i
    · intro i; rw [tokens,branch]; exact waiting.untouched i
    · rw [sameYields]; exact waiting.yields
  | completed status completed =>
    obtain ⟨branch,life,sameStatus,sameYields,frames,tokens⟩ :=
      afterCancel_keeps w result top completed.frames
    refine .completed (sameStatus.trans status) ⟨?_,frames,?_,?_⟩
    · rw [life]; exact completed.life
    · intro i; rw [tokens]; exact completed.tokens i
    · rw [sameYields]; exact completed.yields

theorem cancelBranch_enter {sc : ShouldCancel O} {w next : World O E}
    (stepped : step sc w .cancelBranch = some next) :
    w.fault = none ∧ w.status = .pending ∧ w.cancelled = false ∧
      next = { w with cancelled := true }.enter (.ok (cancelAll w.branch)) := by
  unfold step at stepped
  split at stepped
  · contradiction
  · rename_i noFault
    simp only [Option.ite_none_right_eq_some,Option.some.injEq] at stepped
    obtain ⟨⟨status,once⟩,rfl⟩ := stepped
    exact ⟨by simpa using noFault,status,once,rfl⟩

theorem cancelBranch_shape {sc : ShouldCancel O} {w next : World O E}
    (shape : Shape w) (stepped : step sc w .cancelBranch = some next) :
    Shape next := by
  obtain ⟨_,status,_,rfl⟩ := cancelBranch_enter stepped
  cases shape with
  | waiting status waiting =>
    obtain ⟨handle,unfinished,interrupt,paired,frames,tokens,untouched,yields⟩ := waiting
    rw [Child.forall_iff .first] at handle tokens untouched interrupt paired
    simp only [Child.other] at handle tokens untouched interrupt paired
    rcases cancelAll_cases (E := E) w.branch with
      ⟨first,second,eq⟩ | ⟨first,second,eq⟩ | ⟨first,second,eq⟩ | ⟨first,second,result,eq⟩ <;>
      rw [eq]
    · have lives : w.life .first = .inProgress ∧ w.life .second = .inProgress := by
        simpa [first,second] using handle
      have unspent := And.intro (untouched.1 first) (untouched.2 second)
      refine .waiting status ⟨?_,unfinished,?_,?_,?_,?_,?_,yields⟩
      all_goals try rw [Child.forall_iff .first]
      · simp [World.enter,World.resume,Child.other,lives]
      · simp [World.enter,World.resume,Child.other]
      · simp [World.enter,World.resume,Child.other]
      · simpa [World.enter,World.resume,Frame.isCancel] using frames
      · simp only [heldTokens] at unspent
        simp [World.enter,World.resume,Child.other,heldTokens,List.countP_cons,Frame.holdsSecond]
        omega
      · simp [World.enter,World.resume,Child.other]
    · have life : w.life .first = .inProgress := by simpa [first] using handle.1
      have unspent := untouched.1 first
      have flag : w.branch.interruptCallback = false := by simpa [first] using interrupt
      refine .waiting status ⟨?_,unfinished,?_,?_,?_,?_,?_,yields⟩
      all_goals try rw [Child.forall_iff .first]
      · simp [World.enter,World.resume,Child.other,life]
        exact handle.2
      · simp [World.enter,World.resume,Child.other,flag,paired.1 first]
      · simp [World.enter,World.resume,Child.other,second]
      · simpa [World.enter,World.resume,Frame.isCancel] using frames
      · simp only [heldTokens] at unspent tokens
        simp [World.enter,World.resume,Child.other,heldTokens,Frame.holdsSecond]
        omega
      · simp [World.enter,World.resume,Child.other,second]
    · have life : w.life .second = .inProgress := by simpa [second] using handle.2
      have unspent := untouched.2 second
      have flag : w.branch.interruptCallback = false := by simpa [second] using interrupt
      refine .waiting status ⟨?_,unfinished,?_,?_,?_,?_,?_,yields⟩
      all_goals try rw [Child.forall_iff .first]
      · simp [World.enter,World.resume,Child.other,life]
        exact handle.1
      · simp [World.enter,World.resume,Child.other,flag,paired.2 second]
      · simp [World.enter,World.resume,Child.other,first]
      · simpa [World.enter,World.resume,Frame.isCancel] using frames
      · simp only [heldTokens] at unspent tokens
        simp [World.enter,World.resume,Child.other,heldTokens,Frame.holdsSecond]
        omega
      · simp [World.enter,World.resume,Child.other,first]
    · refine .waiting status ⟨?_,unfinished,?_,?_,frames,?_,?_,yields⟩
      all_goals rw [Child.forall_iff .first]
      · exact handle
      · exact interrupt
      · exact paired
      · exact tokens
      · exact untouched
  | _ => simp_all

/-- A child in progress is one whose handle has no result yet. -/
theorem Shape.notDone {w : World O E} (shape : Shape w) {i : Child}
    (inProgress : w.life i = .inProgress) : w.branch.done i = false := by
  rw [Branch.done_eq_false_iff]
  intro v h
  cases shape with
  | fresh _ _ branch => simp [branch,Branch.new] at h
  | first _ _ taken ready => cases i <;> simp [taken,ready] at h
  | second _ _ taken life settled => cases i <;> simp_all
  | cancelling _ _ second life settled => cases i <;> simp_all
  | waiting _ waiting => simpa [h,inProgress] using waiting.handle i
  | completed _ completed => exact completed.life i inProgress

/-- Every order of events keeps the shape, as long as no fault was reached. -/
theorem step_shape {sc : ShouldCancel O} {w next : World O E} {label : Label O E}
    (shape : Shape w) (stepped : step sc w label = some next) (ok : next.fault = none) :
    Shape next := by
  cases label with
  | start => exact start_shape shape stepped
  | runReturns i p => exact runReturns_shape shape stepped
  | callback i value => exact callback_shape shape stepped ok
  | cancelReturns result => exact cancelReturns_shape shape stepped
  | cancelBranch => exact cancelBranch_shape shape stepped

end XxCore.Coroutines
