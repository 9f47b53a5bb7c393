import XxCore.Coroutines.BranchInvariant

/-! The contract of a branch over all orders of events: one result, at most one cancel per
child and only while the child is in progress, no result taken from an unfinished handle. Two
orders break it, and `Orderly` excludes exactly those. -/
namespace XxCore.Coroutines

variable {O : Child → Type} {E : Type}

/-- What a branch owes its caller and its children in every state of a run. -/
structure Safe (w : World O E) : Prop where
  atMostOnce : w.yields.length ≤ 1
  exactlyOnce : w.status ≠ .fresh → w.stack = [] → (∀ i, w.life i ≠ .inProgress) →
    w.yields.length = 1
  cancelOnce : ∀ i, cancelRuns w.cancels i ≤ 1
  cancelPending : ∀ cancel ∈ w.cancels, cancel.life = .inProgress
  noFault : w.fault = none

/-- The first future does not complete, asking for a cancel, while the second one's `run` is
executing; the second one does not complete while `cancel_all` holds its token. -/
def Orderly (sc : ShouldCancel O) (w : World O E) : Label O E → Prop
  | .callback .first value => .run .second ∈ w.stack → sc .first (.ok value) = false
  | .callback .second _ => .cancelAllFirst true ∉ w.stack
  | _ => True

/-- The facts about cancel tokens that `Orderly` adds to the shape. -/
structure Tokens (w : World O E) : Prop where
  held : .cancelAllFirst true ∈ w.stack → w.life .second = .inProgress
  cancels : ∀ cancel ∈ w.cancels, cancel.life = .inProgress

structure Invariant (w : World O E) : Prop extends Tokens w where
  shape : Shape w
  noFault : w.fault = none

theorem init_invariant : Invariant (World.init : World O E) :=
  ⟨⟨by simp [World.init],by simp [World.init]⟩,init_shape,rfl⟩

/-- In a pending branch an unfinished child without flag still has its token in the handle. -/
theorem Waiting.other_pending {w : World O E} (waiting : Waiting w) {i : Child}
    (inProgress : w.life i = .inProgress) (flag : w.branch.interruptCallback = false)
    (unfinished : w.branch.done i.other = false) : w.branch.handles i.other = .pending := by
  have notDone := (Branch.done_eq_false_iff _ _).mp unfinished
  rcases waiting.handle i.other with ⟨pending,_⟩ | ⟨empty,_⟩ | ⟨⟨v,done⟩,_⟩
  · exact pending
  · rcases waiting.handle i with ⟨pending,_⟩ | ⟨own,_⟩ | ⟨_,finished⟩
    · exact absurd empty (waiting.paired i pending)
    · have both := waiting.interrupt.mpr ((Child.forall_iff i).mpr ⟨own,empty⟩)
      simp [flag] at both
    · simp [inProgress] at finished
  · exact absurd done (notDone v)

theorem callback_noFault {sc : ShouldCancel O} {w next : World O E} {i : Child} {value : O i}
    (shape : Shape w) (orderly : Orderly sc w (.callback i value))
    (stepped : step sc w (.callback i value) = some next) : next.fault = none := by
  obtain ⟨noFault,inProgress,rfl⟩ := callback_enter stepped
  have notDone := shape.notDone inProgress
  rcases completeChild_cases (E := E) sc w.branch i value notDone with
    ⟨_,eq⟩ | ⟨_,_,_,_,eq,_⟩ | ⟨_,_,_,eq⟩ | ⟨_,_,_,eq⟩ | ⟨flag,unfinished,taken,cancel,_⟩
  · rw [eq]; exact noFault
  · rw [eq]; exact noFault
  · rw [eq]; exact noFault
  · rw [eq]; exact noFault
  · exfalso
    cases shape with
    | fresh _ _ _ life => simp [life] at inProgress
    | first _ _ _ _ life => cases i <;> simp [life] at inProgress
    | second _ stack _ life =>
      cases i with
      | first => simpa [cancel] using orderly (by simp [stack])
      | second => simp [life] at inProgress
    | cancelling _ _ _ life settled =>
      cases i with
      | first => simp [inProgress,flag] at settled
      | second => simp [life] at inProgress
    | waiting _ waiting => exact taken (waiting.other_pending inProgress flag unfinished)
    | completed _ completed => exact completed.life i inProgress

theorem runReturns_noFault {sc : ShouldCancel O} {w next : World O E} {i : Child}
    {p : MaybePanic (Progress (O i))} (shape : Shape w)
    (stepped : step sc w (.runReturns i p) = some next) : next.fault = none := by
  obtain ⟨noFault,rest,top,rfl⟩ := runReturns_enter stepped
  cases shape with
  | fresh _ stack => simp [stack] at top
  | first _ stack taken ready =>
    obtain ⟨rfl,-⟩ : .first = i ∧ [] = rest := by simpa [stack] using top
    rcases afterFirst_cases (E := E) sc w.branch p taken ready with
      ⟨_,eq⟩ | ⟨_,_,_,eq⟩ | ⟨_,_,_,_,eq⟩ <;> simpa [afterRun,eq] using noFault
  | second _ stack taken life settled =>
    obtain ⟨rfl,-⟩ : .second = i ∧ [] = rest := by simpa [stack] using top
    have known : w.branch.handles .first = .pending ∨ w.branch.done .first = true := by
      rw [Branch.done_iff]
      exact settled.imp And.left And.left
    rcases afterSecond_cases (E := E) sc w.branch p taken known with
      ⟨_,eq⟩ | ⟨_,_,_,_,_,eq,_⟩ | ⟨_,_,_,_,eq⟩ | ⟨_,_,_,_,eq⟩ <;>
      simpa [afterRun,eq] using noFault
  | cancelling _ stack => simp [stack] at top
  | waiting _ waiting => simpa [top,Frame.isCancel] using waiting.frames
  | completed _ completed => simpa [top,Frame.isCancel] using completed.frames

theorem cancelReturns_noFault {sc : ShouldCancel O} {w next : World O E}
    {result : CancelResult E} (shape : Shape w)
    (stepped : step sc w (.cancelReturns result) = some next) : next.fault = none := by
  obtain ⟨noFault,frame,rest,top,notRun,rfl⟩ := cancelReturns_enter stepped
  cases frame with
  | run i => exact absurd rfl (notRun i)
  | cancelFirst =>
    obtain ⟨second,first⟩ := shape.cancelFirst top
    rcases afterCancelFirst_cases (E := E) w.branch second first with
      ⟨_,eq⟩ | ⟨_,_,_,eq,_⟩ <;> simpa [afterCancel,eq] using noFault
  | cancelOther => exact noFault
  | cancelAllFirst second => cases second <;> exact noFault
  | cancelAllSecond first => exact noFault

theorem step_noFault {sc : ShouldCancel O} {w next : World O E} {label : Label O E}
    (shape : Shape w) (orderly : Orderly sc w label)
    (stepped : step sc w label = some next) : next.fault = none := by
  cases label with
  | start =>
    cases shape with
    | fresh status _ branch =>
      simp only [step,status,branch,Branch.new,runFirst,FutureHandle.take,ite_true,bind,
        Except.bind,pure,Except.pure] at stepped
      split at stepped
      · contradiction
      · rename_i noFault
        obtain rfl := Option.some.inj stepped
        simpa using noFault
    | _ => simp_all [step]
  | runReturns i p => exact runReturns_noFault shape stepped
  | callback i value => exact callback_noFault shape orderly stepped
  | cancelReturns result => exact cancelReturns_noFault shape stepped
  | cancelBranch =>
    obtain ⟨noFault,_,_,rfl⟩ := cancelBranch_enter stepped
    rcases cancelAll_cases (E := E) w.branch with
      ⟨_,_,eq⟩ | ⟨_,_,eq⟩ | ⟨_,_,eq⟩ | ⟨_,_,_,eq⟩ <;> rw [eq] <;> exact noFault

theorem callback_tokens {sc : ShouldCancel O} {w next : World O E} {i : Child} {value : O i}
    (inv : Invariant w) (orderly : Orderly sc w (.callback i value))
    (stepped : step sc w (.callback i value) = some next) : Tokens next := by
  have ok := callback_noFault inv.shape orderly stepped
  obtain ⟨_,inProgress,rfl⟩ := callback_enter stepped
  have held : .cancelAllFirst true ∈ w.stack → Function.update w.life i .finished .second =
      .inProgress := by
    intro mem
    cases i with
    | first => simpa using inv.held mem
    | second => exact absurd mem orderly
  rcases completeChild_cases (E := E) sc w.branch i value (inv.shape.notDone inProgress) with
    ⟨_,eq⟩ | ⟨_,_,_,_,eq,_⟩ | ⟨_,_,_,eq⟩ | ⟨_,pending,_,eq⟩ | ⟨_,_,_,_,eq⟩ <;> rw [eq] at ok ⊢
  · exact ⟨held,inv.cancels⟩
  · exact ⟨held,inv.cancels⟩
  · exact ⟨held,inv.cancels⟩
  · refine ⟨fun mem => held (by simpa [World.enter,World.resume,World.live] using mem),?_⟩
    have life : w.life i.other = .inProgress := by
      cases inv.shape with
      | fresh _ _ _ idle => simp [idle] at inProgress
      | first _ _ _ _ life => cases i <;> simp [life] at inProgress
      | second _ _ taken life => cases i <;> simp_all [Child.other]
      | cancelling _ _ second life => cases i <;> simp_all
      | waiting _ waiting => simpa [pending] using waiting.handle i.other
      | completed _ completed => exact absurd inProgress (completed.life i)
    simpa [World.enter,World.resume,World.live,life] using inv.cancels
  · simp [World.enter] at ok

theorem runReturns_tokens {sc : ShouldCancel O} {w next : World O E} {i : Child}
    {p : MaybePanic (Progress (O i))} (inv : Invariant w)
    (stepped : step sc w (.runReturns i p) = some next) : Tokens next := by
  obtain ⟨_,rest,top,rfl⟩ := runReturns_enter stepped
  cases inv.shape with
  | fresh _ stack => simp [stack] at top
  | first _ stack taken ready _ _ cancels =>
    obtain ⟨rfl,rfl⟩ : .first = i ∧ [] = rest := by simpa [stack] using top
    rcases afterFirst_cases (E := E) sc w.branch p taken ready with
      ⟨_,eq⟩ | ⟨_,_,_,eq⟩ | ⟨_,_,_,_,eq⟩ <;> simp only [afterRun,eq] <;>
      exact ⟨by simp [World.enter,World.resume,World.live],
        by simp [World.enter,World.resume,World.live,cancels]⟩
  | second _ stack taken life settled _ cancels =>
    obtain ⟨rfl,rfl⟩ : .second = i ∧ [] = rest := by simpa [stack] using top
    have known : w.branch.handles .first = .pending ∨ w.branch.done .first = true := by
      rw [Branch.done_iff]
      exact settled.imp And.left And.left
    rcases afterSecond_cases (E := E) sc w.branch p taken known with
      ⟨_,eq⟩ | ⟨_,_,_,_,_,eq,_⟩ | ⟨_,_,_,_,eq⟩ | ⟨_,_,pending,_,eq⟩ <;> simp only [afterRun,eq] <;>
      refine ⟨by simp [World.enter,World.resume,World.live],?_⟩
    · simp [World.enter,World.resume,World.live,cancels]
    · simp [World.enter,World.resume,World.live,cancels]
    · simp [World.enter,World.resume,World.live,cancels]
    · have life : w.life .first = .inProgress := by simpa [pending] using settled
      simp [World.enter,World.resume,World.live,cancels,life]
  | cancelling _ stack => simp [stack] at top
  | waiting _ waiting => simpa [top,Frame.isCancel] using waiting.frames
  | completed _ completed => simpa [top,Frame.isCancel] using completed.frames

theorem cancelReturns_tokens {sc : ShouldCancel O} {w next : World O E}
    {result : CancelResult E} (inv : Invariant w)
    (stepped : step sc w (.cancelReturns result) = some next) : Tokens next := by
  obtain ⟨_,frame,rest,top,notRun,rfl⟩ := cancelReturns_enter stepped
  have held : .cancelAllFirst true ∈ rest → w.life .second = .inProgress :=
    fun mem => inv.held (by simp [top,mem])
  cases frame with
  | run i => exact absurd rfl (notRun i)
  | cancelFirst =>
    obtain ⟨second,first⟩ := inv.shape.cancelFirst top
    rcases afterCancelFirst_cases (E := E) w.branch second first with
      ⟨_,eq⟩ | ⟨_,_,_,eq,_⟩ <;> simp only [afterCancel,eq] <;> exact ⟨held,inv.cancels⟩
  | cancelOther => exact ⟨held,inv.cancels⟩
  | cancelAllFirst second =>
    cases second with
    | false => exact ⟨held,inv.cancels⟩
    | true =>
      have life := inv.held (by simp [top])
      refine ⟨fun _ => life,?_⟩
      simpa [afterCancel,cancelAllRest,World.enter,World.resume,life] using inv.cancels
  | cancelAllSecond first => exact ⟨held,inv.cancels⟩

theorem cancelBranch_tokens {sc : ShouldCancel O} {w next : World O E} (inv : Invariant w)
    (stepped : step sc w .cancelBranch = some next) : Tokens next := by
  obtain ⟨_,status,_,rfl⟩ := cancelBranch_enter stepped
  cases inv.shape with
  | waiting _ waiting =>
    have life (i) (pending : w.branch.handles i = .pending) : w.life i = .inProgress := by
      simpa [pending] using waiting.handle i
    rcases cancelAll_cases (E := E) w.branch with
      ⟨first,second,eq⟩ | ⟨first,_,eq⟩ | ⟨_,second,eq⟩ | ⟨_,_,_,eq⟩ <;> rw [eq]
    · refine ⟨fun _ => life _ second,?_⟩
      simpa [World.enter,World.resume,life _ first] using inv.cancels
    · refine ⟨fun mem => inv.held (by simpa [World.enter,World.resume] using mem),?_⟩
      simpa [World.enter,World.resume,life _ first] using inv.cancels
    · refine ⟨fun mem => inv.held (by simpa [World.enter,World.resume] using mem),?_⟩
      simpa [World.enter,World.resume,life _ second] using inv.cancels
    · exact ⟨inv.held,inv.cancels⟩
  | _ => simp_all

theorem step_invariant {sc : ShouldCancel O} {w next : World O E} {label : Label O E}
    (inv : Invariant w) (orderly : Orderly sc w label)
    (stepped : step sc w label = some next) : Invariant next := by
  have noFault := step_noFault inv.shape orderly stepped
  refine ⟨?_,step_shape inv.shape stepped noFault,noFault⟩
  cases label with
  | start =>
    cases inv.shape with
    | fresh status stack branch _ cancels =>
      simp only [step,inv.noFault,status,branch,Branch.new,runFirst,FutureHandle.take,ite_true,
        bind,Except.bind,pure,Except.pure,Option.isSome_none,Bool.false_eq_true,ite_false] at stepped
      obtain rfl := Option.some.inj stepped
      exact ⟨by simp [World.enter,World.resume,stack],by simp [World.enter,World.resume,cancels]⟩
    | _ => simp_all [step]
  | runReturns i p => exact runReturns_tokens inv stepped
  | callback i value => exact callback_tokens inv orderly stepped
  | cancelReturns result => exact cancelReturns_tokens inv stepped
  | cancelBranch => exact cancelBranch_tokens inv stepped

theorem Invariant.safe {w : World O E} (inv : Invariant w) : Safe w := by
  refine ⟨?_,?_,?_,inv.cancels,inv.noFault⟩
  · cases inv.shape with
    | waiting _ waiting => simp [waiting.yields]
    | completed _ completed => exact Nat.le_of_eq completed.yields
    | _ => simp_all
  · intro started left idle
    cases inv.shape with
    | waiting _ waiting =>
      obtain ⟨i,inProgress⟩ := waiting.unfinished
      exact absurd inProgress (idle i)
    | completed _ completed => exact completed.yields
    | _ => simp_all
  · intro i
    cases inv.shape with
    | waiting _ waiting => exact Nat.le_trans (Nat.le_add_right _ _) (waiting.tokens i)
    | completed _ completed => exact Nat.le_trans (Nat.le_add_right _ _) (completed.tokens i)
    | cancelling _ _ _ _ _ cancels => cases i <;> simp [cancels,cancelRuns]
    | _ => simp_all [cancelRuns]

/-- Every run whose events all come in one of the orders `Orderly` admits is safe throughout. -/
theorem branch_safe (sc : ShouldCancel O) (labels : List (Label O E)) (w : World O E)
    (path : Transition.Path (step sc) (Orderly sc) World.init labels w) : Safe w :=
  (path.invariant Invariant (fun _ _ _ inv orderly stepped => step_invariant inv orderly stepped)
    init_invariant).safe

/-- Both futures pend, the second one finishes first, and the first one is cancelled. -/
def raceTrace : List (Label (fun _ => Unit) Unit) :=
  [.start,.runReturns .first (.ok .pending),.runReturns .second (.ok .pending),
    .callback .second (),.callback .first (),.cancelReturns (.ok (.ok ()))]

theorem race_safe : ∃ w, Transition.run (step fun _ _ => true) raceTrace World.init = some w ∧
    Safe w := by
  refine ⟨_,rfl,branch_safe (fun _ _ => true) raceTrace _ ?_⟩
  refine .cons trivial rfl (.cons trivial rfl (.cons trivial rfl (.cons ?_ rfl (.cons ?_ rfl
    (.cons trivial rfl .nil)))))
  · exact List.not_mem_nil
  · intro mem
    change _ ∈ [Frame.cancelOther] at mem
    simp at mem

/-- The first future completes inside the second one's `run`: the cancel finds no token. -/
theorem first_completes_in_second_run :
    ∃ w : World (fun _ => Unit) Unit, Transition.run (step fun _ _ => true)
      [.start,.runReturns .first (.ok .pending),.callback .first ()] World.init = some w ∧
      w.fault = some .cancelTwice := ⟨_,rfl,rfl⟩

/-- The second future completes inside the first one's cancel: `cancel_all` still runs its
token, after the branch itself was completed. -/
theorem second_completes_in_first_cancel :
    ∃ w : World (fun _ => Unit) Unit, Transition.run (step fun _ _ => true)
      [.start,.runReturns .first (.ok .pending),.runReturns .second (.ok .pending),.cancelBranch,
        .callback .second (),.callback .first (),.cancelReturns (.ok (.ok ()))] World.init =
      some w ∧ w.yields.length = 1 ∧ ⟨.second,.finished⟩ ∈ w.cancels :=
  ⟨_,rfl,rfl,.head _⟩

theorem branch_not_always_safe :
    ¬ ∀ (sc : ShouldCancel fun _ => Unit) (labels : List (Label (fun _ => Unit) Unit)) w,
      Transition.Path (step sc) Transition.anyStep World.init labels w → Safe w := by
  intro always
  obtain ⟨w,executed,fault⟩ : ∃ w : World (fun _ => Unit) Unit,
      Transition.run (step fun _ _ => true)
        [.start,.runReturns .first (.ok .pending),.callback .first ()] World.init = some w ∧
      w.fault = some .cancelTwice := ⟨_,rfl,rfl⟩
  have safe := always _ _ w (Transition.run_path (fun _ _ _ => trivial) executed)
  simp [safe.noFault] at fault

end XxCore.Coroutines
