import XxCore.Coroutines.Select

/-! Whatever the order of events, the flag of a branch result is that of a future with a result. -/
namespace XxCore.Coroutines

variable {O : Child → Type} {E : Type} {sc : ShouldCancel O} {w next : World O E}

/-- All that was handed out has a winner. -/
def Winners (w : World O E) : Prop := ∀ yield ∈ w.yields, yield.output.Winner

theorem BranchOutput.Both.winner {output : BranchOutput O} (both : output.Both) :
    output.Winner := by
  rw [BranchOutput.Winner]
  split
  · exact both.1
  · exact both.2

theorem Winners.enter (b : Branch O) (after : Next O E) (old : Winners w)
    (output : ∀ output, after.output? = some output → output.Winner) :
    Winners (w.enter (.ok (b,after))) := by
  cases after with
  | done result | complete result =>
    intro yield mem
    rcases List.mem_cons.mp mem with rfl | below
    · exact output _ rfl
    · exact old _ below
  | callRun i | callCancel frame i | pending | leave | cancelled result => exact old

theorem start_winners (shape : Shape w) (old : Winners w) (stepped : step sc w .start = some next) :
    Winners next := by
  cases shape with
  | fresh status stack branch =>
    simp only [step,status,branch,Branch.new,runFirst,FutureHandle.take,ite_true,bind,Except.bind,
      pure,Except.pure,Option.ite_none_left_eq_some,Option.some.injEq] at stepped
    obtain ⟨_,rfl⟩ := stepped
    exact old
  | _ => simp_all [step]

theorem callback_winners {i : Child} {value : O i} (shape : Shape w) (old : Winners w)
    (stepped : step sc w (.callback i value) = some next) : Winners next := by
  obtain ⟨_,inProgress,rfl⟩ := callback_enter stepped
  rcases completeChild_cases (E := E) sc w.branch i value (shape.notDone inProgress) with
    ⟨_,eq⟩ | ⟨_,_,_,output,eq,_,both⟩ | ⟨_,_,_,eq⟩ | ⟨_,_,_,eq⟩ | ⟨_,_,_,_,eq⟩ <;> rw [eq]
  · exact .enter _ _ old (Next.silent rfl)
  · refine .enter _ _ old fun other same => ?_
    obtain rfl : output = other := by simpa [Next.output?] using same
    exact both.winner
  · exact .enter _ _ old (Next.silent rfl)
  · exact .enter _ _ old (Next.silent rfl)
  · exact old

theorem runReturns_winners {i : Child} {p : MaybePanic (Progress (O i))} (shape : Shape w)
    (old : Winners w) (stepped : step sc w (.runReturns i p) = some next) : Winners next := by
  obtain ⟨_,rest,top,rfl⟩ := runReturns_enter stepped
  cases shape with
  | fresh _ stack => simp [stack] at top
  | first _ stack taken ready =>
    obtain ⟨rfl,rfl⟩ : .first = i ∧ [] = rest := by simpa [stack] using top
    rcases afterFirst_cases (E := E) sc w.branch p taken ready with
      ⟨_,eq⟩ | ⟨_,_,_,eq⟩ | ⟨result,_,_,_,eq⟩ <;> simp only [afterRun,eq]
    · exact .enter _ _ old (Next.silent rfl)
    · exact .enter _ _ old (Next.silent rfl)
    · refine .enter _ _ old ?_
      rintro _ ⟨⟩
      simp [BranchOutput.Winner]
  | second _ stack taken life settled =>
    obtain ⟨rfl,rfl⟩ : .second = i ∧ [] = rest := by simpa [stack] using top
    have known : w.branch.handles .first = .pending ∨ w.branch.done .first = true := by
      rw [Branch.done_iff]
      exact settled.imp And.left And.left
    rcases afterSecond_cases (E := E) sc w.branch p taken known with
      ⟨_,eq⟩ | ⟨_,_,_,_,output,eq,_,both⟩ | ⟨_,_,_,_,eq⟩ | ⟨_,_,_,_,eq⟩ <;> simp only [afterRun,eq]
    · exact .enter _ _ old (Next.silent rfl)
    · refine .enter _ _ old ?_
      rintro _ ⟨⟩
      exact both.winner
    · exact .enter _ _ old (Next.silent rfl)
    · exact .enter _ _ old (Next.silent rfl)
  | cancelling _ stack => simp [stack] at top
  | waiting _ waiting => simpa [top,Frame.isCancel] using waiting.frames
  | completed _ completed => simpa [top,Frame.isCancel] using completed.frames

theorem cancelReturns_winners {result : CancelResult E} (shape : Shape w) (old : Winners w)
    (stepped : step sc w (.cancelReturns result) = some next) : Winners next := by
  obtain ⟨_,frame,rest,top,notRun,rfl⟩ := cancelReturns_enter stepped
  cases frame with
  | run i => exact absurd rfl (notRun i)
  | cancelFirst =>
    obtain ⟨second,first⟩ := shape.cancelFirst top
    rcases afterCancelFirst_cases (E := E) w.branch second first with
      ⟨_,eq⟩ | ⟨_,_,output,eq,_,both⟩ <;> simp only [afterCancel,eq]
    · exact .enter _ _ old (Next.silent rfl)
    · refine .enter _ _ old ?_
      rintro _ ⟨⟩
      exact both.winner
  | cancelOther => exact .enter _ _ old (Next.silent rfl)
  | cancelAllFirst second => cases second <;> exact .enter _ _ old (Next.silent rfl)
  | cancelAllSecond first => exact .enter _ _ old (Next.silent rfl)

theorem step_winners {label : Label O E} (shape : Shape w) (old : Winners w)
    (stepped : step sc w label = some next) : Winners next := by
  cases label with
  | start => exact start_winners shape old stepped
  | runReturns i p => exact runReturns_winners shape old stepped
  | callback i value => exact callback_winners shape old stepped
  | cancelReturns result => exact cancelReturns_winners shape old stepped
  | cancelBranch =>
    obtain ⟨_,_,_,rfl⟩ := cancelBranch_enter stepped
    rcases cancelAll_cases (E := E) w.branch with
      ⟨_,_,eq⟩ | ⟨_,_,eq⟩ | ⟨_,_,eq⟩ | ⟨_,_,_,eq⟩ <;> rw [eq] <;> exact .enter _ _ old (Next.silent rfl)

/-- Every result that a branch hands out has a winner, whatever its futures do. -/
theorem path_winners {labels : List (Label O E)}
    (path : Transition.Path (step sc) Transition.anyStep World.init labels w) : Winners w := by
  have kept := path.invariant (fun w => Winners w ∧ (w.fault = none → Shape w))
    (fun w label next kept _ stepped => by
      have running : w.fault = none := by
        by_contra fault
        simp [step,Option.isSome_iff_ne_none.mpr fault] at stepped
      exact ⟨step_winners (kept.2 running) kept.1 stepped,
        fun ok => step_shape (kept.2 running) stepped ok⟩)
    ⟨by simp [Winners,World.init],fun _ => init_shape⟩
  exact kept.1

end XxCore.Coroutines
