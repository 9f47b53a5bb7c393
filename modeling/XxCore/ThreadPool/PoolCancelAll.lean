import XxCore.ThreadPool.PoolSteps

/-! `cancel_all` against the cancel of each work: what becomes of the queued works and what the
running ones see. -/
namespace XxCore.ThreadPool

open History Transition

variable {θ ω : Type} [DecidableEq θ] [DecidableEq ω] {s next : State θ ω} {a : ω} {n : Nat} {t : θ}

/-- A worker has taken the work of the submission, and its callback has not returned. -/
def Running (s : State θ ω) (t : θ) (n : Nat) : Prop :=
  ∃ stage work, s.phase t = .working stage work n ∧ stage ≠ .returned

/-- `cancel_all` takes the works off the list, completes them and does nothing else. -/
theorem cancelList_eq {works : List ω} (ran : cancelList s works = some next) :
    ∃ since, next = { s with queue := [], log := since ++ s.log } ∧
      ∀ work ∈ works, ∀ record n, s.works work = some record → record.request = some n →
        .completed n false ∈ since := by
  induction works generalizing s with
  | nil => exact ⟨[],(Option.some.inj ran).symm,by simp⟩
  | cons first rest ih =>
    obtain ⟨middle,completed,more⟩ := Option.bind_eq_some_iff.mp ran
    obtain ⟨record,there,ran⟩ := Option.bind_eq_some_iff.mp completed
    obtain ⟨n,request,ran⟩ := Option.bind_eq_some_iff.mp ran
    obtain rfl := Option.some.inj ran
    obtain ⟨since,rfl,all⟩ := ih more
    refine ⟨since ++ [.completed n false],by simp,?_⟩
    intro work mem record' m at_ asks
    rcases List.mem_cons.mp mem with rfl | mem
    · obtain rfl := Option.some.inj (there.symm.trans at_)
      obtain rfl := Option.some.inj (request.symm.trans asks)
      simp
    · exact List.mem_append_left _ (all work mem record' m at_ asks)

/-- A worker has taken the submission, now or before. -/
def Status.started : Status θ → Bool
  | .unknown | .queued => false
  | _ => true

/-- No submission is queued again. -/
theorem started_append {since log : List (Event θ ω)} (sound : Sound Fits (since ++ log))
    (started : (statusOf log n).started = true) : (statusOf (since ++ log) n).started = true := by
  induction since with
  | nil => exact started
  | cons event since ih =>
    have fits : Fits (since ++ log) event := sound.1
    have before := ih sound.2
    change (statusOf (event :: (since ++ log)) n).started = true
    cases event with
    | completed m r => cases r <;> grind [Fits,statusOf,latest,Event.status,Status.started]
    | _ => grind [Fits,statusOf,latest,Event.status,Status.started]

theorem Running.working (running : Running s t n) (consistent : Consistent s) :
    ∃ stage, statusOf s.log n = .working t stage := by
  obtain ⟨stage,work,phase,_⟩ := running
  have atWork := consistent.atWork t
  simp only [AtWork,phase] at atWork
  exact ⟨stage,atWork.2.2⟩

/-- Until the callback of the submission returns, it sees that it was cancelled. -/
def Observes [Fintype θ] (s : State θ ω) (t : θ) (n : Nat) : Prop :=
  ∀ labels later, Path step anyStep s labels later → Running later t n → later.cancelled t = true

theorem running_update {phase : θ → Phase ω} {u : θ} {after : Phase ω} {s' : State θ ω}
    (same : s'.phase = Function.update phase u after) (running : Running s' t n) :
    (t ≠ u ∧ ∃ stage work, phase t = .working stage work n ∧ stage ≠ .returned) ∨
      t = u ∧ ∃ stage work, after = .working stage work n ∧ stage ≠ .returned := by
  obtain ⟨stage,work,phase,open_⟩ := running
  rw [same] at phase
  by_cases mine : t = u
  · subst mine
    rw [Function.update_self] at phase
    exact .inr ⟨rfl,stage,work,phase,open_⟩
  · rw [Function.update_of_ne mine] at phase
    exact .inl ⟨mine,stage,work,phase,open_⟩

/-- The log grows, a submission that is running was running before, and if its worker was marked
then it still is. -/
structure Marks (s next : State θ ω) (t : θ) (n : Nat) : Prop where
  log : ∃ since, next.log = since ++ s.log
  running : Running next t n → Running s t n ∧ (s.cancelled t = true → next.cancelled t = true)

theorem Marks.trans {middle : State θ ω} (first : Marks s middle t n) (second : Marks middle next t n) :
    Marks s next t n := by
  obtain ⟨since,log⟩ := first.log
  obtain ⟨more,log'⟩ := second.log
  refine ⟨⟨more ++ since,by rw [log',log,List.append_assoc]⟩,fun running => ?_⟩
  obtain ⟨before,kept⟩ := second.running running
  obtain ⟨earlier,kept'⟩ := first.running before
  exact ⟨earlier,kept ∘ kept'⟩

/-- A step of the thread `u` to a phase in which no other submission runs. -/
theorem Marks.phase {u : θ} {after : Phase ω} (log : ∃ since, next.log = since ++ s.log)
    (phase : next.phase = Function.update s.phase u after) (flag : next.cancelled = s.cancelled)
    (own : ∀ stage work, after = .working stage work n → stage ≠ .returned → Running s u n) :
    Marks s next t n := by
  refine ⟨log,fun running => ⟨?_,fun set => flag ▸ set⟩⟩
  rcases running_update phase running with ⟨_,before⟩ | ⟨rfl,stage,work,at_,open_⟩
  · exact before
  · exact own stage work at_ open_

theorem Marks.outside (log : ∃ since, next.log = since ++ s.log) (phase : next.phase = s.phase)
    (flag : next.cancelled = s.cancelled) : Marks s next t n := by
  refine ⟨log,fun ⟨stage,work,at_,open_⟩ => ⟨⟨stage,work,phase ▸ at_,open_⟩,fun set => flag ▸ set⟩⟩

/-- A worker resets its flag only with a new work. -/
theorem takeNext_marks (consistent : Consistent s) {u : θ} (ran : takeNext s u = some next)
    (started : (statusOf s.log n).started = true) : Marks s next t n := by
  unfold takeNext at ran
  split at ran
  · cases ran
    exact .phase ⟨[],rfl⟩ rfl rfl nofun
  · split at ran
    · cases ran
      exact .outside ⟨[],rfl⟩ rfl rfl
    next work queue first =>
      simp only [Option.bind_eq_bind,Option.bind_eq_some_iff] at ran
      obtain ⟨record,there,m,request,ran⟩ := ran
      cases ran
      refine ⟨⟨[.took u m],rfl⟩,fun running => ?_⟩
      rcases running_update rfl running with ⟨other,before⟩ | ⟨_,_,_,taken,_⟩
      · exact ⟨before,fun set => (Function.update_of_ne other ..).trans set⟩
      · cases taken
        obtain ⟨k,record',_,there',is,status⟩ := consistent.of_linked (a := work) (by simp [first])
        obtain rfl := Option.some.inj (there.symm.trans there')
        obtain rfl := Option.some.inj (request.symm.trans is.request)
        simp [status,Status.started] at started

theorem cancelDirect_marks {m : Nat} (ran : cancelDirect s m a = some next) : Marks s next t n := by
  unfold cancelDirect at ran
  split at ran
  · simp only [completeFalse,Option.bind_eq_bind,Option.bind_eq_some_iff,Option.some.injEq] at ran
    obtain ⟨_,_,k,_,rfl⟩ := ran
    exact .outside ⟨[.completed k false],rfl⟩ rfl rfl
  · simp only [Option.bind_eq_bind,Option.bind_eq_some_iff] at ran
    obtain ⟨_,_,worker,_,ran⟩ := ran
    split at ran
    · cases ran
      refine ⟨⟨[.marked worker m],rfl⟩,fun running => ⟨running,fun set => ?_⟩⟩
      by_cases same : t = worker
      · subst same
        exact Function.update_self ..
      · exact (Function.update_of_ne same ..).trans set
    · cases ran
      exact .outside ⟨[],rfl⟩ rfl rfl

variable [Fintype θ]

theorem step_marks {l : Label θ ω} (consistent : Consistent s) (ran : step s l = some next)
    (started : (statusOf s.log n).started = true) : Marks s next t n := by
  cases l with
  | newWork work =>
    simp only [step,Option.ite_none_right_eq_some,Option.some.injEq] at ran
    obtain ⟨_,rfl⟩ := ran
    exact .outside ⟨[],rfl⟩ rfl rfl
  | submit work =>
    simp only [step] at ran
    split at ran
    · simp only [Option.ite_none_right_eq_some,Option.some.injEq] at ran
      obtain ⟨_,rfl⟩ := ran
      exact .outside ⟨[.submitted s.submissions work],rfl⟩ rfl rfl
    · cases ran
  | lock u =>
    simp only [step] at ran
    split at ran
    next locking => exact takeNext_marks consistent ran started
    next returning =>
      have silent : statusOf (release s u).log n = statusOf s.log n := statusOf_cons_silent rfl n
      have released : Marks s (release s u) t n := .phase ⟨[.released u],rfl⟩ rfl rfl (by simp)
      exact released.trans (takeNext_marks (consistent.release returning) ran (silent ▸ started))
    · cases ran
  | call u =>
    simp only [step] at ran
    split at ran
    next work m phase =>
      simp only [Option.bind_eq_bind,Option.bind_eq_some_iff,Option.ite_none_right_eq_some,
        Option.some.injEq] at ran
      obtain ⟨record,there,_,rfl⟩ := ran
      refine .phase ⟨[.called u m],rfl⟩ rfl rfl ?_
      rintro _ _ ⟨⟩ _
      exact ⟨_,_,phase,by simp⟩
    · cases ran
  | observe u =>
    simp only [step] at ran
    split at ran
    next m _ =>
      simp only [Option.ite_none_right_eq_some,Option.some.injEq] at ran
      obtain ⟨_,rfl⟩ := ran
      exact .outside ⟨[.observed u m],rfl⟩ rfl rfl
    · cases ran
  | return_ u =>
    simp only [step] at ran
    split at ran
    next m _ =>
      cases ran
      refine .phase ⟨[.returned u m],rfl⟩ rfl rfl ?_
      rintro _ _ ⟨⟩ open_
      exact absurd rfl open_
    · cases ran
  | complete u =>
    simp only [step] at ran
    split at ran
    next m _ =>
      cases ran
      exact .phase ⟨[.completed m true],rfl⟩ rfl rfl (by simp)
    · cases ran
  | cancelDirect m work =>
    simp only [step,Option.ite_none_right_eq_some] at ran
    have used : Marks s { s with tokens := s.tokens.erase (m,work) } t n := .outside ⟨[],rfl⟩ rfl rfl
    exact used.trans (cancelDirect_marks ran.2)
  | cancelAll =>
    simp only [step,Option.ite_none_right_eq_some] at ran
    obtain ⟨since,rfl,_⟩ := cancelList_eq ran.2
    exact .outside ⟨since,rfl⟩ rfl rfl
  | close | dropPool =>
    simp only [step,Option.ite_none_right_eq_some,Option.some.injEq] at ran
    obtain ⟨_,rfl⟩ := ran
    exact .outside ⟨[],rfl⟩ rfl rfl
  | dropCancel | dropQueue =>
    simp only [step,Option.ite_none_right_eq_some,Option.bind_eq_bind,Option.bind_eq_some_iff,
      Option.some.injEq] at ran
    obtain ⟨_,final,ran,rfl⟩ := ran
    obtain ⟨since,rfl,_⟩ := cancelList_eq ran
    exact .outside ⟨since,rfl⟩ rfl rfl
  | resume work result =>
    simp only [step] at ran
    split at ran
    next m _ =>
      simp only [Option.ite_none_right_eq_some,Option.some.injEq] at ran
      obtain ⟨_,rfl⟩ := ran
      exact .outside ⟨[.resumed m result],rfl⟩ rfl rfl
    · cases ran

/-- A running work whose flag is set sees it until its callback returns. -/
theorem observes_of_marked (consistent : Consistent s) (running : Running s t n)
    (marked : s.cancelled t = true) : Observes s t n := by
  intro labels later path
  obtain ⟨stage,working⟩ := running.working consistent
  have kept := path.invariant
    (fun d => Consistent d ∧ (statusOf d.log n).started = true ∧
      (Running d t n → d.cancelled t = true))
    (fun d l next ⟨consistent,started,flag⟩ _ ran => by
      have marks := step_marks (t := t) consistent ran started
      have after := consistent.step ran
      obtain ⟨since,log⟩ := marks.log
      refine ⟨after,?_,fun running => ?_⟩
      · rw [log]
        exact started_append (log ▸ after.sound) started
      · obtain ⟨before,kept⟩ := marks.running running
        exact kept (flag before))
    ⟨consistent,by simp [working,Status.started],fun _ => marked⟩
  exact kept.2.2

/-- The cancel of a running work sets the flag of its worker. -/
theorem cancelDirect_observes {d : State θ ω} (consistent : Consistent s) (running : Running s t n)
    (ran : step s (.cancelDirect n a) = some d) : Observes d t n := by
  have after := consistent.step ran
  simp only [step,Option.ite_none_right_eq_some] at ran
  obtain ⟨may,ran⟩ := ran
  obtain ⟨record,there,is⟩ := (consistent.placed a).owned n may.2.2
  obtain ⟨stage,work,phase,open_⟩ := running
  have atWork := consistent.atWork t
  simp only [AtWork,phase] at atWork
  obtain ⟨current,live,working⟩ := atWork
  obtain rfl : work = a := consistent.distinct work a n live may.2.2
  have unlinked : work ∉ s.queue := by simp [is.linked,working]
  have taker := is.taker t stage working
  simp only [cancelDirect,unlinked,if_false,there,taker,current,if_true,Option.bind_eq_bind,
    Option.bind_some,Option.some.injEq] at ran
  subst ran
  exact observes_of_marked after ⟨stage,work,phase,open_⟩ (Function.update_self ..)

/-- What `cancel_all` is to do from `s` to `next`. -/
structure CancelsAll (s next : State θ ω) : Prop where
  queued : ∀ work ∈ s.queue, ∃ n, s.live work = some n ∧ .completed n false ∈ next.log
  emptied : next.queue = []
  running : ∀ t n, Running s t n → Observes next t n
  later : ∀ labels final t n, Path step anyStep next labels final → Running final t n →
    ¬ Running s t n → .marked t n ∉ final.log → final.cancelled t = false

/-- From every reachable state, the cancel of a running work is seen by its callback until it
returns; `cancel_all` (the end of `close`, also in the drop) does as the cancels of all works would
exactly if it finds no running work that was not cancelled already. -/
theorem cancel_all_cancels {labels : List (Label θ ω)} (path : Path step anyStep (init θ ω) labels s)
    {l : Label θ ω} (all : l = .cancelAll ∨ l = .dropCancel) (ran : step s l = some next) :
    (∀ t n work d, Running s t n → step s (.cancelDirect n work) = some d → Observes d t n) ∧
    (CancelsAll s next ↔ ∀ t n, Running s t n → s.cancelled t = true) := by
  have consistent := consistent_of_path path
  have after := consistent.step ran
  obtain ⟨since,pool,rfl,completed⟩ : ∃ since pool,
      next = { s with queue := [], log := since ++ s.log, pool } ∧
        ∀ work ∈ s.queue, ∀ record n, s.works work = some record → record.request = some n →
          .completed n false ∈ since := by
    rcases all with rfl | rfl
    · simp only [step,Option.ite_none_right_eq_some] at ran
      obtain ⟨since,rfl,completed⟩ := cancelList_eq ran.2
      exact ⟨since,s.pool,rfl,completed⟩
    · simp only [step,Option.ite_none_right_eq_some,Option.bind_eq_bind,Option.bind_eq_some_iff,
        Option.some.injEq] at ran
      obtain ⟨_,final,ran,rfl⟩ := ran
      obtain ⟨since,rfl,completed⟩ := cancelList_eq ran
      exact ⟨since,.dropped,rfl,completed⟩
  refine ⟨fun t n work d running cancelled => cancelDirect_observes consistent running cancelled,?_⟩
  constructor
  · -- the flags are those from before
    intro cancels t n running
    exact cancels.running t n running [] { s with queue := [], log := since ++ s.log, pool } .nil running
  · intro marked
    constructor
    · intro work mem
      obtain ⟨n,record,live,there,is,_⟩ := consistent.of_linked mem
      exact ⟨n,live,List.mem_append_left _ (completed work mem record n there is.request)⟩
    · rfl
    · exact fun t n running => observes_of_marked after running (marked t n running)
    · intro labels final t n more running _ unmarked
      have reached : Consistent final :=
        more.invariant Consistent (fun _ _ _ consistent _ ran => consistent.step ran) after
      obtain ⟨stage,working⟩ := running.working reached
      have current := current_of_working reached.sound working
      by_contra set
      exact unmarked (reached.flag t n (by simpa using set) current)

/-- A running work that was cancelled, and a queued one. -/
theorem cancel_all_cancels_marked : ∃ s next : State (Fin 2) Nat,
    step s .cancelAll = some next ∧ s.phase 0 = .working .running 0 0 ∧ s.queue = [1] ∧
    CancelsAll s next := by
  obtain ⟨s,next,path,ran,phase,other,queue,marked⟩ : ∃ s next : State (Fin 2) Nat,
      Path step anyStep (init (Fin 2) Nat) [.newWork 0,.submit 0,.lock 0,.call 0,.newWork 1,.submit 1,
        .cancelDirect 0 0] s ∧ step s .cancelAll = some next ∧ s.phase 0 = .working .running 0 0 ∧
      s.phase 1 = .locking ∧ s.queue = [1] ∧ s.cancelled 0 = true :=
    ⟨_,_,run_path (fun _ _ _ => trivial) rfl,rfl,rfl,rfl,rfl,rfl⟩
  refine ⟨s,next,ran,phase,queue,(cancel_all_cancels path (.inl rfl) ran).2.mpr ?_⟩
  rintro t n ⟨stage,work,at_,_⟩
  match t with
  | 0 => exact marked
  | 1 => simp [other] at at_

/-- `cancel_all` is not seen by a running work. -/
theorem not_always_cancels_all : ∃ s next : State (Fin 2) Nat,
    Path step anyStep (init (Fin 2) Nat) [.newWork 0,.submit 0,.lock 0,.call 0] s ∧
    step s .cancelAll = some next ∧ Running s 0 0 ∧ next.phase 0 = .working .running 0 0 ∧
    next.cancelled 0 = false ∧ ¬ CancelsAll s next := by
  obtain ⟨s,next,path,ran,phase,phase',flag⟩ : ∃ s next : State (Fin 2) Nat,
      Path step anyStep (init (Fin 2) Nat) [.newWork 0,.submit 0,.lock 0,.call 0] s ∧
      step s .cancelAll = some next ∧ s.phase 0 = .working .running 0 0 ∧
      next.phase 0 = .working .running 0 0 ∧ next.cancelled 0 = false :=
    ⟨_,_,run_path (fun _ _ _ => trivial) rfl,rfl,rfl,rfl,rfl⟩
  refine ⟨s,next,path,ran,⟨_,_,phase,nofun⟩,phase',flag,fun cancels => ?_⟩
  have seen := cancels.running 0 0 ⟨_,_,phase,nofun⟩ [] next .nil ⟨_,_,phase',nofun⟩
  simp [flag] at seen

end XxCore.ThreadPool
