import XxCore.ThreadPool.PoolInvariant

/-! Every step keeps what holds between the sections of the pool. -/
namespace XxCore.ThreadPool

open History Transition

variable {θ ω : Type} [DecidableEq θ] [DecidableEq ω] {s next : State θ ω} {a b : ω} {n m : Nat}
  {t u : θ}

namespace Consistent

theorem submitDirect (consistent : Consistent s) {record : Work θ} (shared : s.pool = .shared)
    (free : s.live a = none) (there : s.works a = some record) (callback : record.callback = true) :
    Consistent (submitDirect s a record) := by
  have sets : Event.status (.submitted s.submissions a : Event θ ω) =
    some (s.submissions,.queued) := rfl
  have silent : Event.current (.submitted s.submissions a : Event θ ω) = none := rfl
  have unknown := consistent.fresh s.submissions (Nat.le_refl _)
  have now := statusOf_cons_self s.log sets
  have unused := (consistent.placed a).unused free
  have idle := unused.worker record there callback
  have older {b : ω} {m : Nat} (here : s.live b = some m) : s.submissions ≠ m := by
    rintro rfl
    obtain ⟨old,_,is⟩ := (consistent.placed b).owned _ here
    exact is.known unknown
  constructor
  case sound => exact ⟨unknown,consistent.sound⟩
  case fresh =>
    intro m later
    have less : s.submissions < m := later
    exact (statusOf_cons_other sets (by omega)).trans (consistent.fresh m (by omega))
  case distinct =>
    intro b c m atB atC
    simp only [ThreadPool.submitDirect,Function.update_apply] at atB atC
    split at atB <;> split at atC
    · simp_all
    · exact absurd (Option.some.inj atB) (older atC)
    · exact absurd (Option.some.inj atC) (older atB)
    · exact consistent.distinct b c m atB atC
  case found =>
    intro m known waiting
    by_cases same : s.submissions = m
    · exact ⟨a,by simp [ThreadPool.submitDirect,same]⟩
    · change statusOf (.submitted s.submissions a :: s.log) m ≠ _ at known
      change ∀ result, statusOf (.submitted s.submissions a :: s.log) m ≠ _ at waiting
      rw [statusOf_cons_other sets same] at known waiting
      obtain ⟨b,here⟩ := consistent.found m known waiting
      have other : b ≠ a := by
        rintro rfl
        simp [free] at here
      exact ⟨b,(Function.update_of_ne other ..).trans here⟩
  case nodup =>
    have apart := unused.unlinked
    simpa [ThreadPool.submitDirect,List.nodup_append,consistent.nodup] using
      fun b mem => ne_of_mem_of_not_mem mem apart
  case placed =>
    intro b
    by_cases same : b = a
    · subst same
      have live : (ThreadPool.submitDirect s b record).live b = some s.submissions :=
        Function.update_self ..
      apply Placed.of_record
      · exact live
      · exact Function.update_self ..
      constructor
      · rfl
      · simp [ThreadPool.submitDirect,now]
      · simp [ThreadPool.submitDirect,now]
      · simp [ThreadPool.submitDirect,now]
      · simp [ThreadPool.submitDirect,now,idle]
      · simp [ThreadPool.submitDirect,now]
      · simp [ThreadPool.submitDirect,now]
      · simp [idle]
    · apply (consistent.placed b).frame
      · exact Function.update_of_ne same ..
      · exact Function.update_of_ne same ..
      · simp [ThreadPool.submitDirect,same]
      · exact fun m here => statusOf_cons_other sets (older here)
      · exact fun u at_ => ⟨at_,currentOf_cons_silent silent u⟩
  case atWork =>
    intro u
    apply consistent.atWork_elsewhere sets
    · simp [unknown]
    · simp [unknown,Status.Done]
    · rfl
    · rfl
    · exact currentOf_cons_silent silent u
    · intro stage work m phase
      have atWork := consistent.atWork u
      simp only [AtWork,phase] at atWork
      apply Function.update_of_ne
      rintro rfl
      simp [free] at atWork
    · rfl
  case flag => exact consistent.flag_cons silent
  case dropped =>
    intro is
    simp [ThreadPool.submitDirect,shared] at is

/-- The submitter resumes, and the address may be used again. -/
theorem resume (consistent : Consistent s) {result : Bool} (live : s.live a = some n)
    (completed : .completed n result ∈ s.log) :
    Consistent { s with
      live := Function.update s.live a none
      log := .resumed n result :: s.log } := by
  obtain ⟨record,there,is⟩ := (consistent.placed a).owned n live
  have status : statusOf s.log n = .done result :=
    ((completed_iff consistent.sound n result).mp completed).resolve_right (is.waiting result)
  have sets : Event.status (.resumed n result : Event θ ω) = some (n,.resumed result) := rfl
  have silent : Event.current (.resumed n result : Event θ ω) = none := rfl
  have now := statusOf_cons_self s.log sets
  constructor
  case sound => exact ⟨status,consistent.sound⟩
  case fresh => exact consistent.fresh_cons sets is.known
  case distinct =>
    intro b c m atB atC
    simp only [Function.update_apply] at atB atC
    split at atB
    · cases atB
    · split at atC
      · cases atC
      · exact consistent.distinct b c m atB atC
  case found =>
    intro m known waiting
    by_cases same : n = m
    · subst same
      exact absurd now (waiting result)
    · obtain ⟨b,here⟩ := consistent.found_cons sets live m known waiting
      have other : b ≠ a := by
        rintro rfl
        exact same (Option.some.inj (live.symm.trans here))
      exact ⟨b,(Function.update_of_ne other ..).trans here⟩
  case nodup => exact consistent.nodup
  case placed =>
    intro b
    by_cases same : b = a
    · subst same
      constructor
      · simp
      · intro _
        constructor
        · simp [is.linked,status]
        · intro record' at_ callback
          obtain rfl : record = record' := Option.some.inj (there.symm.trans at_)
          rw [is.worker,status]
          rcases is.callback callback with h | h | ⟨t,h⟩ <;> simp_all
    · apply (consistent.placed b).frame
      · exact Function.update_of_ne same ..
      · rfl
      · rfl
      · exact fun m here => consistent.status_elsewhere sets live same here
      · exact fun u at_ => ⟨at_,currentOf_cons_silent silent u⟩
  case atWork =>
    intro u
    apply consistent.atWork_elsewhere sets
    · simp [status]
    · simp [status,Status.Done]
    · rfl
    · rfl
    · exact currentOf_cons_silent silent u
    · intro stage work m phase
      have atWork := consistent.atWork u
      simp only [AtWork,phase] at atWork
      apply Function.update_of_ne
      rintro rfl
      obtain rfl : n = m := Option.some.inj (live.symm.trans atWork.2.1)
      simp [status] at atWork
    · rfl
  case flag => exact consistent.flag_cons silent
  case dropped => exact consistent.dropped

/-- An event of a worker's flag. -/
theorem note (consistent : Consistent s) {event : Event θ ω} (noStatus : event.status = none)
    (silent : event.current = none) (fits : Fits s.log event) {cancelled : θ → Bool}
    (flag : ∀ t n, cancelled t = true → currentOf s.log t = some n →
      .marked t n ∈ event :: s.log) :
    Consistent { s with cancelled, log := event :: s.log } := by
  constructor
  case sound => exact ⟨fits,consistent.sound⟩
  case fresh => exact consistent.fresh_silent noStatus
  case distinct => exact consistent.distinct
  case found => exact consistent.found_silent noStatus
  case nodup => exact consistent.nodup
  case placed =>
    intro b
    apply (consistent.placed b).frame
    · rfl
    · rfl
    · rfl
    · exact fun m _ => statusOf_cons_silent noStatus m
    · exact fun u at_ => ⟨at_,currentOf_cons_silent silent u⟩
  case atWork =>
    intro u
    apply (consistent.atWork u).frame
    · rfl
    · rfl
    · exact currentOf_cons_silent silent u
    · exact fun _ _ _ _ => rfl
    · exact fun m _ working => (statusOf_cons_silent noStatus m).trans working
    · intro m done
      rwa [statusOf_cons_silent noStatus]
  case flag =>
    intro u m marked at_
    rw [currentOf_cons_silent silent] at at_
    exact flag u m marked at_
  case dropped => exact consistent.dropped

theorem exit (consistent : Consistent s) (locking : s.phase t = .locking) :
    Consistent { s with phase := Function.update s.phase t .exited } :=
  { consistent with
    placed := fun work => (consistent.placed work).frame rfl rfl .rfl (fun _ _ => rfl)
      fun _ at_ => ⟨at_,rfl⟩
    atWork := by
      intro u
      have atWork := consistent.atWork u
      by_cases same : u = t
      · subst same
        simpa only [AtWork,locking,Function.update_self] using atWork
      · simpa only [AtWork,Function.update_of_ne same] using atWork
    dropped := by
      intro is
      have exited := (consistent.dropped is).2 t
      simp [locking] at exited }

theorem release (consistent : Consistent s) (returning : s.phase t = .returning) :
    Consistent (release s t) := by
  have atWork := consistent.atWork t
  simp only [AtWork,returning] at atWork
  obtain ⟨n,current,done⟩ := atWork
  have noStatus : Event.status (.released t : Event θ ω) = none := rfl
  have now : currentOf (.released t :: s.log) t = none := latest_self rfl
  have other {u : θ} (ne : u ≠ t) : currentOf (.released t :: s.log) u = currentOf s.log u :=
    latest_other rfl ne.symm
  constructor
  case sound => exact ⟨⟨n,current,done⟩,consistent.sound⟩
  case fresh => exact consistent.fresh_silent noStatus
  case distinct => exact consistent.distinct
  case found => exact consistent.found_silent noStatus
  case nodup => exact consistent.nodup
  case placed =>
    intro b
    apply (consistent.placed b).frame
    · rfl
    · rfl
    · rfl
    · exact fun m _ => statusOf_cons_silent noStatus m
    · intro u at_
      by_cases same : u = t
      · subst same
        simp [ThreadPool.release] at at_
      · simp only [ThreadPool.release,Function.update_of_ne same] at at_
        exact ⟨at_,other same⟩
  case atWork =>
    intro u
    by_cases same : u = t
    · subst same
      simp only [AtWork,ThreadPool.release,Function.update_self]
      exact ⟨trivial,now⟩
    · apply (consistent.atWork u).frame
      · exact Function.update_of_ne same ..
      · exact Function.update_of_ne same ..
      · exact other same
      · exact fun _ _ _ _ => rfl
      · exact fun m _ working => (statusOf_cons_silent noStatus m).trans working
      · intro m done
        rwa [ThreadPool.release,statusOf_cons_silent noStatus]
  case flag =>
    intro u m cancelled at_
    by_cases same : u = t
    · subst same
      simp [ThreadPool.release,now] at at_
    · rw [ThreadPool.release,other same] at at_
      exact List.mem_cons_of_mem _ (consistent.flag u m cancelled at_)
  case dropped =>
    intro is
    have exited := (consistent.dropped is).2 t
    simp [returning] at exited

/-- A worker takes the first work of the list. -/
theorem take (consistent : Consistent s) {queue : List ω} (locking : s.phase t = .locking)
    (first : s.queue = a :: queue) : ∃ n record, s.works a = some record ∧ record.request = some n ∧
      Consistent { s with
        queue
        works := Function.update s.works a (some { record with worker := some t })
        curWork := Function.update s.curWork t (some a)
        cancelled := Function.update s.cancelled t false
        phase := Function.update s.phase t (.working .calling a n)
        log := .took t n :: s.log } := by
  obtain ⟨n,record,live,there,is,status⟩ := consistent.of_linked (a := a) (by simp [first])
  refine ⟨n,record,there,is.request,?_⟩
  have sets : Event.status (.took t n : Event θ ω) = some (n,.working t .calling) := rfl
  have status' := statusOf_cons_self s.log sets
  have now : currentOf (.took t n :: s.log) t = some n := latest_self rfl
  have other {u : θ} (ne : u ≠ t) : currentOf (.took t n :: s.log) u = currentOf s.log u :=
    latest_other rfl ne.symm
  have idle := consistent.atWork t
  simp only [AtWork,locking] at idle
  have nodup := consistent.nodup
  rw [first,List.nodup_cons] at nodup
  constructor
  case sound => exact ⟨⟨status,idle.2⟩,consistent.sound⟩
  case fresh => exact consistent.fresh_cons sets (by simp [status])
  case distinct => exact consistent.distinct
  case found => exact consistent.found_cons sets live
  case nodup => exact nodup.2
  case placed =>
    intro b
    by_cases same : b = a
    · subst same
      apply Placed.of_record
      · exact live
      · exact Function.update_self ..
      constructor
      · exact is.request
      · simp [status']
      · simp [status']
      · simpa [status'] using nodup.1
      · simp [status']
      · simp [status']
      · simp [status']
      · intro u worker at_
        obtain rfl := Option.some.inj worker
        exact now
    · apply (consistent.placed b).frame
      · rfl
      · exact Function.update_of_ne same ..
      · simp [first,same]
      · exact fun m there => consistent.status_elsewhere sets live same there
      · intro u at_
        by_cases at_t : u = t
        · subst at_t
          simp only [Function.update_self,Option.some.injEq] at at_
          exact absurd at_.symm same
        · simp only [Function.update_of_ne at_t] at at_
          exact ⟨at_,other at_t⟩
  case atWork =>
    intro u
    by_cases same : u = t
    · subst same
      simp only [AtWork,Function.update_self]
      exact ⟨trivial,live,status'⟩
    · apply consistent.atWork_elsewhere sets
      · simp [status]
      · simp [status,Status.Done]
      · exact Function.update_of_ne same ..
      · exact Function.update_of_ne same ..
      · exact other same
      · exact fun _ _ _ _ => rfl
      · rfl
  case flag =>
    intro u m cancelled at_
    by_cases same : u = t
    · subst same
      simp at cancelled
    · simp only [Function.update_of_ne same] at cancelled
      rw [other same] at at_
      exact List.mem_cons_of_mem _ (consistent.flag u m cancelled at_)
  case dropped =>
    intro is
    have exited := (consistent.dropped is).2 t
    simp [locking] at exited

/-- The lock section of a worker that is at no work. -/
theorem takeNext (consistent : Consistent s) (locking : s.phase t = .locking)
    (ran : takeNext s t = some next) : Consistent next := by
  unfold ThreadPool.takeNext at ran
  split at ran
  · cases ran
    exact consistent.exit locking
  · split at ran
    · cases ran
      exact consistent
    next work queue first =>
      simp only [Option.bind_eq_bind,Option.bind_eq_some_iff] at ran
      obtain ⟨record,there,n,request,ran⟩ := ran
      obtain ⟨m,record',there',request',kept⟩ := consistent.take locking first
      cases there.symm.trans there'
      cases request.symm.trans request'
      cases ran
      exact kept

/-- A cancel completes a work that is still in the list, and otherwise may set the flag of the
worker that took it. -/
theorem cancelDirect (consistent : Consistent s) (live : s.live a = some n)
    (ran : cancelDirect s n a = some next) : Consistent next := by
  unfold ThreadPool.cancelDirect at ran
  split at ran
  next linked =>
    obtain ⟨m,next',_,ran',_,kept⟩ := consistent.completeFalse linked
    cases ran.symm.trans ran'
    exact kept
  next unlinked =>
    simp only [Option.bind_eq_bind,Option.bind_eq_some_iff] at ran
    obtain ⟨record,there,worker,took,ran⟩ := ran
    split at ran
    next at_ =>
      obtain ⟨record',there',is⟩ := (consistent.placed a).owned n live
      cases there.symm.trans there'
      have current : Fits s.log (.marked worker n) := is.current worker took at_
      cases ran
      apply consistent.note rfl rfl current
      intro t m cancelled is
      by_cases same : t = worker
      · subst same
        cases is.symm.trans current
        exact List.mem_cons_self
      · rw [Function.update_of_ne same] at cancelled
        exact List.mem_cons_of_mem _ (consistent.flag t m cancelled is)
    · cases ran
      exact consistent

/-- The works of a submission that a worker has called are not called again. -/
theorem called (consistent : Consistent s) {stage : Stage} (stage_ : stage ≠ .calling)
    (phase : s.phase t = .working stage a n) : ∃ record, s.works a = some record ∧
      record = { record with callback := false } ∧ statusOf s.log n = .working t stage := by
  have atWork := consistent.atWork t
  simp only [AtWork,phase] at atWork
  obtain ⟨_,live,status⟩ := atWork
  obtain ⟨record,there,is⟩ := (consistent.placed a).owned n live
  refine ⟨record,there,?_,status⟩
  have callback : record.callback = false := by
    apply Bool.eq_false_iff.mpr
    intro callback
    rcases is.callback callback with h | h | ⟨u,h⟩
    · simp [status] at h
    · simp [status] at h
    · rw [status] at h
      cases h
      exact stage_ rfl
  rw [← callback]

theorem step [Fintype θ] {label : Label θ ω} (consistent : Consistent s)
    (ran : step s label = some next) : Consistent next := by
  cases label with
  | newWork work =>
    simp only [ThreadPool.step,Option.ite_none_right_eq_some,Option.some.injEq] at ran
    obtain ⟨unused,rfl⟩ := ran
    exact consistent.newWork unused
  | submit work =>
    simp only [ThreadPool.step] at ran
    split at ran
    next record there =>
      simp only [Option.ite_none_right_eq_some,Option.some.injEq] at ran
      obtain ⟨⟨shared,free,callback⟩,rfl⟩ := ran
      exact consistent.submitDirect shared free there callback
    · cases ran
  | lock t =>
    simp only [ThreadPool.step] at ran
    split at ran
    next locking => exact consistent.takeNext locking ran
    next returning =>
      exact (consistent.release returning).takeNext (Function.update_self ..) ran
    · cases ran
  | call t =>
    simp only [ThreadPool.step] at ran
    split at ran
    next work n phase =>
      simp only [Option.bind_eq_bind,Option.bind_eq_some_iff,Option.ite_none_right_eq_some,
        Option.some.injEq] at ran
      obtain ⟨record,there,_,rfl⟩ := ran
      have atWork := consistent.atWork t
      simp only [AtWork,phase] at atWork
      have fits : Fits s.log (.called t n) := atWork.2.2
      apply consistent.progress phase there rfl rfl fits (.inl ⟨_,rfl,rfl⟩)
      · exact Function.update_self ..
      · exact fun b other => Function.update_of_ne other ..
    · cases ran
  | observe t =>
    simp only [ThreadPool.step] at ran
    split at ran
    next work n phase =>
      simp only [Option.ite_none_right_eq_some,Option.some.injEq] at ran
      obtain ⟨cancelled,rfl⟩ := ran
      have atWork := consistent.atWork t
      simp only [AtWork,phase] at atWork
      have current := current_of_working consistent.sound atWork.2.2
      have fits : Fits s.log (.observed t n) :=
        ⟨atWork.2.2,consistent.flag t n cancelled current⟩
      apply consistent.note rfl rfl fits
      exact fun u m marked at_ => List.mem_cons_of_mem _ (consistent.flag u m marked at_)
    · cases ran
  | return_ t =>
    simp only [ThreadPool.step] at ran
    split at ran
    next work n phase =>
      cases ran
      obtain ⟨record,there,same,status⟩ := consistent.called (by simp) phase
      have fits : Fits s.log (.returned t n) := status
      exact consistent.progress phase there rfl rfl fits (.inl ⟨_,rfl,rfl⟩)
        (same ▸ there) fun _ _ => rfl
    · cases ran
  | complete t =>
    simp only [ThreadPool.step] at ran
    split at ran
    next work n phase =>
      cases ran
      obtain ⟨record,there,same,status⟩ := consistent.called (by simp) phase
      have fits : Fits s.log (.completed n true) := ⟨t,status⟩
      exact consistent.progress phase there rfl rfl fits (.inr ⟨rfl,rfl⟩)
        (same ▸ there) fun _ _ => rfl
    · cases ran
  | cancelDirect n work =>
    simp only [ThreadPool.step,Option.ite_none_right_eq_some] at ran
    obtain ⟨may,ran⟩ := ran
    have kept := consistent.outside s.closed s.pool (s.tokens.erase (n,work)) consistent.dropped
    exact kept.cancelDirect may.2.2 ran
  | cancelAll =>
    simp only [ThreadPool.step,Option.ite_none_right_eq_some] at ran
    obtain ⟨final,all,kept,_⟩ := consistent.cancelList rfl
    cases ran.2.symm.trans all
    exact kept
  | close =>
    simp only [ThreadPool.step,Option.ite_none_right_eq_some,Option.some.injEq] at ran
    obtain ⟨shared,rfl⟩ := ran
    exact consistent.outside true s.pool s.tokens consistent.dropped
  | dropPool =>
    simp only [ThreadPool.step,Option.ite_none_right_eq_some,Option.some.injEq] at ran
    obtain ⟨_,rfl⟩ := ran
    exact consistent.outside true .closing s.tokens (by simp)
  | dropCancel =>
    simp only [ThreadPool.step,Option.ite_none_right_eq_some,Option.bind_eq_bind,
      Option.bind_eq_some_iff,Option.some.injEq] at ran
    obtain ⟨_,final,ran,rfl⟩ := ran
    obtain ⟨final',all,kept,_⟩ := consistent.cancelList rfl
    cases ran.symm.trans all
    exact kept.outside final.closed .dropped final.tokens (by simp)
  | dropQueue =>
    simp only [ThreadPool.step,Option.ite_none_right_eq_some,Option.bind_eq_bind,
      Option.bind_eq_some_iff,Option.some.injEq] at ran
    obtain ⟨⟨_,exited⟩,final,ran,rfl⟩ := ran
    obtain ⟨final',all,kept,empty,phase⟩ := consistent.cancelList rfl
    cases ran.symm.trans all
    apply kept.outside final.closed .queueDropped final.tokens
    exact fun _ => ⟨empty,phase ▸ exited⟩
  | resume work result =>
    simp only [ThreadPool.step] at ran
    split at ran
    next n live =>
      simp only [Option.ite_none_right_eq_some,Option.some.injEq] at ran
      obtain ⟨completed,rfl⟩ := ran
      exact consistent.resume live completed
    · cases ran

end Consistent

theorem consistent_of_path [Fintype θ] {labels : List (Label θ ω)}
    (path : Path step anyStep (init θ ω) labels s) : Consistent s :=
  path.invariant Consistent (fun _ _ _ consistent _ ran => consistent.step ran) consistent_init

end XxCore.ThreadPool
