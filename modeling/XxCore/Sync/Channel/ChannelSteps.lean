import XxCore.Sync.Channel.Channel

/-! The steps of a task of the channel as a relation. Every step is a step of the queue, a step
of one of the lists, or neither. -/
namespace XxCore.Sync.MCChannel

variable {θ ω V : Type}

def Main.isFree : Main V → Bool
  | .idle | .returned _ => true
  | _ => false

theorem runQueue_eq_some {t : θ} {label : Queue.Label V} {l : Local ω V} {s : MCChannel θ ω V}
    {p : Local ω V × MCChannel θ ω V} (ran : runQueue t label l s = some p) :
    ∃ q s', Queue.prog t label l.queue s.queue = some (q,s') ∧
      p = ({ l with queue := q },{ s with queue := s' }) := by
  obtain ⟨⟨q,s'⟩,exec,rfl⟩ := Option.map_eq_some_iff.mp ran
  exact ⟨q,s',exec,rfl⟩

theorem runList_eq_some [DecidableEq θ] [DecidableEq ω] {t : θ} {side : Side}
    {label : WaitList.Label (Waiter ω) Unit} {l : Local ω V} {s : MCChannel θ ω V}
    {p : Local ω V × MCChannel θ ω V} (ran : runList t side label l s = some p) :
    ∃ pc list, WaitList.prog t label (l.waits side) (s.waiters side) = some (pc,list) ∧
      p = (l.setWait side pc,s.setList side list) := by
  obtain ⟨⟨pc,list⟩,exec,rfl⟩ := Option.map_eq_some_iff.mp ran
  exact ⟨pc,list,exec,rfl⟩

@[simp] theorem Local.setWait_self (l : Local ω V) (side : Side) (pc : WaitList.Pc (Waiter ω) Unit) :
    (l.setWait side pc).waits side = pc := Function.update_self ..

theorem Local.goto_main {l : Local ω V} {main : Main V} (eq : l.main = main) : l.goto main = l := by
  subst eq; rfl

theorem noteWoken_of_not {op : Op V} {l : Local ω V} {s : MCChannel θ ω V}
    {before pc : WaitList.Pc (Waiter ω) Unit}
    (other : ¬ ∃ w value, before = .parked w ∧ pc = .subCount (.ok value)) :
    noteWoken op before (l.setWait op.side pc,s) = (l.setWait op.side pc,s) := by
  simp only [noteWoken,Local.setWait_self]
  split
  · exact absurd ⟨_,_,rfl,rfl⟩ other
  · rfl

variable [DecidableEq θ] [DecidableEq ω]

/-- Everything a task can do in one step. -/
inductive Step (t : θ) (l : Local ω V) (s : MCChannel θ ω V) :
    Label ω V → Local ω V → MCChannel θ ω V → Prop where
  -- calls
  | op (free : l.main.isFree = true) (share : s.mayShare op.side = true) :
    Step t l s (.call (.op op again)) (l.goto (.begin op again)) (MCChannel.share t s op.side)
  | callClosed (free : l.main.isFree = true) (own : s.mayOwn .send = true) :
    Step t l s (.call .closed) (l.goto .closed)
      { s with exclusive := Function.update s.exclusive .send (t :: s.exclusive .send) }
  | callClose (free : l.main.isFree = true) (share : s.mayShare .recv = true) :
    Step t l s (.call .close) (l.goto (.startClose .send)) (MCChannel.share t s .recv)
  | clone (free : l.main.isFree = true) (share : s.mayShare side = true) :
    Step t l s (.call (.clone side)) (l.goto (.returned .unit)) (s.setCount side (s.count side + 1))
  | drop (free : l.main.isFree = true) (own : s.mayOwn side = true) :
    Step t l s (.call (.drop side))
      (l.goto (if s.count side = 1 then .startClose side.other else .returned .unit))
      (s.setCount side (s.count side - 1))
  | callCancel (free : l.main.isFree = true)
    (ran : WaitList.prog t (.call (.cancel w)) (l.waits side) (s.waiters side) = some (pc,list)) :
    Step t l s (.call (.cancel side w)) ((l.setWait side pc).goto (.cancel side)) (s.setList side list)
  -- an attempt
  | beginClosed (main : l.main = .begin op again) (send : op.side = .send)
    (closed : (s.waiters op.side).closed = true) :
    Step t l s .next (leave t l s (.closed op)).1 (leave t l s (.closed op)).2
  | begin (main : l.main = .begin op again)
    (ran : Queue.prog t (.call op) l.queue s.queue = some (q,s')) :
    Step t l s .next { l with queue := q, main := .nextSlot op again } { s with queue := s' }
  | search (main : l.main = .nextSlot op again)
    (ran : Queue.prog t label l.queue s.queue = some (q,s'))
    (undecided : (∀ op' pos k, q.pc ≠ .success op' pos k) ∧ ∀ outcome, q.pc ≠ .returned outcome) :
    Step t l s (.queue label) { l with queue := q } { s with queue := s' }
  | claim (main : l.main = .nextSlot op again)
    (ran : Queue.prog t label l.queue s.queue = some (q,s')) (claimed : q.pc = .success op' pos k) :
    Step t l s (.queue label) { l with queue := q, main := .startWake op again, woken := false }
      { s with queue := s' }
  | reject (main : l.main = .nextSlot op again)
    (ran : Queue.prog t label l.queue s.queue = some (q,s')) (failed : q.pc = .returned outcome) :
    Step t l s (.queue label)
      { l with queue := q, main := .loadClosed op again (s.waiters op.side).closed }
      { s with queue := s' }
  | startWake (main : l.main = .startWake op again)
    (ran : WaitList.prog t (.call (.wakeOne ())) (l.waits op.side.other) (s.waiters op.side.other) =
      some (pc,list)) :
    Step t l s .next ((l.setWait op.side.other pc).goto (.wake op again)) (s.setList op.side.other list)
  | wake (main : l.main = .wake op again)
    (ran : WaitList.prog t label (l.waits op.side.other) (s.waiters op.side.other) = some (pc,list)) :
    Step t l s (.list label)
      ((l.setWait op.side.other pc).goto (if isReturned pc then .access op again else .wake op again))
      (s.setList op.side.other list)
  | access (main : l.main = .access op again)
    (ran : Queue.prog t label l.queue s.queue = some (q,s'))
    (busy : ∀ outcome, q.pc ≠ .returned outcome) :
    Step t l s (.queue label) { l with queue := q } { s with queue := s' }
  | finish (main : l.main = .access op again)
    (ran : Queue.prog t label l.queue s.queue = some (q,s')) (done : q.pc = .returned outcome) :
    Step t l s (.queue label)
      (leave t { l with queue := q } { s with queue := s' } (.finished outcome)).1
      (leave t { l with queue := q } { s with queue := s' } (.finished outcome)).2
  | failClosed (main : l.main = .loadClosed op again seen)
    (closed : (s.waiters op.side).closed = true) :
    Step t l s .next (leave t l s (.closed op)).1 (leave t l s (.closed op)).2
  | fail (main : l.main = .loadClosed op false seen) (closed : (s.waiters op.side).closed = false) :
    Step t l s .next (leave t l s (.finished op.failure)).1 (leave t l s (.finished op.failure)).2
  | failAgain (main : l.main = .loadClosed op true seen)
    (closed : (s.waiters op.side).closed = false) :
    Step t l s .next (l.goto (.isInterrupted op)) s
  -- between attempts
  | interrupted (main : l.main = .isInterrupted op) :
    Step t l s (.interrupted true) (leave t l s (.finished op.failure)).1
      (leave t l s (.finished op.failure)).2
  | uninterrupted (main : l.main = .isInterrupted op) :
    Step t l s (.interrupted false) (l.goto (.backoff op)) s
  | snooze (main : l.main = .backoff op) : Step t l s .snooze (l.goto (.begin op true)) s
  | startWait (main : l.main = .backoff op)
    (ran : WaitList.prog t (.call (.wait ⟨address,.retry⟩)) (l.waits op.side) (s.waiters op.side) =
      some (pc,list)) :
    Step t l s (.wait address) ((l.setWait op.side pc).goto (.wait op none)) (s.setList op.side list)
  | wait (main : l.main = .wait op first)
    (ran : WaitList.prog t label (l.waits op.side) (s.waiters op.side) = some (pc,list))
    (quiet : ∀ w, l.waits op.side ≠ .shouldBlock w)
    (blocked : ∀ w, l.waits op.side = .parked w → ∀ value, pc ≠ .subCount (.ok value)) :
    Step t l s (.list label) ((l.setWait op.side pc).goto
      (if isReturned pc then .begin op true else .wait op first)) (s.setList op.side list)
  | resume (main : l.main = .wait op first) (parked : l.waits op.side = .parked w)
    (ran : WaitList.prog t label (.parked w) (s.waiters op.side) =
      some (.subCount (.ok value),list)) :
    Step t l s (.list label) { l.setWait op.side (.subCount (.ok value)) with woken := true }
      (s.setList op.side list)
  | loadFirst (main : l.main = .wait op none) (at_ : l.waits op.side = .shouldBlock w) :
    Step t l s .next
      (l.goto (.wait op (some (s.queue.counter op.side,s.queue.claims op.side)))) s
  | block (main : l.main = .wait op (some (pos,stamp))) (at_ : l.waits op.side = .shouldBlock w)
    (zero : s.remaining op.side pos = 0) :
    Step t l s .next { (l.setWait op.side (.append w)).goto (.wait op none) with woken := false }
      (s.setList op.side (s.waiters op.side))
  | noBlock (main : l.main = .wait op (some (pos,stamp))) (at_ : l.waits op.side = .shouldBlock w)
    (nonzero : s.remaining op.side pos ≠ 0) :
    Step t l s .next ((l.setWait op.side (.dropEmpty w)).goto (.wait op none))
      (s.setList op.side (s.waiters op.side))
  -- `Sender::closed`
  | isClosed (main : l.main = .closed) (closed : (s.waiters .send).closed = true) :
    Step t l s (.wait address) (leave t l s (.isClosed true)).1 (leave t l s (.isClosed true)).2
  | sendClosed (main : l.main = .closed)
    (ran : WaitList.prog t (.call (.wait ⟨address,.closed⟩)) (l.waits .send) (s.waiters .send) =
      some (pc,list)) :
    Step t l s (.wait address) ((l.setWait .send pc).goto .sendClosed) (s.setList .send list)
  | sendClosedBlock (main : l.main = .sendClosed) (at_ : l.waits .send = .shouldBlock w) :
    Step t l s (.list label) (l.setWait .send (.append w)) (s.setList .send (s.waiters .send))
  | sendClosedWait (main : l.main = .sendClosed)
    (ran : WaitList.prog t label (l.waits .send) (s.waiters .send) = some (pc,list))
    (quiet : ∀ w, l.waits .send ≠ .shouldBlock w) :
    Step t l s (.list label)
      ((l.setWait .send pc).goto (if isReturned pc then .closed else .sendClosed)) (s.setList .send list)
  | sendClosedCancelled (main : l.main = .sendClosed)
    (ran : WaitList.prog t label (l.waits .send) (s.waiters .send) =
      some (.returned (.waited (.error .cancelled)),list)) :
    Step t l s (.list label)
      (leave t (l.setWait .send (.returned (.waited (.error .cancelled)))) (s.setList .send list)
        (.isClosed false)).1
      (leave t (l.setWait .send (.returned (.waited (.error .cancelled)))) (s.setList .send list)
        (.isClosed false)).2
  -- `close` and `cancel`
  | startClose (main : l.main = .startClose side)
    (ran : WaitList.prog t (.call (.close ())) (l.waits side) (s.waiters side) = some (pc,list)) :
    Step t l s .next ((l.setWait side pc).goto (.close side)) (s.setList side list)
  | close (main : l.main = .close side ∨ l.main = .cancel side)
    (ran : WaitList.prog t label (l.waits side) (s.waiters side) = some (pc,list))
    (busy : isReturned pc = false) :
    Step t l s (.list label) (l.setWait side pc) (s.setList side list)
  | closed (main : l.main = .close side ∨ l.main = .cancel side)
    (ran : WaitList.prog t label (l.waits side) (s.waiters side) = some (pc,list))
    (done : isReturned pc = true) :
    Step t l s (.list label) (leave t (l.setWait side pc) (s.setList side list) .unit).1
      (leave t (l.setWait side pc) (s.setList side list) .unit).2

theorem start_step {t : θ} {l l' : Local ω V} {s s' : MCChannel θ ω V} {call : Call ω V}
    (free : l.main.isFree = true) (started : start t l s call = some (l',s')) :
    Step t l s (.call call) l' s' := by
  cases call with
  | op op again =>
    simp only [start,Option.ite_none_right_eq_some,Option.some.injEq,Prod.mk.injEq] at started
    obtain ⟨share,rfl,rfl⟩ := started
    exact .op free share
  | closed =>
    simp only [start,Option.ite_none_right_eq_some,Option.some.injEq,Prod.mk.injEq] at started
    obtain ⟨own,rfl,rfl⟩ := started
    exact .callClosed free own
  | close =>
    simp only [start,Option.ite_none_right_eq_some,Option.some.injEq,Prod.mk.injEq] at started
    obtain ⟨share,rfl,rfl⟩ := started
    exact .callClose free share
  | clone side =>
    simp only [start,Option.ite_none_right_eq_some,Option.some.injEq,Prod.mk.injEq] at started
    obtain ⟨share,rfl,rfl⟩ := started
    exact .clone free share
  | drop side =>
    simp only [start,Option.ite_none_right_eq_some,Option.some.injEq,Prod.mk.injEq] at started
    obtain ⟨own,rfl,rfl⟩ := started
    exact .drop free own
  | cancel side w =>
    obtain ⟨p,ran,eq⟩ := Option.map_eq_some_iff.mp started
    obtain ⟨pc,list,exec,rfl⟩ := runList_eq_some ran
    obtain ⟨rfl,rfl⟩ := Prod.mk.inj eq
    exact .callCancel free exec

theorem tryStep_step {t : θ} {l l' : Local ω V} {s s' : MCChannel θ ω V} {label : Label ω V}
    (stepped : tryStep t l s l.main label = some (l',s')) : Step t l s label l' s' := by
  generalize main : l.main = m at stepped
  unfold tryStep at stepped
  split at stepped
  · rename_i op again
    split at stepped
    · rename_i closed
      obtain ⟨rfl,rfl⟩ := Prod.mk.inj (Option.some.inj stepped)
      exact .beginClosed main closed.1 (closed.1 ▸ closed.2)
    · obtain ⟨p,ran,eq⟩ := Option.map_eq_some_iff.mp stepped
      obtain ⟨q,queue,exec,rfl⟩ := runQueue_eq_some ran
      obtain ⟨rfl,rfl⟩ := Prod.mk.inj eq
      exact .begin main exec
  · obtain ⟨p,ran,eq⟩ := Option.map_eq_some_iff.mp stepped
    obtain ⟨q,queue,exec,rfl⟩ := runQueue_eq_some ran
    dsimp only at eq
    split at eq
    · rename_i claimed
      obtain ⟨rfl,rfl⟩ := Prod.mk.inj eq
      exact .claim main exec claimed
    · rename_i failed
      obtain ⟨rfl,rfl⟩ := Prod.mk.inj eq
      exact .reject main exec failed
    · rename_i claimed failed
      obtain ⟨rfl,rfl⟩ := Prod.mk.inj eq
      exact .search main exec ⟨claimed,failed⟩
  · obtain ⟨p,ran,eq⟩ := Option.map_eq_some_iff.mp stepped
    obtain ⟨pc,list,exec,rfl⟩ := runList_eq_some ran
    obtain ⟨rfl,rfl⟩ := Prod.mk.inj eq
    exact .startWake main exec
  · obtain ⟨p,ran,eq⟩ := Option.map_eq_some_iff.mp stepped
    obtain ⟨pc,list,exec,rfl⟩ := runList_eq_some ran
    have next := Step.wake main exec
    simp only [untilReturned,Local.setWait_self] at eq
    split at eq
    all_goals
      rename_i done
      obtain ⟨rfl,rfl⟩ := Prod.mk.inj eq
      simpa [done,Local.goto_main (l := l.setWait _ pc) main] using next
  · obtain ⟨p,ran,eq⟩ := Option.map_eq_some_iff.mp stepped
    obtain ⟨q,queue,exec,rfl⟩ := runQueue_eq_some ran
    dsimp only at eq
    split at eq
    · rename_i done
      obtain ⟨rfl,rfl⟩ := Prod.mk.inj eq
      exact .finish main exec done
    · rename_i busy
      obtain ⟨rfl,rfl⟩ := Prod.mk.inj eq
      exact .access main exec busy
  · rename_i op again seen
    split at stepped
    · obtain ⟨rfl,rfl⟩ := Prod.mk.inj (Option.some.inj stepped)
      exact .failClosed main ‹_›
    · rename_i closed
      have closed := Bool.eq_false_iff.mpr closed
      cases again <;> obtain ⟨rfl,rfl⟩ := Prod.mk.inj (Option.some.inj stepped)
      · exact .fail main closed
      · exact .failAgain main closed
  · contradiction

theorem retryStep_step {t : θ} {l l' : Local ω V} {s s' : MCChannel θ ω V} {label : Label ω V}
    (stepped : retryStep t l s l.main label = some (l',s')) : Step t l s label l' s' := by
  generalize main : l.main = m at stepped
  unfold retryStep at stepped
  split at stepped
  · rename_i op interrupted
    cases interrupted <;> obtain ⟨rfl,rfl⟩ := Prod.mk.inj (Option.some.inj stepped)
    · exact .uninterrupted main
    · exact .interrupted main
  · obtain ⟨rfl,rfl⟩ := Prod.mk.inj (Option.some.inj stepped)
    exact .snooze main
  · obtain ⟨p,ran,eq⟩ := Option.map_eq_some_iff.mp stepped
    obtain ⟨pc,list,exec,rfl⟩ := runList_eq_some ran
    obtain ⟨rfl,rfl⟩ := Prod.mk.inj eq
    exact .startWait main exec
  · rename_i op first label
    split at stepped
    · contradiction
    · rename_i quiet
      obtain ⟨p,ran,eq⟩ := Option.map_eq_some_iff.mp stepped
      obtain ⟨pc,list,exec,rfl⟩ := runList_eq_some ran
      by_cases woken : ∃ w value, l.waits op.side = .parked w ∧ pc = .subCount (.ok value)
      · obtain ⟨w,value,parked,rfl⟩ := woken
        rw [parked] at exec eq
        simp only [noteWoken,untilReturned,Local.setWait_self,isReturned,Bool.false_eq_true,
          if_false] at eq
        obtain ⟨rfl,rfl⟩ := Prod.mk.inj eq
        exact .resume main parked exec
      · have next := Step.wait main exec quiet fun w parked value same =>
          woken ⟨w,value,parked,same⟩
        rw [noteWoken_of_not woken,untilReturned,Local.setWait_self] at eq
        split at eq
        all_goals
          rename_i done
          obtain ⟨rfl,rfl⟩ := Prod.mk.inj eq
          simpa [done,Local.goto_main (l := l.setWait _ pc) main] using next
  · rename_i op first
    split at stepped
    · rename_i w at_
      obtain ⟨rfl,rfl⟩ := Prod.mk.inj (Option.some.inj stepped)
      exact .loadFirst main at_
    · rename_i w pos stamp at_
      obtain ⟨p,ran,eq⟩ := Option.map_eq_some_iff.mp stepped
      obtain ⟨pc,list,exec,rfl⟩ := runList_eq_some ran
      rw [at_] at exec
      dsimp only at eq
      by_cases zero : s.remaining op.side pos = 0
      · rw [decide_eq_true zero] at exec eq
        obtain ⟨rfl,rfl⟩ := Prod.mk.inj (Option.some.inj exec)
        obtain ⟨rfl,rfl⟩ := Prod.mk.inj eq
        simpa [Local.goto] using Step.block main at_ zero
      · rw [decide_eq_false zero] at exec eq
        obtain ⟨rfl,rfl⟩ := Prod.mk.inj (Option.some.inj exec)
        obtain ⟨rfl,rfl⟩ := Prod.mk.inj eq
        simpa [Local.goto,Local.setWait] using Step.noBlock main at_ zero
    · contradiction
  · contradiction

theorem closedStep_step {t : θ} {l l' : Local ω V} {s s' : MCChannel θ ω V} {label : Label ω V}
    (stepped : closedStep t l s l.main label = some (l',s')) : Step t l s label l' s' := by
  generalize main : l.main = m at stepped
  unfold closedStep at stepped
  split at stepped
  · split at stepped
    · obtain ⟨rfl,rfl⟩ := Prod.mk.inj (Option.some.inj stepped)
      exact .isClosed main ‹_›
    · obtain ⟨p,ran,eq⟩ := Option.map_eq_some_iff.mp stepped
      obtain ⟨pc,list,exec,rfl⟩ := runList_eq_some ran
      obtain ⟨rfl,rfl⟩ := Prod.mk.inj eq
      exact .sendClosed main exec
  · split at stepped
    · rename_i w at_
      obtain ⟨pc,list,exec,eq⟩ := runList_eq_some stepped
      rw [at_] at exec
      simp only [WaitList.prog,WaitList.waitStep,if_true,Option.some.injEq,Prod.mk.injEq] at exec
      obtain ⟨rfl,rfl⟩ := exec
      obtain ⟨rfl,rfl⟩ := Prod.mk.inj eq
      exact .sendClosedBlock main at_
    · rename_i quiet
      obtain ⟨p,ran,eq⟩ := Option.map_eq_some_iff.mp stepped
      obtain ⟨pc,list,exec,rfl⟩ := runList_eq_some ran
      dsimp only at eq
      rw [Local.setWait_self] at eq
      split at eq
      · obtain ⟨rfl,rfl⟩ := Prod.mk.inj eq
        exact .sendClosedCancelled main exec
      · rename_i result other
        obtain ⟨rfl,rfl⟩ := Prod.mk.inj eq
        exact .sendClosedWait main exec quiet
      · rename_i busy
        have running : isReturned pc = false := by
          cases pc <;> first | rfl | exact absurd rfl (busy _)
        have next := Step.sendClosedWait main exec quiet
        obtain ⟨rfl,rfl⟩ := Prod.mk.inj eq
        simpa [running,Local.goto_main (l := l.setWait _ pc) main] using next
  · contradiction

theorem until_step {t : θ} {l : Local ω V} {s : MCChannel θ ω V} {side : Side}
    {label : WaitList.Label (Waiter ω) Unit} {pc : WaitList.Pc (Waiter ω) Unit}
    {list : WaitList θ (Waiter ω) Unit} {l' : Local ω V} {s' : MCChannel θ ω V}
    (main : l.main = .close side ∨ l.main = .cancel side)
    (ran : WaitList.prog t label (l.waits side) (s.waiters side) = some (pc,list))
    (eq : (if isReturned ((l.setWait side pc).waits side) then
      leave t (l.setWait side pc) (s.setList side list) .unit
      else (l.setWait side pc,s.setList side list)) = (l',s')) : Step t l s (.list label) l' s' := by
  rw [Local.setWait_self] at eq
  cases done : isReturned pc <;> rw [done] at eq <;> obtain ⟨rfl,rfl⟩ := Prod.mk.inj eq
  · exact .close main ran done
  · exact .closed main ran done

theorem closeStep_step {t : θ} {l l' : Local ω V} {s s' : MCChannel θ ω V} {label : Label ω V}
    (stepped : closeStep t l s l.main label = some (l',s')) : Step t l s label l' s' := by
  generalize main : l.main = m at stepped
  unfold closeStep at stepped
  split at stepped
  · obtain ⟨p,ran,eq⟩ := Option.map_eq_some_iff.mp stepped
    obtain ⟨pc,list,exec,rfl⟩ := runList_eq_some ran
    obtain ⟨rfl,rfl⟩ := Prod.mk.inj eq
    exact .startClose main exec
  · obtain ⟨p,ran,eq⟩ := Option.map_eq_some_iff.mp stepped
    obtain ⟨pc,list,exec,rfl⟩ := runList_eq_some ran
    exact until_step (.inl main) exec eq
  · obtain ⟨p,ran,eq⟩ := Option.map_eq_some_iff.mp stepped
    obtain ⟨pc,list,exec,rfl⟩ := runList_eq_some ran
    exact until_step (.inr main) exec eq
  · contradiction

/-- The step lemma: what the invariants of the channel look at instead of the code. -/
theorem prog_step {t : θ} {label : Label ω V} {l l' : Local ω V} {s s' : MCChannel θ ω V}
    (stepped : prog t label l s = some (l',s')) : Step t l s label l' s' := by
  unfold prog at stepped
  cases main : l.main <;> rw [main] at stepped <;> simp only at stepped
  case idle | returned =>
    cases label with
    | call call => exact start_step (by simp [main,Main.isFree]) stepped
    | _ => contradiction
  case isInterrupted | backoff | wait => exact retryStep_step (main ▸ stepped)
  case closed | sendClosed => exact closedStep_step (main ▸ stepped)
  case startClose | close | cancel => exact closeStep_step (main ▸ stepped)
  all_goals exact tryStep_step (main ▸ stepped)

end XxCore.Sync.MCChannel
