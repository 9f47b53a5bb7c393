import XxCore.Sync.Channel.ChannelParts

/-! The handles of the channel. Whoever is in a call borrows a handle that is counted, so once
the last sender is dropped nobody sends, and nobody will. -/
namespace XxCore.Sync.MCChannel

variable {θ ω V : Type}

/-- The side of the handle that a call of the queue borrows. -/
def Main.uses : Main V → Option Side
  | .begin op _ | .nextSlot op _ | .startWake op _ | .wake op _ | .access op _ | .loadClosed op _ _
  | .isInterrupted op | .backoff op | .wait op _ => some op.side
  | _ => none

/-- The list that the task is to close, or is closing. -/
def Main.closes : Main V → Option Side
  | .startClose side | .close side => some side
  | _ => none

structure HandlesShared (s : MCChannel θ ω V) : Prop where
  borrowed : ∀ side, (s.exclusive side).length + (if (s.users side).isEmpty then 0 else 1) ≤ s.count side
  closed : (s.waiters .recv).closed = true → s.count .send = 0

structure HandlesThread (t : θ) (s : MCChannel θ ω V) (l : Local ω V) : Prop where
  uses : ∀ side, l.main.uses = some side → t ∈ s.users side
  closes : l.main.closes = some .recv → s.count .send = 0

def handles : Threads.Outline Unit θ (MCChannel θ ω V) (Local ω V) :=
  ⟨fun _ => HandlesShared,fun _ => HandlesThread⟩

/-- Nobody sends once there is no sender left. -/
theorem nobody_sends {c : Config θ ω V} (holds : handles.Holds () c) (none : c.shared.count .send = 0)
    (t : θ) : (c.locals t).main.uses ≠ some .send := by
  intro uses
  have mem := (holds.2 t).uses .send uses
  have borrowed := holds.1.borrowed .send
  rw [if_neg (by cases users : c.shared.users .send <;> simp_all),none] at borrowed
  omega

theorem mem_share {t u : θ} {s : MCChannel θ ω V} {side side' : Side}
    (mem : u ∈ s.users side) : u ∈ (share t s side').users side := by
  by_cases same : side = side'
  · subst same; simp [share,mem]
  · simpa [share,same] using mem

theorem borrowed_share {t : θ} {s : MCChannel θ ω V} {side' : Side}
    (may : s.mayShare side' = true) (shared : HandlesShared s) (side : Side) :
    ((share t s side').exclusive side).length + (if ((share t s side').users side).isEmpty then 0 else 1) ≤
      (share t s side').count side := by
  by_cases same : side = side'
  · subst same
    simpa [share,mayShare,Nat.succ_le_iff] using may
  · simpa [share,same] using shared.borrowed side

variable [DecidableEq θ] [DecidableEq ω]

theorem borrowed_leave {t : θ} {s : MCChannel θ ω V} (shared : HandlesShared s) (side : Side) :
    ((s.exclusive side).erase t).length + (if ((s.users side).erase t).isEmpty then 0 else 1) ≤
      s.count side := by
  have shorter := List.length_erase_le (a := t) (l := s.exclusive side)
  have borrowed := shared.borrowed side
  cases users : s.users side with
  | nil =>
    rw [users] at borrowed
    exact Nat.le_trans (Nat.add_le_add_right shorter _) borrowed
  | cons u rest =>
    rw [users] at borrowed
    refine Nat.le_trans (Nat.add_le_add shorter ?_) borrowed
    split <;> simp

theorem Step.borrowed {t : θ} {label : Label ω V} {l l' : Local ω V} {s s' : MCChannel θ ω V}
    (step : Step t l s label l' s') (shared : HandlesShared s) (side : Side) :
    (s'.exclusive side).length + (if (s'.users side).isEmpty then 0 else 1) ≤ s'.count side := by
  have borrowed := shared.borrowed side
  cases step with
  | op _ may => exact borrowed_share may shared side
  | callClose _ may => exact borrowed_share may shared side
  | callClosed _ own =>
    cases side
    · simp only [mayOwn,decide_eq_true_eq] at own
      simp only [Function.update_self,List.length_cons]
      omega
    · exact borrowed
  | @clone side' _ may =>
    by_cases same : side = side'
    · subst same
      simp only [setCount,Function.update_self]
      exact Nat.le_succ_of_le borrowed
    · simpa [setCount,same] using borrowed
  | @drop side' _ own =>
    by_cases same : side = side'
    · subst same
      simp only [mayOwn,decide_eq_true_eq] at own
      simp only [setCount,Function.update_self]
      exact Nat.le_sub_one_of_lt own
    · simpa [setCount,same] using borrowed
  | beginClosed | finish | failClosed | fail | interrupted | isClosed | sendClosedCancelled
  | closed => exact borrowed_leave shared side
  | _ => exact borrowed

/-- A channel without senders stays so. -/
theorem Step.count {t : θ} {label : Label ω V} {l l' : Local ω V} {s s' : MCChannel θ ω V}
    (step : Step t l s label l' s') (none : s.count .send = 0) : s'.count .send = 0 := by
  cases step with
  | @clone side _ may =>
    cases side
    · simp [mayShare,none] at may
    · simpa [setCount] using none
  | @drop side _ own =>
    cases side
    · simp [mayOwn,none] at own
    · simpa [setCount] using none
  | _ => exact none

theorem Step.users {t u : θ} {label : Label ω V} {l l' : Local ω V} {s s' : MCChannel θ ω V}
    (step : Step t l s label l' s') (ne : u ≠ t) {side : Side} (mem : u ∈ s.users side) :
    u ∈ s'.users side := by
  cases step with
  | op | callClose => exact mem_share mem
  | beginClosed | finish | failClosed | fail | interrupted | isClosed | sendClosedCancelled
  | closed => exact (List.mem_erase_of_ne ne).mpr mem
  | _ => exact mem

theorem Step.uses {t : θ} {label : Label ω V} {l l' : Local ω V} {s s' : MCChannel θ ω V}
    (step : Step t l s label l' s') (own : HandlesThread t s l) (side : Side)
    (uses : l'.main.uses = some side) : t ∈ s'.users side := by
  have kept := own.uses side
  cases step with
  | op =>
    obtain rfl := Option.some.inj uses
    simp [share]
  | drop =>
    simp only [Local.goto] at uses
    split at uses <;> contradiction
  | callClosed | callClose | clone | callCancel | beginClosed | finish | failClosed | fail
  | interrupted | isClosed | sendClosed | sendClosedCancelled | startClose | closed => contradiction
  | begin main | claim main | reject main | startWake main | failAgain main | uninterrupted main
  | snooze main | startWait main | loadFirst main | block main | noBlock main =>
    exact kept (by rw [main]; exact uses)
  | wake main | wait main =>
    refine kept ?_
    rw [main]
    simp only [Local.goto] at uses
    split at uses <;> exact uses
  | sendClosedWait =>
    simp only [Local.goto] at uses
    split at uses <;> contradiction
  | search | access | resume | sendClosedBlock | close => exact kept uses

theorem Main.closes_of_list {main : Main V} {side : Side} {closing : Bool}
    (list : main.list side = some (.wakeAll closing)) : main.closes = some side := by
  cases main with
  | close side' =>
    simp only [Main.list,Option.ite_none_right_eq_some] at list
    rw [list.1]
    rfl
  | wake | wait | sendClosed | cancel => simp [Main.list] at list
  | _ => contradiction

theorem Step.closes {t : θ} {label : Label ω V} {l l' : Local ω V} {s s' : MCChannel θ ω V}
    (step : Step t l s label l' s') (own : HandlesThread t s l)
    (closes : l'.main.closes = some .recv) : s'.count .send = 0 := by
  have kept := own.closes
  cases step with
  | @drop side =>
    simp only [Local.goto] at closes
    split at closes
    · rename_i last
      cases side
      · simp [setCount,last]
      · simp [Main.closes,Side.other] at closes
    · contradiction
  | callClose => simp [Local.goto,Main.closes] at closes
  | startClose main => exact kept (by rw [main]; exact closes)
  | close | search | access | resume | sendClosedBlock => exact kept closes
  | wake main | wait main | sendClosedWait main =>
    simp only [Local.goto] at closes
    split at closes <;> contradiction
  | _ => contradiction

/-- The list of the receivers is closed by the last sender only. -/
theorem Step.closed_recv {t : θ} {label : Label ω V} {l l' : Local ω V} {s s' : MCChannel θ ω V}
    (step : Step t l s label l' s') (shared : HandlesShared s) (own : HandlesThread t s l)
    (coherent : Coherent l) (closed : (s'.waiters .recv).closed = true) : s.count .send = 0 := by
  rcases step.listStep .recv with ⟨_,same⟩ | ⟨choice,ran⟩
  · exact shared.closed (by rw [← same]; exact closed)
  · generalize l'.waits .recv = pc', s'.waiters .recv = list at ran closed
    generalize at_ : l.waits .recv = pc at ran
    cases WaitList.prog_step ran with
    | storeClosed =>
      have family := coherent.lists .recv
      rw [at_] at family
      exact own.closes (Main.closes_of_list family.symm)
    | _ => exact shared.closed closed

theorem handles_step {c next : Config θ ω V} {label : θ × Label ω V}
    (coherent : ∀ t, Coherent (c.locals t)) (holds : handles.Holds () c)
    (stepped : step c label = some next) : handles.Holds () next := by
  rcases label with ⟨t,label⟩
  obtain ⟨l',s',ran,rfl⟩ := Threads.step_eq_some.mp stepped
  have step := prog_step ran
  refine Threads.Outline.Keeps.holds (a := ()) ⟨⟨step.borrowed holds.1,fun closed => ?_⟩,
    ⟨step.uses (holds.2 t),step.closes (holds.2 t)⟩,fun u ne => ⟨fun side uses => ?_,fun closes => ?_⟩⟩
  · exact step.count (step.closed_recv holds.1 (holds.2 t) (coherent t) closed)
  · exact step.users ne ((holds.2 u).uses side uses)
  · exact step.count ((holds.2 u).closes closes)

omit [DecidableEq ω] [DecidableEq θ] in
theorem init_handles (slots : Nat × (Nat → Slot V)) :
    handles.Holds () (init slots : Config θ ω V) :=
  ⟨⟨fun _ => by simp [init,bounded],nofun⟩,fun _ => ⟨nofun,nofun⟩⟩

end XxCore.Sync.MCChannel
