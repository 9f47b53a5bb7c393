import Mathlib.Data.List.Perm.Subperm
import XxCore.Sync.RawWaitListWake

/-! The number that `wake_all` of `RawWaitList` returns. It is a count that the waiting side keeps,
which is raised with a registration and lowered when the task of the waiter goes on. -/
namespace XxCore.Sync.RawWaitList

open Links Container Transition

variable {α β : Type}

/-- The waiters that a call has still to complete. -/
def State.held (s : State α β) (call : Nat) : List α :=
  ((s.frames.find? fun frame => frame.call = call).map Frame.rest).getD []

/-- A waiter got a value, and not the panic of cloning it. -/
def Resolved.isValue (resolved : Resolved β) : Bool :=
  match resolved.result with
  | .ok (.ok _) => true
  | _ => false

/-- The completions with the value that a call has made. -/
def given (call : Nat) (log : List (Resolved β)) : List (Resolved β) :=
  log.filter fun resolved => decide (resolved.source = .wakeAll call) && resolved.isValue

/-- A waiter of the call is cancelled before its turn, or cloning the value for it panics. -/
def Disturbs (call : Nat) (s : State α β) : Label α β → Prop
  | .cancel waiter => waiter ∈ s.held call
  | .next (some _) => ∃ frame frames, s.frames = frame :: frames ∧ frame.call = call ∧
      1 < frame.rest.length
  | _ => False

/-- What a call has given and what it has still to give. -/
def share (call : Nat) (s : State α β) : Nat := (given call s.log).length + (s.held call).length

theorem length_given_append (call : Nat) (log : List (Resolved β)) (resolved : Resolved β) :
    (given call (log ++ [resolved])).length = (given call log).length +
      if resolved.source = .wakeAll call ∧ resolved.isValue = true then 1 else 0 := by
  by_cases both : resolved.source = .wakeAll call ∧ resolved.isValue = true
  · simp [given,both]
  · have off : (decide (resolved.source = .wakeAll call) && resolved.isValue) = false := by
      simpa using both
    rw [if_neg both,given,given,List.filter_append,List.length_append,List.filter_singleton,off]
    rfl

theorem mem_held {s : State α β} {call : Nat} {w : α} (mem : w ∈ s.held call) :
    ∃ frame ∈ s.frames, frame.call = call ∧ w ∈ frame.rest := by
  cases found : s.frames.find? fun frame => frame.call = call with
  | none => simp [State.held,found] at mem
  | some frame =>
    refine ⟨frame,List.mem_of_find?_eq_some found,by simpa using List.find?_some found,?_⟩
    simpa [State.held,found] using mem

variable [DecidableEq α] {s next : State α β} {w : α} {call : Nat}

theorem held_detach : (s.detach w).held call = (s.held call).erase w := by
  cases found : s.frames.find? fun frame => frame.call = call with
  | none => simp [State.held,State.detach,List.find?_map,Function.comp_def,found]
  | some frame => simp [State.held,State.detach,List.find?_map,Function.comp_def,found]

theorem held_turn (broken : Bool) : (s.turn broken).held call = s.held call := by
  cases shape : s.frames with
  | nil => simp [State.held,State.turn,shape]
  | cons first rest =>
    by_cases same : first.call = call
    · simp [State.held,State.turn,shape,same]
    · simp [State.held,State.turn,shape,same]

theorem held_cons {frame : Frame α β} {frames : List (Frame α β)} (shape : s.frames = frame :: frames)
    (mine : frame.call = call) : s.held call = frame.rest := by
  simp [State.held,shape,mine]

/-- A call that has returned holds nothing. -/
theorem held_gone {frames : List (Frame α β)} (gone : ∀ frame ∈ frames, frame.call ≠ call) :
    State.held { s with frames } call = [] := by
  have none : frames.find? (fun frame => frame.call = call) = none := by
    rw [List.find?_eq_none]
    intro frame inside
    simpa using gone frame inside
  simp [State.held,none]

/-- It is the call at the top that goes on. -/
theorem disturbs_next {frame : Frame α β} {frames : List (Frame α β)} {unwound : Option Panic}
    (shape : s.frames = frame :: frames) : Disturbs call s (.next unwound) ↔
      unwound.isSome = true ∧ frame.call = call ∧ 1 < frame.rest.length := by
  cases unwound with
  | none => simp [Disturbs]
  | some panic =>
    simp only [Disturbs,shape,List.cons.injEq,Option.isSome_some,true_and]
    constructor
    · rintro ⟨_,_,⟨rfl,rfl⟩,isCall,long⟩
      exact ⟨isCall,long⟩
    · rintro ⟨isCall,long⟩
      exact ⟨frame,frames,⟨rfl,rfl⟩,isCall,long⟩

/-- A completion that is not made by the call. -/
theorem share_other {heap : Heap α} {source : Source} {result : WaitResult β}
    (other : source ≠ .wakeAll call) :
    share call (({ s with heap } : State α β).detach w |>.complete w source result) =
      (given call s.log).length + ((s.held call).erase w).length := by
  have log := length_given_append call s.log ⟨s.ticket w,source,result⟩
  rw [if_neg fun both => other both.1,Nat.add_zero] at log
  change (given call (s.log ++ [⟨s.ticket w,source,result⟩])).length +
    ((s.detach w).held call).length = _
  rw [log,held_detach]

theorem share_turned {frame : Frame α β} {frames : List (Frame α β)} {rest : List α} {heap : Heap α}
    {unwound : Option Panic} (inv : Inv s) (shape : s.frames = frame :: frames)
    (split : frame.rest = w :: rest) :
    (Disturbs call s (.next unwound) → share call
      (({ s with heap } : State α β).detach w
        |>.complete w (.wakeAll frame.call) (.ok (cloned frame.value rest.isEmpty unwound))
        |>.turn rest.isEmpty) < share call s) ∧
    (¬ Disturbs call s (.next unwound) → share call
      (({ s with heap } : State α β).detach w
        |>.complete w (.wakeAll frame.call) (.ok (cloned frame.value rest.isEmpty unwound))
        |>.turn rest.isEmpty) = share call s) := by
  have left : share call (({ s with heap } : State α β).detach w
        |>.complete w (.wakeAll frame.call) (.ok (cloned frame.value rest.isEmpty unwound))
        |>.turn rest.isEmpty) = (given call (s.log ++ [⟨s.ticket w,.wakeAll frame.call,
          .ok (cloned frame.value rest.isEmpty unwound)⟩])).length + ((s.held call).erase w).length := by
    rw [share,held_turn]
    change _ + ((s.detach w).held call).length = _
    rw [held_detach]
    rfl
  rw [left,length_given_append,share]
  by_cases mine : frame.call = call
  · have held := held_cons shape mine
    rw [held,split,List.erase_cons_head,List.length_cons]
    have disturbs : Disturbs call s (.next unwound) ↔ unwound.isSome = true ∧ rest.isEmpty = false := by
      rw [disturbs_next shape,split]
      cases rest <;> simp [mine]
    rw [disturbs]
    cases unwound with
    | none =>
      have value : cloned frame.value rest.isEmpty none = .ok frame.value := by
        cases rest <;> rfl
      simp [value,mine,Resolved.isValue]
      omega
    | some panic =>
      cases rest with
      | nil =>
        simp [cloned,mine,Resolved.isValue]
      | cons other rest =>
        simp [cloned,mine,Resolved.isValue]
  · -- another call, which holds none of the waiters of this one
    have away : w ∉ s.held call := by
      intro mem
      obtain ⟨own,inside,isCall,rest⟩ := mem_held mem
      have top : frame ∈ s.frames := by simp [shape]
      have first : w ∈ frame.rest := by simp [split]
      have same := inv.frames_apart inside top rest first
      exact mine (same ▸ isCall)
    have quiet : ¬ Disturbs call s (.next unwound) := fun disturbs =>
      mine ((disturbs_next shape).mp disturbs).2.1
    refine ⟨fun disturbs => absurd disturbs quiet,fun _ => ?_⟩
    rw [if_neg fun both => mine (Source.wakeAll.inj both.1),Nat.add_zero,List.erase_of_not_mem away]

/-- Every step keeps the share of a call, but for those that disturb it. -/
theorem share_step {l : Label α β} (inv : Inv s) (started : call < s.calls)
    (effect : Effect s l next) :
    (Disturbs call s l → share call next < share call s) ∧
      (¬ Disturbs call s l → share call next = share call s) := by
  cases effect with
  | refused | wokeNone | registered | left => exact ⟨False.elim,fun _ => rfl⟩
  | @cancelled heap w laid =>
    rw [share_other (show Source.cancel ≠ .wakeAll call from nofun),share]
    constructor
    · intro (mem : w ∈ s.held call)
      have := List.length_pos_of_mem mem
      rw [List.length_erase_of_mem mem]
      omega
    · intro (away : w ∉ s.held call)
      rw [List.erase_of_not_mem away]
  | @woke w heap value mem laid =>
    have away : w ∉ s.held call := by
      intro held
      obtain ⟨frame,inside,_,rest⟩ := mem_held held
      exact inv.waiting_apart inside mem rest
    refine ⟨False.elim,fun _ => ?_⟩
    have same : share call
        (({ s with heap } : State α β).detach w |>.complete w .wakeOne (.ok (.ok value))) =
          share call s := by
      rw [share_other (show Source.wakeOne ≠ .wakeAll call from nofun),List.erase_of_not_mem away,
        share]
    exact same
  | started laid =>
    refine ⟨False.elim,fun _ => ?_⟩
    rw [share,share]
    congr 2
    simp [State.held,started.ne']
  | turned shape split laid => exact share_turned inv shape split
  | @returned frame frames unwound shape empty =>
    have held : State.held (wakeAllReturn s frame frames) call = s.held call := by
      have calls := inv.calls
      rw [shape,List.map_cons] at calls
      by_cases mine : frame.call = call
      · rw [held_cons shape mine,empty]
        apply held_gone (s := wakeAllReturn s frame frames)
        intro f inside same
        exact (List.nodup_cons.mp calls).1 (mine.trans same.symm ▸ List.mem_map_of_mem inside)
      · simp [State.held,wakeAllReturn,shape,mine]
    have quiet : ¬ Disturbs call s (.next unwound) := by
      rw [disturbs_next shape,empty]
      simp
    refine ⟨fun disturbs => absurd disturbs quiet,fun _ => ?_⟩
    rw [share,share,held]
    rfl

/-- The counter is the number of waits that have not returned. -/
structure Counted (s : State α β) : Prop where
  inv : Inv s
  count : s.count = s.live.length
  live : s.live.Nodup

theorem Counted.step {l : Label α β} (counted : Counted s) (allowed : Allowed s l)
    (stepped : step s l = some next) : Counted next := by
  obtain ⟨_,done,effect⟩ := counted.inv.step_spec allowed
  obtain rfl := Option.some.inj (stepped.symm.trans done)
  refine ⟨counted.inv.effect allowed effect,?_,?_⟩
  · cases effect with
    | registered => exact congrArg (· + 1) counted.count
    | @left w =>
      have live : w ∈ s.live := allowed.1
      change s.count - 1 = (s.live.erase w).length
      rw [List.length_erase_of_mem live,counted.count]
    | _ => exact counted.count
  · cases effect with
    | registered =>
      have unused : s.Unused _ := allowed
      exact List.nodup_cons.mpr ⟨unused.2.1,counted.live⟩
    | left => exact counted.live.erase _
    | _ => exact counted.live

theorem reachable_counted {list : α} {labels : List (Label α β)} {first : State α β}
    (start : init β list = some first) (path : Path step Allowed first labels s) : Counted s := by
  apply path.invariant Counted fun _ _ _ counted => counted.step
  have inv : Inv first := init_inv start
  obtain rfl : _ = first := Option.some.inj start
  exact ⟨inv,rfl,List.nodup_nil⟩

/-- A call has started with this number, which it has still to return. -/
structure Called (call n : Nat) (s : State α β) : Prop where
  inv : Inv s
  started : call < s.calls
  count : ∀ frame ∈ s.frames, frame.call = call → frame.count = n

theorem Called.step {n : Nat} {l : Label α β} (called : Called call n s) (allowed : Allowed s l)
    (stepped : step s l = some next) : Called call n next := by
  obtain ⟨_,done,effect⟩ := called.inv.step_spec allowed
  obtain rfl := Option.some.inj (stepped.symm.trans done)
  have erased : ∀ (w : α), ∀ frame ∈ (s.detach w).frames, frame.call = call → frame.count = n := by
    intro w frame inside mine
    obtain ⟨before,held,rfl⟩ := State.mem_detach inside
    exact called.count before held mine
  refine ⟨called.inv.effect allowed effect,?_,?_⟩
  · cases effect with
    | started => exact Nat.lt_succ_of_lt called.started
    | _ => exact called.started
  · cases effect with
    | cancelled | woke => exact erased _
    | started =>
      intro frame inside mine
      rcases List.mem_cons.mp inside with rfl | inside
      · exact absurd mine called.started.ne'
      · exact called.count frame inside mine
    | turned =>
      intro frame inside mine
      rcases State.mem_turn inside with inside | ⟨first,rest,shape,rfl⟩
      · exact erased _ frame inside mine
      · exact erased _ first (shape ▸ List.mem_cons_self ..) mine
    | returned shape =>
      exact fun frame inside => called.count frame (shape ▸ List.mem_cons_of_mem _ inside)
    | _ => exact called.count

/-- A call of `wake_all` or `close`, from the state it was made in to the one it has returned in. -/
structure WakesAll (s called last final : State α β) (later : List (Label α β)) : Prop where
  reachable : ∃ list first before, init β list = some first ∧ Path step Allowed first before s
  call : ∃ list value closing, Allowed s (.wakeAll list value closing) ∧
    RawWaitList.step s (.wakeAll list value closing) = some called
  runs : Path RawWaitList.step Allowed called later last
  returns : ∃ frame frames panic, last.frames = frame :: frames ∧ frame.call = s.calls ∧
    RawWaitList.step last (.next panic) = some final ∧ final.frames = frames

/-- When the call is made, every wait that has not returned is parked; while it runs none of its
waiters is cancelled, and no clone of the value panics. -/
def Undisturbed (s called last : State α β) (later : List (Label α β)) : Prop :=
  (∀ w ∈ s.live, w ∈ s.waiting) ∧
    Path step (fun s' l => Allowed s' l ∧ ¬ Disturbs s.calls s' l) called later last

/-- The waiters of the list are among the waits, and all of them only if they are as many. -/
theorem length_waiting (counted : Counted s) : s.waiting.length ≤ s.live.length ∧
    (s.live.length = s.waiting.length ↔ ∀ w ∈ s.live, w ∈ s.waiting) := by
  have once : s.waiting.Nodup :=
    (List.nodup_cons.mp (counted.inv.laid.distinct _ _ s.family_list)).2
  have inside : s.waiting ⊆ s.live := fun w mem => counted.inv.live w (.inl mem)
  have perm := once.subperm inside
  refine ⟨perm.length_le,fun same w mem => ?_,fun all => ?_⟩
  · exact (perm.perm_of_length_le same.le).mem_iff.mpr mem
  · exact le_antisymm (counted.live.subperm all).length_le perm.length_le

/-- What a call returns is the number of waits that had not returned when it was made, and so the
number of its completions with the value exactly if nothing came in between. -/
theorem wakes_counted {called last final : State α β} {later : List (Label α β)}
    (wakes : WakesAll s called last final later) : ∃ n,
      final.returned = last.returned ++ [.wakeAll n] ∧
      (n = (given s.calls final.log).length ↔ Undisturbed s called last later) := by
  obtain ⟨⟨list,first,before,start,path⟩,⟨own,value,closing,allowed,call⟩,after,
    frame,frames,panic,shape,mine,returns,gone⟩ := wakes
  have counted := reachable_counted start path
  have inv := counted.inv
  obtain ⟨_,done,effect⟩ := inv.step_spec allowed
  obtain rfl := Option.some.inj (call.symm.trans done)
  have calling : Called s.calls s.count called ∧ share s.calls called = s.waiting.length := by
    have none : given s.calls s.log = [] := by
      rw [given,List.filter_eq_nil_iff]
      intro resolved mem
      have older := inv.source resolved mem
      simp only [Bool.and_eq_true,decide_eq_true_eq,not_and]
      exact fun made => absurd (older _ made) (Nat.lt_irrefl _)
    have after := inv.effect allowed effect
    cases effect with
    | started laid =>
      refine ⟨⟨after,Nat.lt_succ_self _,?_⟩,by simp [share,none,State.held]⟩
      intro frame inside mine
      rcases List.mem_cons.mp inside with rfl | inside
      · rfl
      · exact absurd mine (inv.called frame inside).ne
  have ran := after.invariant (Called s.calls s.count) (fun _ _ _ called => called.step) calling.1
  obtain ⟨le,exactly⟩ := after.measure (Called s.calls s.count) (share s.calls) (Disturbs s.calls)
    (fun s' l next called allowed stepped => by
      obtain ⟨_,done,effect⟩ := called.inv.step_spec allowed
      obtain rfl := Option.some.inj (stepped.symm.trans done)
      exact ⟨called.step allowed stepped,share_step called.inv called.started effect⟩) calling.1
  have running : last.frames ≠ [] := by simp [shape]
  obtain ⟨_,done,effect⟩ := ran.inv.next_spec running panic
  obtain rfl := Option.some.inj (returns.symm.trans done)
  cases effect with
  | @turned top below w rest heap unwound other split laid =>
    obtain ⟨rfl,rfl⟩ := List.cons.inj (other.symm.trans shape)
    have longer := congrArg List.length gone
    simp [State.turn,State.complete,State.detach,other] at longer
  | @returned top below unwound other empty =>
    obtain ⟨rfl,rfl⟩ := List.cons.inj (other.symm.trans shape)
    have number : top.count = s.count := ran.count top (by simp [other]) mine
    have all : (given s.calls last.log).length = share s.calls last := by
      rw [share,held_cons other mine,empty]
      rfl
    refine ⟨top.count,rfl,?_⟩
    change top.count = (given s.calls last.log).length ↔ _
    obtain ⟨fewer,same⟩ := length_waiting counted
    rw [number,counted.count,all,Undisturbed,← same,← exactly]
    rw [calling.2] at le exactly ⊢
    omega

end XxCore.Sync.RawWaitList
