import XxCore.Sync.RawWaitListSteps

/-! `wake_all` of `RawWaitList` while arbitrary code runs inside its completions. -/
namespace XxCore.Sync.RawWaitList

open Links Container Transition

variable {α β : Type} [DecidableEq α] {s next : State α β} {w : α}

section Keeps

namespace State

theorem pending_register {v : α} : (s.register w).Pending v ↔ s.Pending v ∨ v = w := by
  simp only [Pending,register,List.mem_append,List.mem_singleton]
  rw [or_right_comm]

theorem mem_detach {frame : Frame α β} (mem : frame ∈ (s.detach w).frames) :
    ∃ before ∈ s.frames, frame = { before with rest := before.rest.erase w } := by
  obtain ⟨before,inside,rfl⟩ := List.mem_map.mp mem
  exact ⟨before,inside,rfl⟩

theorem mem_turn {broken : Bool} {frame : Frame α β} (mem : frame ∈ (s.turn broken).frames) :
    frame ∈ s.frames ∨ ∃ first rest, s.frames = first :: rest ∧
      frame = { first with broken, turns := first.turns + 1 } := by
  cases shape : s.frames with
  | nil => simp [turn,shape] at mem
  | cons first rest =>
    simp only [turn,shape,List.modifyHead_cons,List.mem_cons] at mem
    rcases mem with rfl | mem
    · exact .inr ⟨first,rest,rfl,rfl⟩
    · exact .inl (by simp [mem])

theorem map_turn {γ : Type} (f : Frame α β → γ) (broken : Bool)
    (same : ∀ frame : Frame α β, f { frame with broken, turns := frame.turns + 1 } = f frame) :
    (s.turn broken).frames.map f = s.frames.map f := by
  cases shape : s.frames <;> simp [turn,shape,same]

theorem pending_turn {broken : Bool} {v : α} : (s.turn broken).Pending v ↔ s.Pending v := by
  cases shape : s.frames <;> simp [turn,Pending,shape]

theorem family_turn (s : State α β) (broken : Bool) : (s.turn broken).family = s.family := by
  funext a
  cases shape : s.frames with
  | nil => simp [family,turn,shape]
  | cons first rest =>
    by_cases same : first.list = a <;> simp [family,turn,shape,same]

end State

namespace Inv

theorem pending_detach (inv : Inv s) {v : α} : (s.detach w).Pending v ↔ s.Pending v ∧ v ≠ w := by
  have waitingOnce := (List.nodup_cons.mp (inv.laid.distinct _ _ s.family_list)).2
  have restOnce : ∀ frame ∈ s.frames, frame.rest.Nodup := fun frame mem =>
    (List.nodup_cons.mp (inv.laid.distinct _ _ (State.family_frame inv.bases mem))).2
  simp only [State.Pending,State.detach,List.mem_map,waitingOnce.mem_erase_iff]
  constructor
  · rintro (⟨ne,mem⟩ | ⟨_,⟨frame,inside,rfl⟩,mem⟩)
    · exact ⟨.inl mem,ne⟩
    · rw [(restOnce frame inside).mem_erase_iff] at mem
      exact ⟨.inr ⟨frame,inside,mem.2⟩,mem.1⟩
  · rintro ⟨mem | ⟨frame,inside,mem⟩,ne⟩
    · exact .inl ⟨ne,mem⟩
    · exact .inr ⟨_,⟨frame,inside,rfl⟩,(restOnce frame inside).mem_erase_iff.mpr ⟨ne,mem⟩⟩

theorem register {heap : Heap α} {count : Nat} (inv : Inv s) (unused : s.Unused w)
    (laid : Laid heap (s.register w).family) :
    Inv (({ s with heap, count } : State α β).register w) := by
  have older : ∀ v, s.Pending v → v ≠ w := fun v pending same =>
    unused.2.1 (inv.live w (same ▸ pending))
  have kept : ∀ v, v ≠ w → (s.register w).ticket v = s.ticket v := fun v ne =>
    Function.update_of_ne ne ..
  have own : (s.register w).ticket w = s.tickets := Function.update_self ..
  constructor
  · exact laid
  · exact inv.bases
  · intro v pending
    rcases State.pending_register.mp pending with pending | rfl
    · exact List.mem_cons_of_mem _ (inv.live v pending)
    · exact List.mem_cons_self ..
  · intro v mem
    rcases List.mem_cons.mp mem with rfl | mem
    · exact ⟨unused.1,unused.2.2⟩
    · exact inv.apart v mem
  · exact inv.broken
  · intro v pending
    rcases State.pending_register.mp pending with pending | rfl
    · exact (kept v (older v pending)).trans_lt (Nat.lt_succ_of_lt (inv.numbered v pending))
    · exact own.trans_lt (Nat.lt_succ_self _)
  · intro u v first second same
    change (s.register w).ticket u = (s.register w).ticket v at same
    rcases State.pending_register.mp first with oldFirst | rfl <;>
      rcases State.pending_register.mp second with oldSecond | rfl
    · rw [kept u (older u oldFirst),kept v (older v oldSecond)] at same
      exact inv.one u v oldFirst oldSecond same
    · rw [kept u (older u oldFirst),own] at same
      exact absurd same (inv.numbered u oldFirst).ne
    · rw [kept v (older v oldSecond),own] at same
      exact absurd same.symm (inv.numbered v oldSecond).ne
    · rfl
  · change ((s.waiting ++ [w]).map (s.register w).ticket).Pairwise (· < ·)
    have before : s.waiting.map (s.register w).ticket = s.waiting.map s.ticket :=
      List.map_congr_left fun v mem => kept v (older v (.inl mem))
    rw [List.map_append,before,List.map_singleton,own]
    apply List.pairwise_append.mpr
    refine ⟨inv.order,List.pairwise_singleton ..,?_⟩
    simp only [List.mem_map,List.mem_singleton]
    rintro _ ⟨v,mem,rfl⟩ _ rfl
    exact inv.numbered v (.inl mem)
  · exact fun resolved mem => Nat.lt_succ_of_lt (inv.logged resolved mem)
  · intro v pending resolved mem
    change resolved.ticket ≠ (s.register w).ticket v
    rcases State.pending_register.mp pending with pending | rfl
    · rw [kept v (older v pending)]
      exact inv.unresolved v pending resolved mem
    · rw [own]
      exact (inv.logged resolved mem).ne
  · exact inv.once
  · intro v mem done
    change ∃ resolved ∈ s.log,resolved.ticket = (s.register w).ticket v
    have notOwn : v ≠ w := fun same => done (State.pending_register.mpr (.inr same))
    rw [kept v notOwn]
    apply inv.answered v (List.mem_of_ne_of_mem notOwn mem)
    exact fun pending => done (State.pending_register.mpr (.inl pending))
  · exact inv.called
  · exact inv.calls
  · exact inv.source

/-- The completion of a pending waiter that was taken out of its list. -/
theorem resolve {heap : Heap α} {source : Source} {result : WaitResult β} (inv : Inv s)
    (pending : s.Pending w) (laid : Laid heap (s.detach w).family)
    (known : ∀ call, source = .wakeAll call → call < s.calls) :
    Inv (({ s with heap } : State α β).detach w |>.complete w source result) := by
  have fewer : ∀ v, (({ s with heap } : State α β).detach w |>.complete w source result).Pending v →
      s.Pending v ∧ v ≠ w := fun v pending => inv.pending_detach.mp pending
  constructor
  · exact laid
  · simpa [State.detach,State.complete,Function.comp_def] using inv.bases
  · exact fun v pending => inv.live v (fewer v pending).1
  · intro v mem
    refine ⟨(inv.apart v mem).1,fun frame inside => ?_⟩
    obtain ⟨before,held,rfl⟩ := State.mem_detach inside
    exact (inv.apart v mem).2 before held
  · intro frame inside broken
    obtain ⟨before,held,rfl⟩ := State.mem_detach inside
    change before.rest.erase w = []
    rw [inv.broken before held broken,List.erase_nil]
  · exact fun v pending => inv.numbered v (fewer v pending).1
  · exact fun u v first second => inv.one u v (fewer u first).1 (fewer v second).1
  · exact inv.order.sublist (List.erase_sublist.map _)
  · intro resolved mem
    rcases List.mem_append.mp mem with mem | mem
    · exact inv.logged resolved mem
    · obtain rfl := List.mem_singleton.mp mem
      exact inv.numbered w pending
  · intro v still resolved mem
    obtain ⟨older,ne⟩ := fewer v still
    rcases List.mem_append.mp mem with mem | mem
    · exact inv.unresolved v older resolved mem
    · obtain rfl := List.mem_singleton.mp mem
      exact fun same => ne (inv.one v w older pending same.symm)
  · change ((s.log ++ [_]).map Resolved.ticket).Nodup
    rw [List.map_append,List.nodup_append]
    refine ⟨inv.once,List.nodup_singleton _,?_⟩
    simp only [List.map_singleton,List.mem_map,List.mem_singleton]
    rintro _ ⟨resolved,mem,rfl⟩ _ rfl
    exact inv.unresolved w pending resolved mem
  · intro v live done
    by_cases same : v = w
    · subst same
      exact ⟨_,List.mem_append_right _ (List.mem_singleton_self _),rfl⟩
    · have before : ¬ s.Pending v := fun pending => done (inv.pending_detach.mpr ⟨pending,same⟩)
      obtain ⟨resolved,mem,eq⟩ := inv.answered v live before
      exact ⟨resolved,List.mem_append_left _ mem,eq⟩
  · intro frame inside
    obtain ⟨before,held,rfl⟩ := State.mem_detach inside
    exact inv.called before held
  · simpa [State.detach,State.complete,Function.comp_def] using inv.calls
  · intro resolved mem call made
    rcases List.mem_append.mp mem with mem | mem
    · exact inv.source resolved mem call made
    · obtain rfl := List.mem_singleton.mp mem
      exact known call made

theorem turn {broken : Bool} (inv : Inv s)
    (last : broken = true → ∀ frame ∈ s.frames.head?, frame.rest = []) : Inv (s.turn broken) := by
  have lists := State.map_turn (s := s) Frame.list broken fun _ => rfl
  have calls := State.map_turn (s := s) Frame.call broken fun _ => rfl
  constructor
  · change Laid s.heap (s.turn broken).family
    rw [State.family_turn]
    exact inv.laid
  · change (s.list :: (s.turn broken).frames.map Frame.list).Nodup
    rw [lists]
    exact inv.bases
  · exact fun v pending => inv.live v (State.pending_turn.mp pending)
  · intro v mem
    refine ⟨(inv.apart v mem).1,fun frame inside => ?_⟩
    rcases State.mem_turn inside with inside | ⟨first,rest,shape,rfl⟩
    · exact (inv.apart v mem).2 frame inside
    · exact (inv.apart v mem).2 first (by simp [shape])
  · intro frame inside stopped
    rcases State.mem_turn inside with inside | ⟨first,rest,shape,rfl⟩
    · exact inv.broken frame inside stopped
    · exact last stopped first (by simp [shape])
  · exact fun v pending => inv.numbered v (State.pending_turn.mp pending)
  · exact fun u v first second => inv.one u v (State.pending_turn.mp first) (State.pending_turn.mp second)
  · exact inv.order
  · exact inv.logged
  · exact fun v pending => inv.unresolved v (State.pending_turn.mp pending)
  · exact inv.once
  · exact fun v live done => inv.answered v live fun pending => done (State.pending_turn.mpr pending)
  · intro frame inside
    rcases State.mem_turn inside with inside | ⟨first,rest,shape,rfl⟩
    · exact inv.called frame inside
    · exact inv.called first (by simp [shape])
  · change ((s.turn broken).frames.map Frame.call).Nodup
    rw [calls]
    exact inv.calls
  · exact inv.source

theorem start {heap : Heap α} {list : α} {value : β} {closing : Bool} (inv : Inv s)
    (unused : s.Unused list)
    (laid : Laid heap (Function.update (Function.update s.family list (some s.waiting))
      s.list (some []))) :
    Inv { s with
      heap
      closed := s.closed || closing
      frames := ⟨list,value,s.count,false,s.calls,s.waiting,0⟩ :: s.frames
      waiting := []
      calls := s.calls + 1 } := by
  obtain ⟨notList,notLive,notFrame⟩ := unused
  have same : ∀ v, State.Pending { s with
      heap
      closed := s.closed || closing
      frames := ⟨list,value,s.count,false,s.calls,s.waiting,0⟩ :: s.frames
      waiting := []
      calls := s.calls + 1 } v ↔ s.Pending v := by
    intro v
    simp [State.Pending]
  constructor
  · have families : State.family { s with
        heap
        closed := s.closed || closing
        frames := ⟨list,value,s.count,false,s.calls,s.waiting,0⟩ :: s.frames
        waiting := []
        calls := s.calls + 1 } =
          Function.update (Function.update s.family list (some s.waiting)) s.list (some []) := by
      funext a
      by_cases base : a = s.list
      · simp [State.family,base]
      · by_cases own : list = a
        · simp [State.family,base,own]
        · simp [State.family,base,own,Ne.symm own]
    rwa [families]
  · obtain ⟨out,distinct⟩ := List.nodup_cons.mp inv.bases
    simp only [List.map_cons,List.nodup_cons,List.mem_cons,not_or]
    refine ⟨⟨Ne.symm notList,out⟩,?_,distinct⟩
    intro mem
    obtain ⟨frame,inside,eq⟩ := List.mem_map.mp mem
    exact notFrame frame inside eq.symm
  · exact fun v pending => inv.live v ((same v).mp pending)
  · intro v mem
    refine ⟨(inv.apart v mem).1,fun frame inside => ?_⟩
    rcases List.mem_cons.mp inside with rfl | inside
    · exact fun (eq : v = list) => notLive (eq ▸ mem)
    · exact (inv.apart v mem).2 frame inside
  · intro frame inside broken
    rcases List.mem_cons.mp inside with rfl | inside
    · exact absurd broken (by simp)
    · exact inv.broken frame inside broken
  · exact fun v pending => inv.numbered v ((same v).mp pending)
  · exact fun u v first second => inv.one u v ((same u).mp first) ((same v).mp second)
  · exact .nil
  · exact inv.logged
  · exact fun v pending => inv.unresolved v ((same v).mp pending)
  · exact inv.once
  · exact fun v live done => inv.answered v live fun pending => done ((same v).mpr pending)
  · intro frame inside
    rcases List.mem_cons.mp inside with rfl | inside
    · exact Nat.lt_succ_self _
    · exact Nat.lt_succ_of_lt (inv.called frame inside)
  · simp only [List.map_cons,List.nodup_cons]
    refine ⟨fun mem => ?_,inv.calls⟩
    obtain ⟨frame,inside,eq⟩ := List.mem_map.mp mem
    exact (inv.called frame inside).ne eq
  · exact fun resolved mem call made => Nat.lt_succ_of_lt (inv.source resolved mem call made)

theorem finish {frame : Frame α β} {frames : List (Frame α β)} (inv : Inv s)
    (shape : s.frames = frame :: frames) (empty : frame.rest = []) :
    Inv (wakeAllReturn s frame frames) := by
  have inside : frame ∈ s.frames := by simp [shape]
  have older : ∀ f ∈ frames, f ∈ s.frames := fun f mem => by simp [shape,mem]
  have same : ∀ v, (wakeAllReturn s frame frames).Pending v ↔ s.Pending v := by
    intro v
    simp [State.Pending,wakeAllReturn,shape,empty]
  have bases := inv.bases
  rw [shape,List.map_cons] at bases
  have calls := inv.calls
  rw [shape,List.map_cons] at calls
  constructor
  · have here := State.family_frame inv.bases inside
    rw [empty] at here
    have families : (wakeAllReturn s frame frames).family =
        Function.update s.family frame.list none := by
      funext a
      simp only [List.nodup_cons,List.mem_cons,not_or] at bases
      by_cases own : frame.list = a
      · subst own
        have gone : frames.find? (fun f => f.list = frame.list) = none := by
          rw [List.find?_eq_none]
          intro f mem eq
          exact bases.2.1 (of_decide_eq_true eq ▸ List.mem_map_of_mem mem)
        simp [State.family,wakeAllReturn,Ne.symm bases.1.1,gone]
      · simp [State.family,wakeAllReturn,shape,own,Ne.symm own]
        rfl
    rw [families]
    exact inv.laid.stop here
  · exact bases.sublist ((List.sublist_cons_self ..).cons_cons _)
  · exact fun v pending => inv.live v ((same v).mp pending)
  · exact fun v mem => ⟨(inv.apart v mem).1,fun f held => (inv.apart v mem).2 f (older f held)⟩
  · exact fun f held => inv.broken f (older f held)
  · exact fun v pending => inv.numbered v ((same v).mp pending)
  · exact fun u v first second => inv.one u v ((same u).mp first) ((same v).mp second)
  · exact inv.order
  · exact inv.logged
  · exact fun v pending => inv.unresolved v ((same v).mp pending)
  · exact inv.once
  · exact fun v live done => inv.answered v live fun pending => done ((same v).mpr pending)
  · exact fun f held => inv.called f (older f held)
  · exact (List.nodup_cons.mp calls).2
  · exact inv.source

theorem left {count : Nat} {returned : List (Returned β)} (inv : Inv s) (done : ¬ s.Pending w) :
    Inv { s with count, live := s.live.erase w, returned } :=
  { inv with
    live := fun v pending =>
      (List.mem_erase_of_ne fun (same : v = w) => done (same ▸ pending)).mpr (inv.live v pending)
    apart := fun v mem => inv.apart v (List.mem_of_mem_erase mem)
    answered := fun v live => inv.answered v (List.mem_of_mem_erase live) }

theorem effect {l : Label α β} (inv : Inv s) (allowed : Allowed s l) (effect : Effect s l next) :
    Inv next := by
  cases effect with
  | refused => exact { inv with }
  | registered laid => exact inv.register allowed laid
  | cancelled laid => exact inv.resolve allowed laid (by simp)
  | wokeNone => exact { inv with }
  | woke mem laid => exact { inv.resolve (.inl mem) laid (by simp) with }
  | started laid => exact inv.start allowed laid
  | @turned frame frames w rest heap unwound shape split laid =>
    have inside : frame ∈ s.frames := by simp [shape]
    have pending : s.Pending w := .inr ⟨frame,inside,by simp [split]⟩
    apply (inv.resolve pending laid _).turn
    · intro empty first mem
      simp only [State.complete,State.detach,shape,List.map_cons,List.head?_cons,Option.mem_some_iff]
        at mem
      simp only [List.isEmpty_iff] at empty
      simp [← mem,split,empty]
    · intro call made
      cases made
      exact inv.called frame inside
  | returned shape empty => exact inv.finish shape empty
  | left => exact inv.left allowed.2

end Inv

theorem init_inv {list : α} (start : init β list = some s) : Inv s := by
  have laid := laid_null.start (show Free (fun _ => none) list by simp [Free])
  rw [init,LinkedList.pin,LinkedList.setCircular_eq] at start
  obtain rfl := Option.some.inj start
  constructor
  · have family : State.family (β := β) ⟨list,link Heap.null list list,0,false,[],[],[],fun _ => 0,
        0,0,[],[]⟩ = Function.update (fun _ => none) list (some []) := by
      funext a
      by_cases same : a = list <;> simp [State.family,same]
    rwa [family]
  all_goals simp [State.Pending]

/-- In every reachable state a step that is allowed can be taken. -/
theorem reachable_inv {labels : List (Label α β)} {list : α} {first : State α β}
    (start : init β list = some first) (path : Path step Allowed first labels s) : Inv s := by
  apply path.invariant Inv _ (init_inv start)
  intro s l next inv allowed stepped
  obtain ⟨taken,done,effect⟩ := inv.step_spec allowed
  cases stepped.symm.trans done
  exact inv.effect allowed effect

end Keeps

/-! One call of `wake_all`, whatever runs while it has not returned. -/

/-- What a call may give a waiter: the value or the panic of cloning it, unless the waiter was
cancelled before its turn. -/
def Answer (call : Nat) (value : β) (resolved : Resolved β) : Prop :=
  (resolved.source = .wakeAll call ∧
    (resolved.result = .ok (.ok value) ∨ ∃ panic, resolved.result = .ok (.error panic))) ∨
  (resolved.source = .cancel ∧ resolved.result = .error .cancelled)

/-- The registrations that the call completed, in that order. -/
def woken (call : Nat) (log : List (Resolved β)) : List Nat :=
  (log.filter fun resolved => resolved.source = .wakeAll call).map Resolved.ticket

theorem woken_append (call : Nat) (log : List (Resolved β)) (resolved : Resolved β) :
    woken call (log ++ [resolved]) =
      woken call log ++ if resolved.source = .wakeAll call then [resolved.ticket] else [] := by
  by_cases own : resolved.source = .wakeAll call <;> simp [woken,own]

theorem cloned_cases (value : β) (last : Bool) (panic : Option Panic) :
    cloned value last panic = .ok value ∨ ∃ payload, cloned value last panic = .error payload := by
  cases last <;> cases panic <;> simp [cloned]

/-- The call `call` took the registrations `taken` and has not lost or mixed up any. -/
structure Serving (call : Nat) (value : β) (taken : List Nat) (s : State α β) : Prop where
  started : call < s.calls
  frame : ∀ frame ∈ s.frames, frame.call = call → frame.value = value ∧
    (woken call s.log ++ frame.rest.map s.ticket).Sublist taken ∧
    frame.turns + frame.rest.length ≤ taken.length
  order : (woken call s.log).Sublist taken
  served : ∀ t ∈ taken, (∃ resolved ∈ s.log, resolved.ticket = t) ∨
    ∃ frame ∈ s.frames, frame.call = call ∧ ∃ w ∈ frame.rest, s.ticket w = t
  answers : ∀ resolved ∈ s.log, resolved.ticket ∈ taken → Answer call value resolved
  numbered : ∀ t ∈ taken, t < s.tickets

namespace Serving

variable {call : Nat} {value : β} {taken : List Nat}

/-- A pending waiter that the call took is still in its list. -/
theorem held (serving : Serving call value taken s) (inv : Inv s) (pending : s.Pending w)
    (mem : s.ticket w ∈ taken) : ∃ frame ∈ s.frames, frame.call = call ∧ w ∈ frame.rest := by
  rcases serving.served _ mem with ⟨resolved,logged,same⟩ | ⟨frame,inside,own,v,rest,same⟩
  · exact absurd same (inv.unresolved w pending resolved logged)
  · obtain rfl := inv.one v w (.inr ⟨frame,inside,rest⟩) pending same
    exact ⟨frame,inside,own,rest⟩

theorem register {heap : Heap α} {count : Nat} (serving : Serving call value taken s) (inv : Inv s)
    (unused : s.Unused w) :
    Serving call value taken (({ s with heap, count } : State α β).register w) := by
  have kept : ∀ frame ∈ s.frames, ∀ v ∈ frame.rest, (s.register w).ticket v = s.ticket v := by
    intro frame inside v mem
    exact Function.update_of_ne
      (fun (same : v = w) => unused.2.1 (inv.live w (.inr ⟨frame,inside,same ▸ mem⟩))) ..
  constructor
  · exact serving.started
  · intro frame inside own
    obtain ⟨same,sublist,bound⟩ := serving.frame frame inside own
    refine ⟨same,?_,bound⟩
    change (woken call s.log ++ frame.rest.map (s.register w).ticket).Sublist taken
    rwa [List.map_congr_left (kept frame inside)]
  · exact serving.order
  · intro t mem
    rcases serving.served t mem with logged | ⟨frame,inside,own,v,rest,same⟩
    · exact .inl logged
    · exact .inr ⟨frame,inside,own,v,rest,(kept frame inside v rest).trans same⟩
  · exact serving.answers
  · exact fun t mem => Nat.lt_succ_of_lt (serving.numbered t mem)

/-- The completion of a waiter, by this call if the waiter is the first of its list. -/
theorem resolve {heap : Heap α} {source : Source} {result : WaitResult β}
    (serving : Serving call value taken s) (inv : Inv s) (pending : s.Pending w)
    (own : ∀ frame ∈ s.frames, frame.call = call → w ∈ frame.rest →
      Answer call value ⟨s.ticket w,source,result⟩)
    (first : source = .wakeAll call →
      ∃ frame ∈ s.frames, frame.call = call ∧ ∃ rest, frame.rest = w :: rest) :
    Serving call value taken
      (({ s with heap } : State α β).detach w |>.complete w source result) := by
  have inOrder : ∀ frame ∈ s.frames, frame.call = call →
      (woken call (s.log ++ [⟨s.ticket w,source,result⟩]) ++
        (frame.rest.erase w).map s.ticket).Sublist taken := by
    intro frame inside same
    obtain ⟨_,sublist,_⟩ := serving.frame frame inside same
    by_cases made : source = .wakeAll call
    · obtain ⟨top,inTop,topCall,rest,split⟩ := first made
      obtain rfl : top = frame :=
        List.inj_on_of_nodup_map inv.calls inTop inside (topCall.trans same.symm)
      rw [split,List.map_cons] at sublist
      simpa [woken_append,made,split] using sublist
    · have fewer : (woken call s.log ++ (frame.rest.erase w).map s.ticket).Sublist
          (woken call s.log ++ frame.rest.map s.ticket) :=
        (List.Sublist.refl _).append (List.erase_sublist.map _)
      simpa [woken_append,made] using fewer.trans sublist
  constructor
  · exact serving.started
  · intro frame inside same
    obtain ⟨before,held,rfl⟩ := State.mem_detach inside
    obtain ⟨values,_,bound⟩ := serving.frame before held same
    refine ⟨values,inOrder before held same,?_⟩
    exact (Nat.add_le_add_left List.erase_sublist.length_le _).trans bound
  · by_cases made : source = .wakeAll call
    · obtain ⟨top,inTop,topCall,_⟩ := first made
      exact (List.sublist_append_left ..).trans (inOrder top inTop topCall)
    · simpa [State.complete,State.detach,woken_append,made] using serving.order
  · intro t mem
    rcases serving.served t mem with ⟨resolved,logged,same⟩ | ⟨frame,inside,isCall,v,rest,same⟩
    · exact .inl ⟨resolved,List.mem_append_left _ logged,same⟩
    · by_cases gone : v = w
      · subst gone
        exact .inl ⟨_,List.mem_append_right _ (List.mem_singleton_self _),same⟩
      · exact .inr ⟨_,List.mem_map_of_mem inside,isCall,v,(List.mem_erase_of_ne gone).mpr rest,same⟩
  · intro resolved logged mem
    rcases List.mem_append.mp logged with logged | logged
    · exact serving.answers resolved logged mem
    · obtain rfl := List.mem_singleton.mp logged
      obtain ⟨frame,inside,isCall,rest⟩ := serving.held inv pending mem
      exact own frame inside isCall rest
  · exact serving.numbered

theorem turn {broken : Bool} (serving : Serving call value taken s)
    (room : ∀ frame ∈ s.frames.head?, frame.call = call →
      frame.turns + 1 + frame.rest.length ≤ taken.length) :
    Serving call value taken (s.turn broken) := by
  constructor
  · exact serving.started
  · intro frame inside same
    rcases State.mem_turn inside with inside | ⟨first,rest,shape,rfl⟩
    · exact serving.frame frame inside same
    · obtain ⟨values,sublist,_⟩ := serving.frame first (by simp [shape]) same
      exact ⟨values,sublist,room first (by simp [shape]) same⟩
  · exact serving.order
  · intro t mem
    rcases serving.served t mem with logged | ⟨frame,inside,isCall,held⟩
    · exact .inl logged
    · cases shape : s.frames with
      | nil => simp [shape] at inside
      | cons first rest =>
        rw [shape] at inside
        refine .inr ?_
        simp only [State.turn,shape,List.modifyHead_cons]
        rcases List.mem_cons.mp inside with rfl | inside
        · exact ⟨_,List.mem_cons_self ..,isCall,held⟩
        · exact ⟨frame,List.mem_cons_of_mem _ inside,isCall,held⟩
  · exact serving.answers
  · exact serving.numbered

theorem finish {frame : Frame α β} {frames : List (Frame α β)}
    (serving : Serving call value taken s) (shape : s.frames = frame :: frames)
    (empty : frame.rest = []) : Serving call value taken (wakeAllReturn s frame frames) := by
  constructor
  · exact serving.started
  · exact fun f inside => serving.frame f (by simp [shape,show f ∈ frames from inside])
  · exact serving.order
  · intro t mem
    rcases serving.served t mem with logged | ⟨f,inside,isCall,v,held,same⟩
    · exact .inl logged
    · rw [shape] at inside
      rcases List.mem_cons.mp inside with rfl | inside
      · simp [empty] at held
      · exact .inr ⟨f,inside,isCall,v,held,same⟩
  · exact serving.answers
  · exact serving.numbered

theorem effect {l : Label α β} (serving : Serving call value taken s) (inv : Inv s)
    (allowed : Allowed s l) (effect : Effect s l next) : Serving call value taken next := by
  cases effect with
  | refused => exact { serving with }
  | registered laid => exact serving.register inv allowed
  | cancelled laid => exact serving.resolve inv allowed (fun _ _ _ _ => .inr ⟨rfl,rfl⟩) (by simp)
  | wokeNone => exact { serving with }
  | @woke w heap other mem laid =>
    have apart : Serving call value taken
        (({ s with heap } : State α β).detach w |>.complete w .wakeOne (.ok (.ok other))) :=
      serving.resolve inv (.inl mem)
        (fun frame inside _ rest => absurd rest (inv.waiting_apart inside mem)) (by simp)
    exact { apart with }
  | started laid =>
    exact {
      started := Nat.lt_succ_of_lt serving.started
      frame := by
        intro frame inside same
        rcases List.mem_cons.mp inside with rfl | inside
        · exact absurd same serving.started.ne'
        · exact serving.frame frame inside same
      order := serving.order
      served := by
        intro t mem
        rcases serving.served t mem with logged | ⟨frame,inside,held⟩
        · exact .inl logged
        · exact .inr ⟨frame,List.mem_cons_of_mem _ inside,held⟩
      answers := serving.answers
      numbered := serving.numbered }
  | @turned frame frames w rest heap unwound shape split laid =>
    have inside : frame ∈ s.frames := by simp [shape]
    have pending : s.Pending w := .inr ⟨frame,inside,by simp [split]⟩
    have top : ∀ own ∈ s.frames, w ∈ own.rest → own = frame := fun own held rest =>
      inv.frames_apart held inside rest (by simp [split])
    apply (serving.resolve inv pending _ _).turn
    · intro first mem same
      simp only [State.complete,State.detach,shape,List.map_cons,List.head?_cons,Option.mem_some_iff]
        at mem
      subst mem
      obtain ⟨_,_,bound⟩ := serving.frame frame inside same
      simp only [split,List.length_cons,List.erase_cons_head] at bound ⊢
      omega
    · intro own held same rest
      obtain rfl := top own held rest
      obtain ⟨rfl,_⟩ := serving.frame own held same
      refine .inl ⟨by rw [same],?_⟩
      rcases cloned_cases own.value _ unwound with is | ⟨payload,is⟩
      · exact .inl (congrArg _ is)
      · exact .inr ⟨payload,congrArg _ is⟩
    · intro made
      cases made
      exact ⟨frame,inside,rfl,_,split⟩
  | returned shape empty => exact serving.finish shape empty
  | left => exact { serving with }

end Serving

/-- At the start of a call every waiter of the list is in the call's own list. -/
theorem serving_start {heap : Heap α} {list : α} {value : β} {closing : Bool} (inv : Inv s) :
    Serving s.calls value (s.waiting.map s.ticket) { s with
      heap
      closed := s.closed || closing
      frames := ⟨list,value,s.count,false,s.calls,s.waiting,0⟩ :: s.frames
      waiting := []
      calls := s.calls + 1 } := by
  have none : woken s.calls s.log = [] := by
    simp only [woken,List.map_eq_nil_iff,List.filter_eq_nil_iff,decide_eq_true_eq]
    exact fun resolved mem made => (inv.source resolved mem _ made).ne rfl
  constructor
  · exact Nat.lt_succ_self _
  · intro frame inside same
    rcases List.mem_cons.mp inside with rfl | inside
    · exact ⟨rfl,by simp [none],by simp⟩
    · exact absurd same (inv.called frame inside).ne
  · simp [none]
  · intro t mem
    obtain ⟨w,waits,same⟩ := List.mem_map.mp mem
    exact .inr ⟨_,List.mem_cons_self ..,rfl,w,waits,same⟩
  · intro resolved logged mem
    obtain ⟨w,waits,same⟩ := List.mem_map.mp mem
    exact absurd same.symm (inv.unresolved w (.inl waits) resolved logged)
  · intro t mem
    obtain ⟨w,waits,rfl⟩ := List.mem_map.mp mem
    exact inv.numbered w (.inl waits)

theorem serving_run {call : Nat} {value : β} {taken : List Nat} {labels : List (Label α β)}
    {last : State α β} (inv : Inv s) (serving : Serving call value taken s)
    (path : Path step Allowed s labels last) : Inv last ∧ Serving call value taken last := by
  apply path.invariant (fun s => Inv s ∧ Serving call value taken s) _ ⟨inv,serving⟩
  rintro s l next ⟨inv,serving⟩ allowed stepped
  obtain ⟨taken,done,effect⟩ := inv.step_spec allowed
  cases stepped.symm.trans done
  exact ⟨inv.effect allowed effect,serving.effect inv allowed effect⟩

/-- A turn of the innermost `wake_all` completes one more waiter, or the call returns. -/
theorem Effect.turns {panic : Option Panic} {frame : Frame α β} {frames : List (Frame α β)}
    (effect : Effect s (.next panic) next) (shape : s.frames = frame :: frames) :
    next.frames = frames ∨ ∃ turned rest, next.frames = turned :: rest ∧
      rest.length = frames.length ∧ turned.call = frame.call ∧ turned.turns = frame.turns + 1 := by
  cases effect with
  | @turned top below w rest heap unwound other split laid =>
    obtain ⟨rfl,rfl⟩ := List.cons.inj (other.symm.trans shape)
    refine .inr ⟨{ top with rest := top.rest.erase w, broken := rest.isEmpty, turns := top.turns + 1 },
      below.map fun frame => { frame with rest := frame.rest.erase w },?_,List.length_map ..,rfl,rfl⟩
    simp [State.turn,State.complete,State.detach,other]
  | returned other empty =>
    obtain ⟨rfl,rfl⟩ := List.cons.inj (other.symm.trans shape)
    exact .inl rfl

/-- Whatever runs inside its completions, a call of `wake_all` or `close` completes the waiters of
the list in the order of their registration and no others, each of them once, unless it was
cancelled before its turn; every waiter is completed by the time the call returns, and the loop
makes no more turns than there were waiters. No step ever fails. -/
theorem wake_all_resolves {list own : α} {value : β} {closing : Bool}
    {labels later : List (Label α β)} {first called last : State α β}
    (start : init β list = some first) (before : Path step Allowed first labels s)
    (allowed : Allowed s (.wakeAll own value closing))
    (call : step s (.wakeAll own value closing) = some called)
    (after : Path step Allowed called later last) :
    Ring s.heap s.list s.waiting ∧ (s.waiting.map s.ticket).Pairwise (· < ·) ∧
    (last.log.map Resolved.ticket).Nodup ∧
    (∀ resolved ∈ last.log, resolved.ticket ∈ s.waiting.map s.ticket →
      Answer s.calls value resolved) ∧
    (woken s.calls last.log).Sublist (s.waiting.map s.ticket) ∧
    ((∀ frame ∈ last.frames, frame.call ≠ s.calls) →
      ∀ t ∈ s.waiting.map s.ticket, ∃ resolved ∈ last.log, resolved.ticket = t) ∧
    (∀ frame ∈ last.frames, frame.call = s.calls → frame.turns ≤ s.waiting.length) ∧
    (∀ l, Allowed last l → ∃ next, step last l = some next) ∧
    ∀ frame frames panic, last.frames = frame :: frames →
      ∃ next, step last (.next panic) = some next ∧
        (next.frames = frames ∨ ∃ turned rest, next.frames = turned :: rest ∧
          rest.length = frames.length ∧ turned.call = frame.call ∧
          turned.turns = frame.turns + 1) := by
  have inv := reachable_inv start before
  obtain ⟨_,done,effect⟩ := inv.step_spec allowed
  obtain rfl := Option.some.inj (call.symm.trans done)
  have serving : Serving s.calls value (s.waiting.map s.ticket) called := by
    cases effect with
    | started laid => exact serving_start inv
  obtain ⟨lastInv,served⟩ := serving_run (inv.effect allowed effect) serving after
  refine ⟨inv.laid.ring _ _ s.family_list,inv.order,lastInv.once,served.answers,served.order,
    ?_,?_,?_,?_⟩
  · intro returned t mem
    rcases served.served t mem with logged | ⟨frame,inside,same,_⟩
    · exact logged
    · exact absurd same (returned frame inside)
  · intro frame inside same
    have bound := (served.frame frame inside same).2.2
    rw [List.length_map] at bound
    omega
  · intro l allowed
    obtain ⟨next,done,_⟩ := lastInv.step_spec allowed
    exact ⟨next,done⟩
  · intro frame frames panic shape
    obtain ⟨next,done,effect⟩ := lastInv.next_spec (by simp [shape]) panic
    exact ⟨next,done,effect.turns shape⟩

/-- Three waiters; the code that the first one runs cancels the third, registers a fourth and
wakes that one with a call of its own. -/
theorem wake_all_resolves_nested : ∃ s last : State Nat String,
    s.waiting.map s.ticket = [0,1,2] ∧ last.log.map Resolved.ticket = [0,2,3,1] ∧
    woken s.calls last.log = [0,1] ∧ (woken s.calls last.log).Sublist (s.waiting.map s.ticket) := by
  let checked (s : State Nat String) (l : Label Nat String) : Bool := decide (Allowed s l)
  have sound : ∀ s l, checked s l = true → Allowed s l := fun s l => of_decide_eq_true
  let step' (s : State Nat String) (l : Label Nat String) : Option (State Nat String) :=
    if checked s l then step s l else none
  let before : List (Label Nat String) := [.wait 1 false,.wait 2 false,.wait 3 false]
  let after : List (Label Nat String) := [.next none,.leave 1,.cancel 3,.wait 4 false,
    .wakeAll 11 "b" false,.next none,.next none,.next none,.next none]
  obtain ⟨first,s,called,last,start,ran,allowed,call,later,results⟩ :
      ∃ first s called last, init String 0 = some first ∧ run step' before first = some s ∧
        Allowed s (.wakeAll 10 "a" false) ∧ step s (.wakeAll 10 "a" false) = some called ∧
        run step' after called = some last ∧ s.waiting.map s.ticket = [0,1,2] ∧
        last.log.map Resolved.ticket = [0,2,3,1] ∧ woken s.calls last.log = [0,1] := by
    refine ⟨_,_,_,_,rfl,rfl,?_,rfl,rfl,rfl,rfl,rfl⟩
    decide
  obtain ⟨_,_,_,_,order,_⟩ := wake_all_resolves start (run_path_checked checked sound ran) allowed
    call (run_path_checked checked sound later)
  exact ⟨s,last,results.1,results.2.1,results.2.2,order⟩

end XxCore.Sync.RawWaitList
