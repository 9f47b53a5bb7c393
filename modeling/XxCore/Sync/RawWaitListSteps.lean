import XxCore.Sync.RawWaitList

/-! What a step does to the lists: the heap holds one ring for the list and one for every
`wake_all` that has not returned. -/
namespace XxCore.Sync.RawWaitList

open Links Container Transition

variable {α β : Type} [DecidableEq α] {s : State α β} {w : α}

namespace State

/-- The lists and the waiters that each holds. -/
def family (s : State α β) : Family α := fun a =>
  if a = s.list then some s.waiting
  else (s.frames.find? fun frame => frame.list = a).map Frame.rest

theorem family_list (s : State α β) : s.family s.list = some s.waiting := by
  simp [family]

theorem family_frame {frame : Frame α β} (bases : (s.list :: s.frames.map Frame.list).Nodup)
    (mem : frame ∈ s.frames) : s.family frame.list = some frame.rest := by
  obtain ⟨out,distinct⟩ := List.nodup_cons.mp bases
  have other : frame.list ≠ s.list := fun same => out (same ▸ List.mem_map_of_mem mem)
  obtain ⟨found,here⟩ : ∃ found, s.frames.find? (fun f => f.list = frame.list) = some found := by
    rw [← Option.isSome_iff_exists,List.find?_isSome]
    exact ⟨frame,mem,by simp⟩
  have same : found.list = frame.list := by simpa using List.find?_some here
  have eq : found = frame :=
    List.inj_on_of_nodup_map distinct (List.mem_of_find?_eq_some here) mem same
  simp [family,other,here,eq]

theorem family_cases {a : α} {members : List α} (here : s.family a = some members) :
    (a = s.list ∧ members = s.waiting) ∨
      ∃ frame ∈ s.frames, frame.list = a ∧ frame.rest = members := by
  rw [family] at here
  split at here
  next same => exact .inl ⟨same,(Option.some.inj here).symm⟩
  next other =>
    obtain ⟨frame,found,rfl⟩ := Option.map_eq_some_iff.mp here
    exact .inr ⟨frame,List.mem_of_find?_eq_some found,by simpa using List.find?_some found,rfl⟩

theorem family_detach (s : State α β) (w a : α) :
    (s.detach w).family a = (s.family a).map (List.erase · w) := by
  rw [family,family]
  by_cases same : a = s.list
  · simp [detach,same]
  · simp [detach,same,List.find?_map,Function.comp_def]

end State

/-- The invariant of the lists and of their history. -/
structure Inv (s : State α β) : Prop where
  laid : Laid s.heap s.family
  bases : (s.list :: s.frames.map Frame.list).Nodup
  live : ∀ w, s.Pending w → w ∈ s.live
  apart : ∀ w ∈ s.live, w ≠ s.list ∧ ∀ frame ∈ s.frames, w ≠ frame.list
  broken : ∀ frame ∈ s.frames, frame.broken = true → frame.rest = []
  /-- an address has the number of its last registration -/
  numbered : ∀ w, s.Pending w → s.ticket w < s.tickets
  one : ∀ v w, s.Pending v → s.Pending w → s.ticket v = s.ticket w → v = w
  order : (s.waiting.map s.ticket).Pairwise (· < ·)
  logged : ∀ resolved ∈ s.log, resolved.ticket < s.tickets
  unresolved : ∀ w, s.Pending w → ∀ resolved ∈ s.log, resolved.ticket ≠ s.ticket w
  once : (s.log.map Resolved.ticket).Nodup
  answered : ∀ w ∈ s.live, ¬ s.Pending w → ∃ resolved ∈ s.log, resolved.ticket = s.ticket w
  called : ∀ frame ∈ s.frames, frame.call < s.calls
  calls : (s.frames.map Frame.call).Nodup
  source : ∀ resolved ∈ s.log, ∀ call, resolved.source = .wakeAll call → call < s.calls

namespace Inv

theorem pending_held (inv : Inv s) (pending : s.Pending w) :
    ∃ base front back, s.family base = some (front ++ w :: back) := by
  rcases pending with mem | ⟨frame,inside,mem⟩
  · obtain ⟨front,back,split⟩ := List.append_of_mem mem
    exact ⟨s.list,front,back,split ▸ s.family_list⟩
  · obtain ⟨front,back,split⟩ := List.append_of_mem mem
    exact ⟨frame.list,front,back,split ▸ State.family_frame inv.bases inside⟩

theorem unused_free (inv : Inv s) (unused : s.Unused w) : Free s.family w := by
  intro base members here mem
  obtain ⟨notList,notLive,notFrame⟩ := unused
  rcases State.family_cases here with ⟨rfl,rfl⟩ | ⟨frame,inside,rfl,rfl⟩
  · rcases List.mem_cons.mp mem with rfl | mem
    · exact notList rfl
    · exact notLive (inv.live w (.inl mem))
  · rcases List.mem_cons.mp mem with rfl | mem
    · exact notFrame _ inside rfl
    · exact notLive (inv.live w (.inr ⟨frame,inside,mem⟩))

/-- Taking a waiter out of its list takes it out of all. -/
theorem detach_family (inv : Inv s) {base : α} {front back : List α}
    (here : s.family base = some (front ++ w :: back)) :
    (s.detach w).family = Function.update s.family base (some (front ++ back)) := by
  have distinct := (List.nodup_cons.mp (inv.laid.distinct _ _ here)).2
  have before : w ∉ front := fun mem => by
    exact (List.nodup_append.mp distinct).2.2 w mem w (by simp) rfl
  funext a
  rw [State.family_detach,Function.update_apply]
  split
  next same =>
    rw [same,here,Option.map_some,List.erase_append_right _ before,List.erase_cons_head]
  next other =>
    cases there : s.family a with
    | none => rfl
    | some members =>
      have outside : w ∉ members := fun mem =>
        other (inv.laid.apart _ _ _ _ w there here (by simp [mem]) (by simp))
      rw [Option.map_some,List.erase_of_not_mem outside]

/-- A waiter is in one list only. -/
theorem waiting_apart (inv : Inv s) {frame : Frame α β} (inside : frame ∈ s.frames)
    (waits : w ∈ s.waiting) : w ∉ frame.rest := by
  intro mem
  have same := inv.laid.apart _ _ _ _ w s.family_list (State.family_frame inv.bases inside)
    (by simp [waits]) (by simp [mem])
  exact (List.nodup_cons.mp inv.bases).1 (same ▸ List.mem_map_of_mem inside)

theorem frames_apart (inv : Inv s) {f g : Frame α β} (inF : f ∈ s.frames) (inG : g ∈ s.frames)
    (memF : w ∈ f.rest) (memG : w ∈ g.rest) : f = g := by
  have same := inv.laid.apart _ _ _ _ w (State.family_frame inv.bases inF)
    (State.family_frame inv.bases inG) (by simp [memF]) (by simp [memG])
  exact List.inj_on_of_nodup_map (List.nodup_cons.mp inv.bases).2 inF inG same

end Inv

/-! What each step does; the heap of the next state holds its lists again. -/

inductive Effect (s : State α β) : Label α β → State α β → Prop where
  | refused : Effect s (.wait waiter interrupted)
      { s with returned := s.returned ++ [.waited (.error error)] }
  | registered : Laid heap (s.register waiter).family → Effect s (.wait waiter interrupted)
      (({ s with heap, count := s.count + 1 } : State α β).register waiter)
  | cancelled : Laid heap (s.detach waiter).family → Effect s (.cancel waiter)
      (({ s with heap } : State α β).detach waiter |>.complete waiter .cancel (.error .cancelled))
  | wokeNone : s.waiting = [] → Effect s (.wakeOne value)
      { s with returned := s.returned ++ [.wakeOne false] }
  | woke : waiter ∈ s.waiting → Laid heap (s.detach waiter).family → Effect s (.wakeOne value)
      { (({ s with heap } : State α β).detach waiter |>.complete waiter .wakeOne (.ok (.ok value))) with
        returned := s.returned ++ [.wakeOne true] }
  | started : Laid heap (Function.update (Function.update s.family list (some s.waiting))
        s.list (some [])) → Effect s (.wakeAll list value closing)
      { s with
        heap
        closed := s.closed || closing
        frames := ⟨list,value,s.count,false,s.calls,s.waiting,0⟩ :: s.frames
        waiting := []
        calls := s.calls + 1 }
  | turned : s.frames = frame :: frames → frame.rest = waiter :: rest →
      Laid heap (s.detach waiter).family → Effect s (.next unwound)
      (({ s with heap } : State α β).detach waiter
        |>.complete waiter (.wakeAll frame.call) (.ok (cloned frame.value rest.isEmpty unwound))
        |>.turn rest.isEmpty)
  | returned : s.frames = frame :: frames → frame.rest = [] → Effect s (.next unwound)
      (wakeAllReturn s frame frames)
  | left : Effect s (.leave waiter)
      { s with
        count := s.count - 1
        live := s.live.erase waiter
        returned := s.returned ++ [.waited result] }

namespace Inv

theorem wait_spec {interrupted : Bool} (inv : Inv s) (unused : s.Unused w) :
    ∃ next, wait s w interrupted = some next ∧ Effect s (.wait w interrupted) next := by
  have free := inv.unused_free unused
  have null : LinkedList.new s.heap w = s.heap := by
    rw [LinkedList.new,← inv.laid.null w free,set_eq_self]
  obtain ⟨heap,appended,laid⟩ := LinkedList.append_spec inv.laid s.family_list free
  rw [wait]
  split
  · exact ⟨_,rfl,.refused⟩
  split
  · exact ⟨_,rfl,.refused⟩
  · refine ⟨_,by rw [null,appended]; rfl,.registered ?_⟩
    have same : (s.register w).family =
        Function.update s.family s.list (some (s.waiting ++ [w])) := by
      funext a
      by_cases same : a = s.list <;> simp [State.family,State.register,same]
    rwa [same]

theorem cancel_spec (inv : Inv s) (pending : s.Pending w) :
    ∃ next, cancel s w = some next ∧ Effect s (.cancel w) next := by
  obtain ⟨base,front,back,here⟩ := inv.pending_held pending
  obtain ⟨heap,unlinked,laid⟩ := LinkedList.unlinkUnchecked_spec inv.laid here
  rw [← inv.detach_family here] at laid
  exact ⟨_,by rw [cancel,unlinked]; rfl,.cancelled laid⟩

theorem wakeOne_spec (inv : Inv s) (value : β) :
    ∃ next, wakeOne s value = some next ∧ Effect s (.wakeOne value) next := by
  have here := s.family_list
  cases waiting : s.waiting with
  | nil =>
    rw [waiting] at here
    exact ⟨_,by rw [wakeOne,LinkedList.popFront_none inv.laid here]; rfl,.wokeNone waiting⟩
  | cons w rest =>
    rw [waiting] at here
    obtain ⟨heap,popped,laid⟩ := LinkedList.popFront_some inv.laid here
    have first : s.family s.list = some ([] ++ w :: rest) := here
    have detached := inv.detach_family first
    rw [List.nil_append] at detached
    rw [← detached] at laid
    exact ⟨_,by rw [wakeOne,popped]; rfl,.woke (by simp [waiting]) laid⟩

theorem wakeAll_spec {list : α} (inv : Inv s) (unused : s.Unused list) (value : β) (closing : Bool) :
    ∃ next, wakeAll s list value closing = some next ∧
      Effect s (.wakeAll list value closing) next := by
  have free := inv.unused_free unused
  have null : LinkedList.new s.heap list = s.heap := by
    rw [LinkedList.new,← inv.laid.null list free,set_eq_self]
  obtain ⟨pinned,pin,laid⟩ := LinkedList.pin_spec inv.laid free
  have here : Function.update s.family list (some []) s.list = some s.waiting := by
    rw [Function.update_of_ne (Ne.symm unused.1),s.family_list]
  obtain ⟨heap,moved,laid⟩ := LinkedList.moveElements_spec laid here (Function.update_self ..)
  rw [Function.update_idem] at laid
  refine ⟨_,?_,.started laid⟩
  rw [wakeAll,null,pin]
  simp only [Option.bind_eq_bind,Option.bind_some,moved]

theorem next_spec (inv : Inv s) (running : s.frames ≠ []) (panic : Option Panic) :
    ∃ next, wakeAllNext s panic = some next ∧ Effect s (.next panic) next := by
  rw [wakeAllNext]
  split
  next none => exact absurd none running
  next frame frames shape =>
    have inside : frame ∈ s.frames := by simp [shape]
    have here := State.family_frame inv.bases inside
    split
    next broken => exact ⟨_,rfl,.returned shape (inv.broken _ inside broken)⟩
    next =>
      cases rest : frame.rest with
      | nil =>
        rw [rest] at here
        exact ⟨_,by rw [LinkedList.popFront_none inv.laid here]; rfl,.returned shape rest⟩
      | cons w after =>
        rw [rest] at here
        obtain ⟨heap,popped,laid⟩ := LinkedList.popFront_some inv.laid here
        have empty := LinkedList.isEmpty_spec laid (Function.update_self ..)
        have first : s.family frame.list = some ([] ++ w :: after) := here
        have detached := inv.detach_family first
        rw [List.nil_append] at detached
        rw [← detached] at laid
        refine ⟨_,?_,.turned shape rest laid⟩
        simp only [popped,empty,Option.bind_eq_bind,Option.bind_some]

theorem leave_spec (inv : Inv s) (live : w ∈ s.live) (done : ¬ s.Pending w) :
    ∃ next, leave s w = some next ∧ Effect s (.leave w) next := by
  obtain ⟨resolved,mem,same⟩ := inv.answered w live done
  obtain ⟨found,here⟩ : ∃ found, s.log.find? (fun r => r.ticket = s.ticket w) = some found := by
    rw [← Option.isSome_iff_exists,List.find?_isSome]
    exact ⟨resolved,mem,by simpa using same⟩
  exact ⟨_,by rw [leave,here]; rfl,.left⟩

/-- Every step that the contracts allow can be taken: no function fails. -/
theorem step_spec {l : Label α β} (inv : Inv s) (allowed : Allowed s l) :
    ∃ next, step s l = some next ∧ Effect s l next := by
  cases l with
  | wait w interrupted => exact inv.wait_spec allowed
  | cancel w => exact inv.cancel_spec allowed
  | wakeOne value => exact inv.wakeOne_spec value
  | wakeAll list value closing => exact inv.wakeAll_spec allowed value closing
  | next panic => exact inv.next_spec allowed panic
  | leave w => exact inv.leave_spec allowed.1 allowed.2

end Inv

end XxCore.Sync.RawWaitList
