import XxCore.Sync.BroadcastDrop
import XxCore.Sync.Channel.ChannelClosed
import XxCore.Sync.Channel.ChannelDrop

/-! The drop of a channel after a sequential history, where the destructor of one of the values that
it still holds may panic. -/
namespace XxCore.Sync

open Sweep

variable {θ ω V : Type}

/-- Every value that was sent was received or is dropped by the queue, each of them once. -/
structure MCChannel.DropsOnce (panics : V → Bool) (s : MCChannel θ ω V) : Prop where
  once : s.queue.received.map Prod.snd ++ (s.drop panics).dropped = s.queue.sent.map Sent.value
  fault : (s.drop panics).state.queue.fault = false
  ended : (s.drop panics).ended = if s.queue.unreceived.any panics then .unwound else .finished
  empty : (s.drop panics).state.queue.counter .recv = (s.drop panics).state.queue.counter .send

/-- Every value that was not moved out of its slot is dropped once, and no other. -/
structure Broadcast.DropsOnce (panics : V → Bool) (s : Broadcast θ V) : Prop where
  once : (s.drop panics).dropped = s.held
  fault : (s.drop panics).state.fault = false
  ended : (s.drop panics).ended = if s.held.any panics then .unwound else .finished
  empty : (s.drop panics).state.held = []

variable [DecidableEq θ] [DecidableEq ω]

theorem MCChannel.dropsOnce {panics : V → Bool} {padding size : Nat} {slots : Nat × (Nat → Slot V)}
    {labels : List (θ × Label ω V)} {c : Config θ ω V}
    (created : createSlots V padding size = some slots) (two : 2 ≤ size)
    (path : Transition.Path step OneAtATime (init slots) labels c)
    (free : ∀ t, (c.locals t).main.isFree = true)
    (one : (c.shared.queue.unreceived.filter panics).length ≤ 1) : DropsOnce panics c.shared := by
  obtain ⟨holding,values⟩ := holding_of_path created two path free
  obtain ⟨dropped,⟨_,rest⟩,ended⟩ := (sweeps_dropAll panics).guarded ⟨_,holding⟩ one
  exact ⟨(congrArg _ dropped).trans values,rest.fault,ended,rest.head.trans rest.tail.symm⟩

theorem Broadcast.dropsOnce {panics : V → Bool} {padding size capacity : Nat} {tx rx : θ}
    {labels : List (θ × Label V)} {c : Config θ V}
    (created : slotCount padding size = some capacity)
    (path : Transition.Path step OneAtATime (init capacity tx rx) labels c)
    (free : ∀ t, (c.locals t).pc.isFree = true)
    (one : (c.shared.held.filter panics).length ≤ 1) : DropsOnce panics c.shared := by
  obtain ⟨dropped,rest,ended⟩ :=
    (sweeps_dropAll panics).guarded (holding_of_path created path free) one
  exact ⟨dropped,rest.fault,ended,rest.values⟩

/-- After every sequential history both channels drop each value that they hold once, and their
loops end, also if one of the destructors panics. -/
theorem held_dropped_once (panics : V → Bool) :
    (∀ (padding size : Nat) (slots : Nat × (Nat → Slot V)) (labels : List (θ × MCChannel.Label ω V))
      (c : MCChannel.Config θ ω V), createSlots V padding size = some slots → 2 ≤ size →
      Transition.Path MCChannel.step MCChannel.OneAtATime (MCChannel.init slots) labels c →
      (∀ t, (c.locals t).main.isFree = true) →
      (c.shared.queue.unreceived.filter panics).length ≤ 1 →
      MCChannel.DropsOnce panics c.shared) ∧
    ∀ (padding size capacity : Nat) (tx rx : θ) (labels : List (θ × Broadcast.Label V))
      (c : Broadcast.Config θ V), Broadcast.slotCount padding size = some capacity →
      Transition.Path Broadcast.step Broadcast.OneAtATime (Broadcast.init capacity tx rx) labels c →
      (∀ t, (c.locals t).pc.isFree = true) → (c.shared.held.filter panics).length ≤ 1 →
      Broadcast.DropsOnce panics c.shared :=
  ⟨fun _ _ _ _ _ created two path free one => MCChannel.dropsOnce created two path free one,
    fun _ _ _ _ _ _ _ created path free one => Broadcast.dropsOnce created path free one⟩

/-- A `try_send` or `try_recv` while nobody waits. -/
def MCChannel.attempts (t : Bool) (op : Op Nat) : List (Bool × Label Unit Nat) :=
  (t,.call (.op op false)) :: [.next,.queue .next,.queue .next,.queue (.exchange false),.next,
    .list .next,.list .next,.list .next,.list .next,.queue .next,.queue .next].map (t,·)

def MCChannel.oneAtATime (c : Config Bool Unit Nat) (label : Bool × Label Unit Nat) : Bool :=
  match label.2 with
  | .call _ => decide (∀ u, u ≠ label.1 → (c.locals u).main.isFree = true)
  | _ => true

theorem MCChannel.oneAtATime_sound (c : Config Bool Unit Nat) (label : Bool × Label Unit Nat)
    (checked : oneAtATime c label = true) : OneAtATime c label := by
  intro call is
  rw [oneAtATime,is] at checked
  exact of_decide_eq_true checked

def Broadcast.oneAtATime (c : Config Bool Nat) (label : Bool × Label Nat) : Bool :=
  match label.2 with
  | .call _ => decide (∀ u, u ≠ label.1 → (c.locals u).pc.isFree = true)
  | .next => true

theorem Broadcast.oneAtATime_sound (c : Config Bool Nat) (label : Bool × Label Nat)
    (checked : oneAtATime c label = true) : OneAtATime c label := by
  intro call is
  rw [oneAtATime,is] at checked
  exact of_decide_eq_true checked

/-- Three values are sent and one is received. -/
def MCChannel.holdTrace : List (Bool × Label Unit Nat) :=
  attempts true (.trySend 4) ++ attempts false .tryRecv ++ attempts true (.trySend 5) ++
    attempts true (.trySend 6)

def Broadcast.holdTrace : List (Bool × Label Nat) :=
  [(true,.call (.send 7)),(true,.next),(true,.next),(false,.call .tryRecv),(false,.next),(false,.next),
    (false,.next),(false,.next),(true,.call (.send 8)),(true,.next),(true,.next),
    (true,.call (.send 9)),(true,.next),(true,.next)]

/-- The first of two destructors panics, and the guard drops the other value. -/
theorem held_dropped_once_two :
    (∃ c, Transition.run MCChannel.step MCChannel.holdTrace
        (MCChannel.init (2,fun i => ⟨BitVec.ofNat 64 i,none⟩)) = some c ∧
      (c.shared.drop (· == 5)).dropped = [5,6] ∧ (c.shared.drop (· == 5)).ended = .unwound) ∧
    ∃ c, Transition.run Broadcast.step Broadcast.holdTrace (Broadcast.init 2 true false) = some c ∧
      (c.shared.drop (· == 9)).dropped = [9,8] ∧ (c.shared.drop (· == 9)).ended = .unwound := by
  constructor
  · have ends : (Transition.run
        (fun c l => if MCChannel.oneAtATime c l then MCChannel.step c l else none) MCChannel.holdTrace
          (MCChannel.init (2,fun i => ⟨BitVec.ofNat 64 i,none⟩))).map (fun c =>
            (decide (∀ t, (c.locals t).main.isFree = true),c.shared.queue.unreceived,
              c.shared.queue.received.map Prod.snd,c.shared.queue.sent.map Sent.value)) =
        some (true,[5,6],[4],[4,5,6]) := by decide +kernel
    obtain ⟨c,checked,eq⟩ := Option.map_eq_some_iff.mp ends
    simp only [Prod.mk.injEq] at eq
    obtain ⟨free,unreceived,received,sent⟩ := eq
    have path := Transition.run_path_checked MCChannel.oneAtATime MCChannel.oneAtATime_sound checked
    have drops := (@held_dropped_once Bool Unit Nat _ _ (· == 5)).1 0 2 _ _ c Queue.createSlots_two
      (Nat.le_refl 2) path (of_decide_eq_true free) (by rw [unreceived]; decide)
    have once := drops.once
    have ended := drops.ended
    rw [received,sent] at once
    rw [unreceived] at ended
    exact ⟨c,path.executed,by simpa using once,ended⟩
  · obtain ⟨c,checked,free,held⟩ : ∃ c, Transition.run
        (fun c l => if Broadcast.oneAtATime c l then Broadcast.step c l else none) Broadcast.holdTrace
          (Broadcast.init 2 true false) = some c ∧
        (∀ t, (c.locals t).pc.isFree = true) ∧ c.shared.held = [9,8] :=
      ⟨_,rfl,by rintro (_ | _) <;> rfl,rfl⟩
    have path := Transition.run_path_checked Broadcast.oneAtATime Broadcast.oneAtATime_sound checked
    have drops := (@held_dropped_once Bool Unit Nat _ _ (· == 9)).2 0 2 2 _ _ _ c Broadcast.slotCount_two
      path free (by rw [held]; decide)
    have once := drops.once
    have ended := drops.ended
    rw [held] at once ended
    exact ⟨c,path.executed,once,ended⟩

end XxCore.Sync
