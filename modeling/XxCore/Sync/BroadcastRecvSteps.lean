import XxCore.Sync.BroadcastRecv
import XxCore.Sync.WaitListSweep

/-! The steps of `recv` and `send` as a relation, and the parts: every run of the composite is one
of the channel and one of the list. -/
namespace XxCore.Sync.BroadcastRecv

open WaitList (Family)

variable {θ ω V : Type}

def Main.isFree : Main V → Bool
  | .idle | .returned _ => true
  | _ => false

/-- The call that a task makes on the list. -/
def Main.list : Main V → Option Family
  | .wait => some .wait
  | .wake => some (.wakeAll false)
  | .close => some (.wakeAll true)
  | .cancel => some .cancel
  | _ => none

/-- Where a task calls the list, with the state of its call of the channel, and where it goes. -/
inductive Calls : Main V → Broadcast.Pc V → WaitList.Call ω Unit → Main V → Prop where
  | cancel (free : main.isFree = true) : Calls main pc (.cancel w) .cancel
  | wait : Calls .backoff pc (.wait w) .wait
  | wake : Calls .startWake pc (.wakeAll ()) .wake
  | close : Calls (.op recv) .close (.close ()) .close

/-- The calls of the channel. -/
def Main.attempts (main : Main V) (recv : Bool) : Prop :=
  main.isFree = true ∨ recv = true ∧ (main = .backoff ∨ main = .retry)

/-- What a task does in the parts fits where it is in its own code. -/
structure Coherent (l : Local ω V) : Prop where
  list : l.wait.family = l.main.list
  channel : l.channel.pc.isFree = true ∨ (∃ recv, l.main = .op recv) ∨
    l.main = .close ∧ l.channel.pc = .close ∧ ∃ value, l.wait = .storeClosed value

/-- The task is in no call of the list, and in none of the channel. -/
theorem Main.attempts_free {main : Main V} {recv : Bool} (attempts : main.attempts recv) :
    main.list = none ∧ ∀ recv, main ≠ .op recv := by
  rcases attempts with free | ⟨_,rfl | rfl⟩
  · cases main <;> simp [Main.isFree] at free <;> exact ⟨rfl,by simp⟩
  · exact ⟨rfl,by simp⟩
  · exact ⟨rfl,by simp⟩

theorem Calls.after {main main' : Main V} {pc : Broadcast.Pc V} {call : WaitList.Call ω Unit}
    (calls : Calls main pc call main') : main'.list = some call.family := by
  cases calls <;> rfl

theorem Calls.from_ {main main' : Main V} {pc : Broadcast.Pc V} {call : WaitList.Call ω Unit}
    (calls : Calls main pc call main') : (main.list = none ∧ ∀ recv, main ≠ .op recv) ∨
      main' = .close ∧ call = .close () ∧ pc = .close := by
  cases calls with
  | cancel free => exact .inl (Main.attempts_free (.inl free : main.attempts false))
  | wait | wake => exact .inl ⟨rfl,by simp⟩
  | close => exact .inr ⟨rfl,rfl,rfl⟩

theorem Calls.wakes {main' : Main V} {pc : Broadcast.Pc V} {call : WaitList.Call ω Unit}
    (calls : Calls .startWake pc call main') : call = .wakeAll () := by
  cases calls with
  | cancel free => simp [Main.isFree] at free
  | wake => rfl

theorem Coherent.free {l : Local ω V} (coherent : Coherent l) (other : ∀ recv, l.main ≠ .op recv)
    (running : ∀ value, l.wait ≠ .storeClosed value) : l.channel.pc.isFree = true := by
  rcases coherent.channel with free | ⟨recv,main⟩ | ⟨_,_,value,at_⟩
  · exact free
  · exact absurd main (other recv)
  · exact absurd at_ (running value)

@[simp] theorem afterChannel_list (recv : Bool) (pc : Broadcast.Pc V) :
    (afterChannel recv pc).list = none := by
  unfold afterChannel
  split
  · split <;> rfl
  all_goals rfl

theorem afterChannel_busy (recv : Bool) (pc : Broadcast.Pc V) :
    pc.isFree = true ∨ afterChannel recv pc = .op recv := by
  cases pc <;> simp [Broadcast.Pc.isFree,afterChannel]

theorem afterList_of_family {main : Main V} {pc : WaitList.Pc ω Unit} {f : Family}
    (family : pc.family = some f) : afterList main pc = main := by
  cases pc <;> first | rfl | simp [WaitList.Pc.family] at family

theorem afterList_returned {main : Main V} {value : WaitList.Returned Unit} :
    (afterList main (.returned value : WaitList.Pc ω Unit)).list = none := by
  cases main <;> rfl

theorem not_storeClosed {pc : WaitList.Pc ω Unit} (free : pc.family = none) (value : Unit) :
    pc ≠ .storeClosed value := by
  rintro rfl
  contradiction

variable [DecidableEq θ] [DecidableEq ω]

/-- Everything a task can do in one step. -/
inductive Step (t : θ) (l : Local ω V) (s : BroadcastRecv θ ω V) :
    Local ω V → BroadcastRecv θ ω V → Prop where
  | call (attempts : l.main.attempts recv)
    (ran : Broadcast.prog t (.call call) l.channel s.channel = some (sub,b)) :
    Step t l s { l with channel := sub, main := afterChannel recv sub.pc } { s with channel := b }
  | op (main : l.main = .op recv) (other : l.channel.pc ≠ .close)
    (ran : Broadcast.prog t .next l.channel s.channel = some (sub,b)) :
    Step t l s { l with channel := sub, main := afterChannel recv sub.pc } { s with channel := b }
  | isInterrupted (from_ : l.main = .isInterrupted) (goes : main = .returned .empty ∨ main = .backoff) :
    Step t l s { l with main } s
  | startList (calls : Calls l.main l.channel.pc call main)
    (ran : WaitList.prog t (.call call) l.wait s.waiters = some (pc,list)) :
    Step t l s { l with wait := pc, main := afterList main pc } { s with waiters := list }
  | list (busy : l.main.list ≠ none) (other : ∀ value, l.wait ≠ .storeClosed value)
    (ran : WaitList.prog t choice l.wait s.waiters = some (pc,list))
    (blocks : ∀ w, pc = .append w → l.channel.receiver = some s.channel.tail) :
    Step t l s { l with wait := pc, main := afterList l.main pc } { s with waiters := list }
  | storeClosed (busy : l.main.list ≠ none) (at_ : l.wait = .storeClosed value)
    (channel : Broadcast.prog t .next l.channel s.channel = some (sub,b))
    (ran : WaitList.prog t .next l.wait s.waiters = some (pc,list)) :
    Step t l s { l with channel := sub, wait := pc } ⟨b,list⟩

theorem runChannel_eq_some {t : θ} {label : Broadcast.Label V} {recv : Bool} {l l' : Local ω V}
    {s s' : BroadcastRecv θ ω V} (ran : runChannel t label recv l s = some (l',s')) :
    ∃ inner b, Broadcast.prog t label l.channel s.channel = some (inner,b) ∧
      l' = { l with channel := inner, main := afterChannel recv inner.pc } ∧
      s' = { s with channel := b } := by
  obtain ⟨⟨inner,b⟩,stepped,eq⟩ := Option.map_eq_some_iff.mp ran
  obtain ⟨rfl,rfl⟩ := Prod.mk.inj eq
  exact ⟨inner,b,stepped,rfl,rfl⟩

theorem runList_eq_some {t : θ} {label : WaitList.Label ω Unit} {main : Main V} {l l' : Local ω V}
    {s s' : BroadcastRecv θ ω V} (ran : runList t label main l s = some (l',s')) :
    ∃ pc list, WaitList.prog t label l.wait s.waiters = some (pc,list) ∧
      l' = { l with wait := pc, main := afterList main pc } ∧ s' = { s with waiters := list } := by
  obtain ⟨⟨pc,list⟩,stepped,eq⟩ := Option.map_eq_some_iff.mp ran
  obtain ⟨rfl,rfl⟩ := Prod.mk.inj eq
  exact ⟨pc,list,stepped,rfl,rfl⟩

theorem start_step {t : θ} {l l' : Local ω V} {s s' : BroadcastRecv θ ω V} {call : Call ω V}
    (free : l.main.isFree = true) (started : start t l s call = some (l',s')) :
    Step t l s l' s' := by
  cases call with
  | op call | recv =>
    obtain ⟨inner,b,moved,rfl,rfl⟩ := runChannel_eq_some started
    exact .call (.inl free) moved
  | cancel waiter =>
    obtain ⟨pc,list,moved,rfl,rfl⟩ := runList_eq_some started
    exact .startList (.cancel free) moved

theorem listStep_step {t : θ} {label : WaitList.Label ω Unit} {l l' : Local ω V}
    {s s' : BroadcastRecv θ ω V} (busy : l.main.list ≠ none)
    (stepped : listStep t label l s = some (l',s')) : Step t l s l' s' := by
  have running (at_ : ∀ w, l.wait ≠ .shouldBlock w) (other : ∀ value, l.wait ≠ .storeClosed value)
      (stepped : runList t label l.main l s = some (l',s')) : Step t l s l' s' := by
    obtain ⟨pc,list,moved,rfl,rfl⟩ := runList_eq_some stepped
    refine .list busy other moved fun w appends => ?_
    subst appends
    exact absurd (WaitList.prog_step moved).appends (at_ w)
  unfold listStep at stepped
  split at stepped
  case h_1 w at_ =>
    obtain ⟨pos,receiver,ran⟩ := Option.bind_eq_some_iff.mp stepped
    obtain ⟨pc,list,moved,rfl,rfl⟩ := runList_eq_some ran
    refine .list busy (by simp [at_]) moved fun w appends => ?_
    rw [at_] at moved
    subst appends
    by_cases same : s.channel.tail = pos
    · rw [receiver,same]
    · simp only [same,decide_false] at moved
      cases WaitList.prog_step moved
  case h_3 value at_ =>
    simp only [storeClosed,Option.bind_eq_bind,Option.bind_eq_some_iff,Prod.exists,
      Option.some.injEq] at stepped
    obtain ⟨inner,b,ran,pc,list,listed,eq⟩ := stepped
    obtain ⟨rfl,rfl⟩ := Prod.mk.inj eq
    exact .storeClosed busy at_ ran listed
  case h_6 => exact running ‹_› ‹_› stepped
  all_goals contradiction

theorem prog_step {t : θ} {label : Label ω V} {l l' : Local ω V} {s s' : BroadcastRecv θ ω V}
    (ran : prog t label l s = some (l',s')) : Step t l s l' s' := by
  unfold prog at ran
  split at ran
  case h_1 call main => exact start_step (by rw [main]; rfl) ran
  case h_2 outcome call main => exact start_step (by rw [main]; rfl) ran
  case h_3 recv main =>
    split at ran
    · rename_i at_
      obtain ⟨pc,list,moved,rfl,rfl⟩ := runList_eq_some ran
      exact .startList (by rw [main,at_]; exact .close) moved
    · obtain ⟨inner,b,moved,rfl,rfl⟩ := runChannel_eq_some ran
      exact .op main ‹_› moved
  case h_4 interrupted main =>
    obtain ⟨rfl,rfl⟩ := Prod.mk.inj (Option.some.inj ran)
    exact .isInterrupted main (by cases interrupted <;> simp)
  case h_5 main =>
    obtain ⟨inner,b,moved,rfl,rfl⟩ := runChannel_eq_some ran
    exact .call (.inr ⟨rfl,.inl main⟩) moved
  case h_6 main =>
    obtain ⟨inner,b,moved,rfl,rfl⟩ := runChannel_eq_some ran
    exact .call (.inr ⟨rfl,.inr main⟩) moved
  case h_7 waiter main =>
    obtain ⟨pc,list,moved,rfl,rfl⟩ := runList_eq_some ran
    exact .startList (by rw [main]; exact .wait) moved
  case h_8 main =>
    obtain ⟨pc,list,moved,rfl,rfl⟩ := runList_eq_some ran
    exact .startList (by rw [main]; exact .wake) moved
  case h_9 main | h_10 main | h_11 main | h_12 main =>
    exact listStep_step (by rw [main]; simp [Main.list]) ran
  case h_13 => contradiction

/-- The closed flag of the list is stored in the drop of the last sender. -/
theorem Coherent.closing {t : θ} {l : Local ω V} {b b' : Broadcast θ V} {inner : Broadcast.Local V}
    (coherent : Coherent l) (busy : l.main.list ≠ none)
    (ran : Broadcast.prog t .next l.channel b = some (inner,b')) : l.channel.pc = .close := by
  rcases coherent.channel with free | ⟨recv,main⟩ | ⟨_,pc,_⟩
  · cases pc : l.channel.pc <;> simp [pc,Broadcast.Pc.isFree] at free <;>
      simp [Broadcast.prog,pc] at ran
  · simp [main,Main.list] at busy
  · exact pc

theorem Step.coherent {t : θ} {l l' : Local ω V} {s s' : BroadcastRecv θ ω V}
    (step : Step t l s l' s') (coherent : Coherent l) : Coherent l' := by
  have list := coherent.list
  cases step with
  | @call recv call inner b attempts ran =>
    rw [(Main.attempts_free attempts).1] at list
    exact ⟨by simp [list],(afterChannel_busy recv inner.pc).imp_right fun op => .inl ⟨recv,op⟩⟩
  | @op recv inner b main other ran =>
    rw [main] at list
    exact ⟨list.trans (afterChannel_list ..).symm,
      (afterChannel_busy recv inner.pc).imp_right fun op => .inl ⟨recv,op⟩⟩
  | isInterrupted from_ goes =>
    rw [from_] at list
    have free := coherent.free (by simp [from_]) (not_storeClosed list)
    refine ⟨?_,.inl free⟩
    rcases goes with rfl | rfl <;> exact list
  | @startList call main pc waiters calls ran =>
    have called := WaitList.prog_step ran
    have family := called.family_call
    refine ⟨?_,?_⟩
    · rw [family,afterList_of_family family,calls.after]
    · rw [afterList_of_family family]
      rcases calls.from_ with ⟨none,other⟩ | ⟨rfl,rfl,pc⟩
      · exact .inl (coherent.free other (not_storeClosed (list.trans none)))
      · exact .inr (.inr ⟨rfl,pc,(),called.close_call⟩)
  | @list choice pc waiters busy other ran blocks =>
    have free := coherent.free (by rintro recv main; simp [main,Main.list] at busy) other
    refine ⟨?_,.inl free⟩
    rcases (WaitList.prog_step ran).family (by rw [list]; exact busy) with same | ⟨value,rfl⟩
    · rw [same]
      obtain ⟨f,family⟩ := Option.ne_none_iff_exists'.mp busy
      rw [afterList_of_family (same.trans (list.trans family)),list]
    · rw [afterList_returned]
      rfl
  | @storeClosed value inner b pc waiters busy at_ channel ran =>
    rw [at_] at ran
    refine ⟨?_,.inl ?_⟩
    · rw [at_] at list
      cases WaitList.prog_step ran
      exact list
    · have pc := coherent.closing busy channel
      cases Broadcast.prog_step channel <;> simp_all [Broadcast.Local.goto,Broadcast.Pc.isFree]

/-- The channel as a configuration of its own, and the list. -/
def channelOf (c : Config θ ω V) : Broadcast.Config θ V := c.map (·.channel) (·.channel)

def listOf (c : Config θ ω V) : WaitList.Config θ ω Unit := c.map (·.waiters) (·.wait)

/-- A step that is none of the list leaves it who waits. -/
theorem waits_same {c : Config θ ω V} {t u : θ} {l' : Local ω V} {s' : BroadcastRecv θ ω V}
    (waits : WaitList.Waits (listOf ⟨s',Function.update c.locals t l'⟩) u)
    (waiters : s'.waiters = c.shared.waiters) (wait : l'.wait = (c.locals t).wait) :
    WaitList.Waits (listOf c) u := by
  rwa [listOf,Threads.Config.map_same waiters wait] at waits

theorem channel_simulates {c next : Config θ ω V} {t : θ} {label : Label ω V}
    (stepped : step c (t,label) = some next) : channelOf next = channelOf c ∨
      ∃ choice, Broadcast.step (channelOf c) (t,choice) = some (channelOf next) := by
  obtain ⟨l',s',ran,rfl⟩ := Threads.step_eq_some.mp stepped
  cases prog_step ran with
  | call _ moved | op _ _ moved | storeClosed _ _ moved _ =>
    exact .inr ⟨_,Threads.Config.map_step moved⟩
  | _ => exact .inl (Threads.Config.map_same rfl rfl)

theorem list_simulates {c next : Config θ ω V} {t : θ} {label : Label ω V}
    (stepped : step c (t,label) = some next) : listOf next = listOf c ∨
      ∃ choice, WaitList.step (listOf c) (t,choice) = some (listOf next) := by
  obtain ⟨l',s',ran,rfl⟩ := Threads.step_eq_some.mp stepped
  cases prog_step ran with
  | startList _ moved | list _ _ moved _ | storeClosed _ _ _ moved =>
    exact .inr ⟨_,Threads.Config.map_step moved⟩
  | _ => exact .inl (Threads.Config.map_same rfl rfl)

end XxCore.Sync.BroadcastRecv
