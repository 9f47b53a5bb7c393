import XxCore.Sync.BroadcastRecvSteps

/-! A receiver that is still parked when nothing moves any more has received everything that was
sent, and the channel is open. -/
namespace XxCore.Sync

namespace Broadcast

variable {θ V : Type}

/-- `rx_count` counts the tasks that have a receiver, or that have counted it and have yet to load
`tail`. -/
def counted : Threads.Outline Unit θ (Broadcast θ V) (Local V) where
  shared _ s := s.rxCount = s.board.registered.length ∧ s.board.registered.Nodup
  thread _ t s l := t ∈ s.board.registered ↔ l.receiver.isSome = true ∨ l.pc = .loadTail

/-- A task that has a receiver makes the count positive. -/
theorem rxCount_ne_zero {c : Config θ V} (holds : counted.Holds () c) {t : θ} {pos : Word}
    (receiver : (c.locals t).receiver = some pos) : c.shared.rxCount ≠ 0 := by
  have mem := (holds.2 t).mpr (.inl (by simp [receiver]))
  rw [holds.1.1]
  exact Nat.ne_of_gt (List.length_pos_of_mem mem)

variable [DecidableEq θ]

@[simp] theorem publish_registered {b : Board θ V} {t : θ} {value : V} :
    (b.publish t value).registered = b.registered := by
  unfold Board.publish
  split <;> rfl

theorem Step.joins {t : θ} {l l' : Local V} {s s' : Broadcast θ V} {label : Label V}
    (step : Step t l s label l' s') :
    (s'.board.registered = s.board.registered ∧ s'.rxCount = s.rxCount ∧
      (l'.receiver.isSome = true ∨ l'.pc = .loadTail ↔ l.receiver.isSome = true ∨ l.pc = .loadTail)) ∨
    (l.receiver = none ∧ l.pc.isFree = true ∧ l'.pc = .loadTail ∧ s'.rxCount = s.rxCount + 1 ∧
      s'.board.registered = t :: s.board.registered) ∨
    (l.receiver.isSome = true ∧ l'.receiver = none ∧ l'.pc.isFree = true ∧
      s'.rxCount = s.rxCount - 1 ∧ s'.board.registered = s.board.registered.erase t) := by
  have free (free : l.pc.isFree = true) : l.pc ≠ .loadTail := by
    intro pc
    simp [pc,Pc.isFree] at free
  cases step with
  | send is_free | cloneSender is_free | synchronize is_free | tryRecv is_free =>
    exact .inl ⟨rfl,rfl,by simp_all [Local.goto]⟩
  | dropSender is_free =>
    refine .inl ⟨rfl,rfl,?_⟩
    have := free is_free
    by_cases last : s.txCount = 1 <;> simp [last,this]
  | subscribe is_free none => exact .inr (.inl ⟨none,is_free,rfl,rfl,rfl⟩)
  | dropReceiver is_free receiver => exact .inr (.inr ⟨by simp [receiver],rfl,rfl,rfl,rfl⟩)
  | update pc => exact .inl ⟨by simp [put],rfl,by simp [Local.goto,pc]⟩
  | unlock pc =>
    rename_i j after
    exact .inl ⟨rfl,rfl,by cases after <;> simp [Local.goto,pc,afterUnlock]⟩
  | loadTail pc => exact .inl ⟨rfl,rfl,by simp [pc]⟩
  | fetchSub pc receiver => exact .inl ⟨rfl,rfl,by simp [Broadcast.fetchSub,pc,receiver]⟩
  | loadHead pc receiver => exact .inl ⟨rfl,rfl,by simp [skip,pc,receiver]⟩
  | accessNone => exact .inl ⟨rfl,rfl,.rfl⟩
  | _ pc => exact .inl ⟨rfl,rfl,by simp [Local.goto,pc]⟩

theorem step_counted {c next : Config θ V} {label : θ × Label V} (holds : counted.Holds () c)
    (stepped : step c label = some next) : counted.Holds () next := by
  rcases label with ⟨t,label⟩
  obtain ⟨l',s',ran,rfl⟩ := Threads.step_eq_some.mp stepped
  obtain ⟨⟨count,nodup⟩,threads⟩ := holds
  have own := threads t
  refine Threads.Outline.Keeps.holds (a := ()) ?_
  rcases (prog_step ran).joins with ⟨same,rx,mine⟩ | ⟨none,free,pc,rx,added⟩ |
    ⟨some_,none,free,rx,erased⟩
  · refine ⟨⟨by rw [same,rx,count],by rw [same]; exact nodup⟩,?_,fun u ne => ?_⟩
    · simp only [counted,same] at own ⊢
      exact own.trans mine.symm
    · simp only [counted,same]
      exact threads u
  · have absent : t ∉ c.shared.board.registered := by
      intro mem
      rcases own.mp mem with has | tail
      · simp [none] at has
      · simp [tail,Pc.isFree] at free
    refine ⟨⟨by rw [added,rx,count,List.length_cons],by rw [added]; exact nodup.cons absent⟩,?_,
      fun u ne => ?_⟩
    · simp [counted,added,pc]
    · simp only [counted,added,List.mem_cons,ne,false_or]
      exact threads u
  · have mem := own.mpr (.inl some_)
    refine ⟨⟨by rw [erased,rx,count,List.length_erase_of_mem mem],by rw [erased]; exact nodup.erase t⟩,
      ?_,fun u ne => ?_⟩
    · have other : l'.pc ≠ .loadTail := by
        intro pc
        simp [pc,Pc.isFree] at free
      simp [counted,erased,nodup.mem_erase_iff,none,other]
    · simp only [counted,erased,List.mem_erase_of_ne ne]
      exact threads u

theorem init_counted {capacity : Nat} {tx rx : θ} :
    counted.Holds () (init capacity tx rx : Config θ V) := by
  refine ⟨⟨rfl,by simp [init,channel,Board.new]⟩,fun t => ?_⟩
  by_cases same : t = rx <;> simp [counted,init,channel,Board.new,same]

/-- Only a `send` moves `tail`, and it has yet to count the receivers. -/
theorem Step.tail {t : θ} {l l' : Local V} {s s' : Broadcast θ V} {label : Label V}
    (step : Step t l s label l' s') :
    s'.tail = s.tail ∨ ∃ value index, l'.pc = .loadReceivers value index := by
  cases step with
  | send => exact .inr ⟨_,_,rfl⟩
  | _ => exact .inl rfl

theorem Step.closed {t : θ} {l l' : Local V} {s s' : Broadcast θ V} {label : Label V}
    (step : Step t l s label l' s') : s'.closed = s.closed ∨ l.pc = .close := by
  cases step with
  | close pc => exact .inr pc
  | _ => exact .inl rfl

theorem Step.closes {t : θ} {l l' : Local V} {s s' : Broadcast θ V} {label : Label V}
    (step : Step t l s label l' s') (at_ : l.pc = .close) :
    l'.receiver = l.receiver ∧ s'.tail = s.tail ∧ s'.closed = true := by
  cases step with
  | close => exact ⟨rfl,rfl,rfl⟩
  | _ => simp_all [Pc.isFree]

/-- A `send` goes on to its update, and to the end if it counts a receiver. -/
theorem Step.sends {t : θ} {l l' : Local V} {s s' : Broadcast θ V} {label : Label V}
    (step : Step t l s label l' s') :
    (∀ value index, l.pc = .loadReceivers value index → l'.pc = .update value index s.rxCount) ∧
      ∀ value index receivers, l.pc = .update value index receivers → receivers ≠ 0 →
        l'.pc = .returned .sent := by
  constructor
  · intro value index at_
    cases step with
    | loadReceivers pc => simp_all [Local.goto]
    | _ => simp_all [Pc.isFree]
  · intro value index receivers at_ some_
    cases step with
    | update pc => simp_all [Local.goto]
    | _ => simp_all [Pc.isFree]

end Broadcast

namespace BroadcastRecv

variable {θ ω V : Type}

/-- A `send` that has moved `tail` and is to wake the receivers, or a `wake_all` that is at it. -/
def Wakes (l : Local ω V) : Prop :=
  (∃ value index, l.channel.pc = .loadReceivers value index) ∨
  (∃ value index receivers, l.channel.pc = .update value index receivers ∧ receivers ≠ 0) ∨
  l.main = .startWake ∨ l.wait.sweeps = true

/-- No task is between two steps of a call, and every task whose waiter was completed has run
on. -/
def Quiescent (c : Config θ ω V) : Prop :=
  ∀ t, (c.locals t).main.isFree = true ∨
    ∃ w, (c.locals t).wait = .parked w ∧ c.shared.waiters.resolutions w = []

/-- A suspend that a `close` overtook does not link its waiter. -/
def NotOvertaken (c : Config θ ω V) (label : θ × Label ω V) : Prop :=
  ∀ w, (c.locals label.1).wait = .append w → c.shared.waiters.overtaken ≠ some label.1

variable [DecidableEq θ] [DecidableEq ω]

/-- What is known of the parts in every state. -/
structure Base (c : Config θ ω V) : Prop where
  counted : Broadcast.counted.Holds () (channelOf c)
  list : ∃ a, WaitList.outline.Holds a (listOf c)
  pended : WaitList.Pended (listOf c)
  coherent : ∀ t, Coherent (c.locals t)
  closed : c.shared.channel.closed = c.shared.waiters.closed

theorem Step.closed {t : θ} {l l' : Local ω V} {s s' : BroadcastRecv θ ω V} (step : Step t l s l' s')
    (coherent : Coherent l) (same : s.channel.closed = s.waiters.closed) :
    s'.channel.closed = s'.waiters.closed := by
  cases step with
  | call attempts ran =>
    rcases (Broadcast.prog_step ran).closed with eq | pc
    · exact eq.trans same
    · simp [pc,Broadcast.prog] at ran
  | op main other ran =>
    rcases (Broadcast.prog_step ran).closed with eq | pc
    · exact eq.trans same
    · exact absurd pc other
  | isInterrupted => exact same
  | startList calls ran =>
    rcases (WaitList.prog_step ran).closes with eq | ⟨value,pc,_⟩
    · exact same.trans eq.symm
    · simp [pc,WaitList.prog,WaitList.wakeAllStep] at ran
  | list busy other ran =>
    rcases (WaitList.prog_step ran).closes with eq | ⟨value,pc,_⟩
    · exact same.trans eq.symm
    · exact absurd pc (other value)
  | storeClosed busy at_ channel ran =>
    rw [at_] at ran
    exact ((Broadcast.prog_step channel).closes (coherent.closing busy channel)).2.2.trans
      (WaitList.prog_step ran).stores_closed.2.symm

theorem Base.step {c next : Config θ ω V} {label : θ × Label ω V} (base : Base c)
    (stepped : step c label = some next) : Base next := by
  rcases label with ⟨t,label⟩
  refine ⟨?_,?_,?_,fun u => ?_,?_⟩
  · rcases channel_simulates stepped with same | ⟨choice,stepped⟩
    · rw [same]
      exact base.counted
    · exact Broadcast.step_counted base.counted stepped
  · rcases list_simulates stepped with same | ⟨choice,stepped⟩
    · rw [same]
      exact base.list
    · exact WaitList.step_holds base.list stepped
  · rcases list_simulates stepped with same | ⟨choice,stepped⟩
    · rw [same]
      exact base.pended
    · exact base.pended.step stepped
  · obtain ⟨l',s',ran,rfl⟩ := Threads.step_eq_some.mp stepped
    by_cases same : u = t
    · subst same
      simpa using (prog_step ran).coherent (base.coherent u)
    · simpa [same] using base.coherent u
  · obtain ⟨l',s',ran,rfl⟩ := Threads.step_eq_some.mp stepped
    exact (prog_step ran).closed (base.coherent t) base.closed

/-- Whoever waits has received everything, or somebody is to wake it. -/
structure Awake (c : Config θ ω V) : Prop where
  base : Base c
  covered : ∀ t, WaitList.Waits (listOf c) t → ∃ pos, (c.locals t).channel.receiver = some pos ∧
    (c.shared.channel.tail = pos ∨ ∃ u, Wakes (c.locals u))

/-- A task that is in no call of the list does not wait, and wakes nobody there. -/
theorem Base.outside {c : Config θ ω V} (base : Base c) {t : θ} (none : (c.locals t).main.list = none) :
    ¬ WaitList.Waits (listOf c) t ∧ (c.locals t).wait.sweeps = false := by
  have family := (base.coherent t).list.trans none
  constructor
  · intro waits
    have := WaitList.family_of_waits waits
    simp [listOf,Threads.Config.map,family] at this
  · by_contra sweeps
    obtain ⟨closing,eq⟩ := WaitList.family_of_sweeps (by simpa using sweeps)
    simp [family] at eq

/-- A step of the channel, in a call of it or in an attempt of `recv`. -/
theorem Awake.channel {c : Config θ ω V} (awake : Awake c) {t : θ} {recv : Bool}
    {choice : Broadcast.Label V} {inner : Broadcast.Local V} {b : Broadcast θ V} {l' : Local ω V}
    (main : (c.locals t).main.list = none ∧ (c.locals t).main ≠ .startWake)
    (ran : Broadcast.prog t choice (c.locals t).channel c.shared.channel = some (inner,b))
    (channel : l'.channel = inner) (after : l'.main = afterChannel recv inner.pc) {u : θ}
    (waits : WaitList.Waits (listOf c) u) :
    ∃ pos, (Function.update c.locals t l' u).channel.receiver = some pos ∧
      (b.tail = pos ∨ ∃ v, Wakes (Function.update c.locals t l' v)) := by
  have step := Broadcast.prog_step ran
  obtain ⟨quiet,idle⟩ := awake.base.outside main.1
  obtain ⟨pos,receiver,covered⟩ := awake.covered u waits
  have ne : u ≠ t := by
    rintro rfl
    exact quiet waits
  refine ⟨pos,by simpa [ne] using receiver,?_⟩
  have mine (wakes : Wakes l') : ∃ v, Wakes (Function.update c.locals t l' v) := ⟨t,by simpa using wakes⟩
  rcases step.tail with tail | sends
  · rw [tail]
    refine covered.imp_right ?_
    rintro ⟨v,wakes⟩
    by_cases same : v = t
    · subst same
      apply mine
      rcases wakes with ⟨value,index,at_⟩ | ⟨value,index,receivers,at_,some_⟩ | wake | sweeps
      · -- the receiver of the task that waits is counted
        have some_ := Broadcast.rxCount_ne_zero awake.base.counted (t := u) receiver
        refine .inr (.inl ⟨value,index,_,?_,some_⟩)
        rw [channel]
        exact step.sends.1 value index at_
      · refine .inr (.inr (.inl ?_))
        rw [after,step.sends.2 _ _ _ at_ some_]
        rfl
      · exact absurd wake main.2
      · simp [idle] at sweeps
    · exact ⟨v,by simpa [same] using wakes⟩
  · exact .inr (mine (.inl (by rw [channel]; exact sends)))

/-- A step of the list, that goes on with what the task is to wake. -/
theorem Awake.list {c : Config θ ω V} (awake : Awake c) {t : θ} {choice : WaitList.Label ω Unit}
    {pc : WaitList.Pc ω Unit} {list : WaitList θ ω Unit} {l' : Local ω V} {s' : BroadcastRecv θ ω V}
    {u : θ} (waits : WaitList.Waits (listOf ⟨s',Function.update c.locals t l'⟩) u)
    (ran : WaitList.prog t choice (c.locals t).wait c.shared.waiters = some (pc,list))
    (wait : l'.wait = pc) (waiters : s'.waiters = list)
    (receiver : l'.channel.receiver = (c.locals t).channel.receiver)
    (tail : s'.channel.tail = c.shared.channel.tail)
    (blocks : ∀ w, pc = .append w → (c.locals t).channel.receiver = some c.shared.channel.tail)
    (keeps : Wakes (c.locals t) → Wakes l' ∨ (c.locals t).wait.sweeps = true) :
    ∃ pos, (Function.update c.locals t l' u).channel.receiver = some pos ∧
      (s'.channel.tail = pos ∨ ∃ v, Wakes (Function.update c.locals t l' v)) := by
  obtain ⟨a,base⟩ := awake.base.list
  have listed : WaitList.step (listOf c) (t,choice) = some (listOf ⟨s',Function.update c.locals t l'⟩) :=
    Threads.Config.map_step (by simpa [wait,waiters] using ran)
  have same_receiver : (Function.update c.locals t l' u).channel.receiver =
      (c.locals u).channel.receiver := by
    by_cases same : u = t
    · subst same
      simpa using receiver
    · simp [same]
  rw [same_receiver,tail]
  rcases waits.before base listed with waits | ⟨rfl,w,appends⟩
  · obtain ⟨pos,receiver,covered⟩ := awake.covered u waits
    refine ⟨pos,receiver,covered.imp_right ?_⟩
    rintro ⟨v,wakes⟩
    by_cases same : v = t
    · subst same
      rcases keeps wakes with wakes | sweeps
      · exact ⟨v,by simpa using wakes⟩
      · rcases WaitList.sweeps_step base (u := v) sweeps listed with sweeps | nobody
        · exact ⟨v,.inr (.inr (.inr sweeps))⟩
        · exact absurd ‹_› (nobody u)
    · exact ⟨v,by simpa [same] using wakes⟩
  · exact ⟨_,blocks w (by simpa [listOf,Threads.Config.map,wait] using appends),.inl rfl⟩

theorem Awake.step {c next : Config θ ω V} {label : θ × Label ω V} (awake : Awake c)
    (stepped : step c label = some next) : Awake next := by
  refine ⟨awake.base.step stepped,fun u waits => ?_⟩
  rcases label with ⟨t,label⟩
  obtain ⟨l',s',ran,rfl⟩ := Threads.step_eq_some.mp stepped
  cases prog_step ran with
  | call attempts moved =>
    refine awake.channel ⟨(Main.attempts_free attempts).1,?_⟩ moved rfl rfl (waits_same waits rfl rfl)
    rcases attempts with free | ⟨_,main | main⟩
    · intro main
      simp [main,Main.isFree] at free
    · simp [main]
    · simp [main]
  | op main other moved =>
    exact awake.channel (by simp [main,Main.list]) moved rfl rfl (waits_same waits rfl rfl)
  | @isInterrupted main from_ goes =>
    obtain ⟨pos,receiver,covered⟩ := awake.covered u (waits_same waits rfl rfl)
    have kept (v : θ) : (Function.update c.locals t { c.locals t with main } v).channel =
        (c.locals v).channel ∧ (Function.update c.locals t { c.locals t with main } v).wait =
        (c.locals v).wait := by
      by_cases same : v = t
      · subst same
        simp
      · simp [same]
    refine ⟨pos,by rw [(kept u).1]; exact receiver,covered.imp_right ?_⟩
    rintro ⟨v,wakes⟩
    refine ⟨v,?_⟩
    rw [Wakes,(kept v).1,(kept v).2]
    refine wakes.imp_right (.imp_right (.imp_left fun main => ?_))
    have ne : v ≠ t := by
      rintro rfl
      simp [from_] at main
    simpa [ne] using main
  | @startList call main pc list calls moved =>
    have called := WaitList.prog_step moved
    refine awake.list waits moved rfl rfl rfl rfl ?_ ?_
    · rintro w rfl
      exact absurd called.blocks_call (by simp [WaitList.Pc.blocks])
    · rintro (sends | updates | wake | sweeps)
      · exact .inl (.inl sends)
      · exact .inl (.inr (.inl updates))
      · rw [wake] at calls
        obtain rfl := calls.wakes
        exact .inl (.inr (.inr (.inr called.sweeps_call)))
      · exact .inr sweeps
  | list busy other moved blocks =>
    refine awake.list waits moved rfl rfl rfl rfl blocks ?_
    rintro (sends | updates | wake | sweeps)
    · exact .inl (.inl sends)
    · exact .inl (.inr (.inl updates))
    · simp [wake,Main.list] at busy
    · exact .inr sweeps
  | @storeClosed value inner b pc list busy at_ channel moved =>
    obtain ⟨receiver,tail,_⟩ :=
      (Broadcast.prog_step channel).closes ((awake.base.coherent t).closing busy channel)
    have stored : pc = .loadEmptyAll ⟨value,true⟩ := by
      have step := WaitList.prog_step moved
      rw [at_] at step
      exact step.stores_closed.1
    refine awake.list waits moved rfl rfl receiver tail ?_ ?_
    · rintro w rfl
      contradiction
    · exact fun _ => .inl (.inr (.inr (.inr (by rw [stored]; rfl))))

theorem init_awake {capacity : Nat} {tx rx : θ} : Awake (init capacity tx rx : Config θ ω V) := by
  refine ⟨⟨Broadcast.init_counted,⟨_,WaitList.init_holds⟩,?_,fun t => ⟨rfl,.inl rfl⟩,rfl⟩,?_⟩
  · intro w mem
    simp [listOf,Threads.Config.map,init,WaitList.new] at mem
  · intro t waits
    exact absurd waits (WaitList.not_waits rfl (by simp [listOf,Threads.Config.map,init]) t)

/-- In a quiescent state a task is in no call, or is parked in `recv`. -/
theorem Quiescent.settled {c : Config θ ω V} (quiescent : Quiescent c)
    (coherent : ∀ t, Coherent (c.locals t)) (t : θ) : (c.locals t).channel.pc.isFree = true ∧
      (c.locals t).main ≠ .startWake ∧ ((c.locals t).wait.isFree = true ∨ ∃ w,
        (c.locals t).wait = .parked w ∧ c.shared.waiters.resolutions w = []) := by
  have list := (coherent t).list
  rcases quiescent t with free | ⟨w,parked,unresolved⟩
  · obtain ⟨none,other⟩ := Main.attempts_free (.inl free : (c.locals t).main.attempts false)
    have outside := list.trans none
    refine ⟨(coherent t).free other (not_storeClosed outside),?_,.inl (WaitList.isFree_of_family outside)⟩
    intro main
    simp [main,Main.isFree] at free
  · have busy : (c.locals t).main.list = some .wait := by rw [← list,parked]; rfl
    refine ⟨(coherent t).free ?_ (by simp [parked]),?_,.inr ⟨w,parked,unresolved⟩⟩
    · intro recv main
      simp [main,Main.list] at busy
    · intro main
      simp [main,Main.list] at busy

/-- The waiter of a task that is parked in a quiescent state is linked. -/
theorem Quiescent.linked {c : Config θ ω V} (quiescent : Quiescent c) (base : Base c) {t : θ} {w : ω}
    (parked : (c.locals t).wait = .parked w) : w ∈ c.shared.waiters.list := by
  obtain ⟨a,lists⟩ := base.list
  refine WaitList.linked_of_pends (t := t) lists (congrArg WaitList.Pc.pends parked) ?_ fun u takes => ?_
  · obtain ⟨_,_,free | ⟨w',at_,unresolved⟩⟩ := quiescent.settled base.coherent t
    · simp [parked,WaitList.Pc.isFree] at free
    · obtain rfl := WaitList.Pc.parked.inj (parked.symm.trans at_)
      exact unresolved
  · obtain ⟨_,_,free | ⟨w',at_,_⟩⟩ := quiescent.settled base.coherent u
    · cases at_ : (c.locals u).wait <;>
        simp [listOf,Threads.Config.map,at_,WaitList.Pc.takes,WaitList.Pc.isFree] at free takes
    · simp [listOf,Threads.Config.map,at_,WaitList.Pc.takes] at takes

theorem Quiescent.not_wakes {c : Config θ ω V} (quiescent : Quiescent c)
    (coherent : ∀ t, Coherent (c.locals t)) (t : θ) : ¬ Wakes (c.locals t) := by
  obtain ⟨free,main,list⟩ := quiescent.settled coherent t
  rintro (⟨_,_,at_⟩ | ⟨_,_,_,at_,_⟩ | wake | sweeps)
  · simp [at_,Broadcast.Pc.isFree] at free
  · simp [at_,Broadcast.Pc.isFree] at free
  · exact main wake
  · obtain ⟨closing,family⟩ := WaitList.family_of_sweeps sweeps
    rcases list with free | ⟨w,parked,_⟩
    · simp [WaitList.family_of_isFree free] at family
    · simp [parked,WaitList.Pc.family] at family

/-- The channel as every step leaves it that lets no overtaken suspend link its waiter. -/
structure Closing (c : Config θ ω V) : Prop where
  base : Base c
  shut : WaitList.Shut (listOf c)

theorem Closing.step {c next : Config θ ω V} {label : θ × Label ω V} (closing : Closing c)
    (allowed : NotOvertaken c label) (stepped : step c label = some next) : Closing next := by
  refine ⟨closing.base.step stepped,?_⟩
  rcases label with ⟨t,label⟩
  rcases list_simulates stepped with same | ⟨choice,stepped⟩
  · rw [same]
    exact closing.shut
  · obtain ⟨a,list⟩ := closing.base.list
    have allowed : WaitList.NotOvertaken (listOf c) (t,choice) := allowed
    exact closing.shut.step list allowed stepped

/-- A receiver that is parked in a quiescent state has received everything, and the channel is
open in every run in which no suspend that a `close` overtook links its waiter. -/
theorem parked_received {capacity : Nat} {tx rx : θ} {labels : List (θ × Label ω V)}
    {c : Config θ ω V} (path : Transition.Path step Transition.anyStep (init capacity tx rx) labels c)
    (quiescent : Quiescent c) {t : θ} {w : ω} (parked : (c.locals t).wait = .parked w) :
    (c.locals t).channel.receiver = some c.shared.channel.tail ∧
      (Transition.Path step NotOvertaken (init capacity tx rx) labels c →
        c.shared.channel.closed = false) := by
  have awake := path.invariant Awake (fun _ _ _ awake _ stepped => awake.step stepped) init_awake
  have linked := quiescent.linked awake.base parked
  constructor
  · obtain ⟨pos,receiver,tail | ⟨u,wakes⟩⟩ :=
      awake.covered t (.inr ⟨w,linked,congrArg WaitList.Pc.pends parked⟩)
    · rw [receiver,tail]
    · exact absurd wakes (quiescent.not_wakes awake.base.coherent u)
  · intro path
    have closing := path.invariant Closing (fun _ _ _ closing allowed stepped =>
      closing.step allowed stepped)
      ⟨init_awake.base,by simp [WaitList.Shut,listOf,Threads.Config.map,init,WaitList.new]⟩
    rw [awake.base.closed,Bool.eq_false_iff]
    intro closed
    rcases closing.shut closed with ⟨u,clears⟩ | swept
    · exact quiescent.not_wakes awake.base.coherent u (.inr (.inr (.inr (WaitList.sweeps_of_clears clears))))
    · have list : c.shared.waiters.list = [] := swept.list
      simp [list] at linked

def notOvertaken (c : Config θ ω V) (label : θ × Label ω V) : Bool :=
  match (c.locals label.1).wait with
  | .append _ => decide (c.shared.waiters.overtaken ≠ some label.1)
  | _ => true

omit [DecidableEq ω] in
theorem notOvertaken_sound (c : Config θ ω V) (label : θ × Label ω V)
    (checked : notOvertaken c label = true) : NotOvertaken c label := by
  intro w at_
  simpa [notOvertaken,at_] using checked

/-- An attempt of `recv` that fails, and the wait of a task that blocks. -/
def park (t : Bool) (w : Nat) : List (Bool × Label Nat Nat) :=
  List.replicate 3 (t,.next) ++ [(t,.interrupted false),(t,.wait w),(t,.list (.interrupted false))] ++
    List.replicate 7 (t,.list .next)

/-- Task `false` waits for a value, gets the one that `true` sends, and waits for the next. -/
def recvTrace : List (Bool × Label Nat Nat) :=
  (false,.call .recv) :: park false 0 ++
    [(true,.call (.op (.send 7))),(true,.next),(true,.next),(true,.next)] ++
    List.replicate 4 (true,.list .next) ++ [(true,.list (.clone (.ok ()))),(true,.list .next),
      (false,.list .next),(false,.list .next)] ++ List.replicate 5 (false,.next) ++
    (false,.call .recv) :: park false 1

theorem parked_received_next : ∃ c, Transition.run step recvTrace (init 2 true false) = some c ∧
    (c.locals false).wait = .parked 1 ∧ (c.locals false).channel.receiver = some 1#64 ∧
    c.shared.channel.tail = 1#64 ∧ c.shared.channel.closed = false := by
  obtain ⟨c,checked,executed,free,parked,unresolved,tail⟩ : ∃ c, Transition.run
      (fun c l => if notOvertaken c l then step c l else none) recvTrace (init 2 true false) = some c ∧
      Transition.run step recvTrace (init 2 true false) = some c ∧
      (c.locals true).main.isFree = true ∧ (c.locals false).wait = .parked 1 ∧
      c.shared.waiters.resolutions 1 = [] ∧ c.shared.channel.tail = 1#64 :=
    ⟨_,rfl,rfl,rfl,rfl,rfl,rfl⟩
  have quiescent : Quiescent c := by
    intro t
    cases t
    · exact .inr ⟨1,parked,unresolved⟩
    · exact .inl free
  obtain ⟨received,opened⟩ := parked_received
    (Transition.run_path (fun _ _ _ => trivial) executed) quiescent parked
  exact ⟨c,executed,parked,tail ▸ received,tail,
    opened (Transition.run_path_checked notOvertaken notOvertaken_sound checked)⟩

end BroadcastRecv
end XxCore.Sync
