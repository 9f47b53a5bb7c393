import XxCore.Sync.Channel.OneshotInvariant

/-! What the two ends of a oneshot channel may rely on: the value reaches one place, and a
receiver that was told that the channel is closed gets no value later. -/
namespace XxCore.Sync.Oneshot

variable {θ ρ V : Type}

theorem mem_oks {results : List (Except RecvError V)} {v : V} : v ∈ oks results ↔ .ok v ∈ results := by
  rw [oks,List.mem_filterMap]
  constructor
  · rintro ⟨result,mem,eq⟩
    cases result with
    | error error => simp [Except.toOption] at eq
    | ok w =>
      obtain rfl := Option.some.inj eq
      exact mem
  · exact fun mem => ⟨_,mem,rfl⟩

/-- The places that have got a value: results of the receiver, an error of `send`, the drop of
the receiver. -/
def places (s : Oneshot ρ V) : List V :=
  oks s.results ++ (match s.returned with | some (.error v) => [v] | _ => []) ++ s.dropped

theorem SharedInv.places {a : Location} {s : Oneshot ρ V} (inv : SharedInv a s) :
    s.places = if a = .received ∨ a = .returned ∨ a = .dropped then s.passed.toList else [] := by
  have back : (match s.returned with | some (.error v) => [v] | _ => []) =
      if a = .returned then s.passed.toList else [] := by
    by_cases at_ : a = .returned
    · cases passed : s.passed with
      | none => exact absurd (inv.passed.mp passed) (by simp [at_])
      | some v => simp [(inv.returned v).mpr ⟨at_,passed⟩,at_]
    · have other (v : V) : s.returned ≠ some (.error v) := fun is => at_ ((inv.returned v).mp is).1
      simp only [at_,if_false]
  rw [Oneshot.places,inv.results,inv.dropped,back]
  cases a <;> simp

/-- `send` has stored `sent` and not swapped it yet. -/
def Main.checking : Main ρ V → Bool
  | .close .sendRx | .loadClosed .send | .swap .send => true
  | _ => false

/-- The receiver has closed the channel and called `try_recv`, and now its drop swaps `sent`,
which a send has stored in the meantime and has not swapped yet. -/
def DropsUnseen (c : Config θ ρ V) (label : Agent θ × Label ρ V) : Prop :=
  label.1 = .user .recv ∧ (c.locals (.user .recv)).main = .swap .drop ∧ c.shared.rechecked = true ∧
    c.shared.sent = true ∧ (c.locals (.user .send)).main.checking = true

/-- No value is lost: every value passed to `send` reaches at most one place, exactly one once both
ends are gone, and not the receiver's drop if the receiver has closed the channel and looked
again. -/
structure Delivers (c : Config θ ρ V) : Prop where
  written : c.shared.fault = false
  once : c.shared.places = [] ∨ c.shared.places = c.shared.passed.toList
  unsent : c.shared.passed = none → c.shared.places = []
  gone : (c.locals (.user .send)).main = .gone → (c.locals (.user .recv)).main = .gone →
    c.shared.places = c.shared.passed.toList
  unseen : c.shared.rechecked = true → c.shared.dropped = []
  rechecked : c.shared.rechecked = true → (c.locals (.user .send)).main = .gone →
    (c.locals (.user .recv)).main = .idle ∨ (c.locals (.user .recv)).main = .gone →
    ∀ v, c.shared.passed = some v →
      .ok v ∈ c.shared.results ∨ c.shared.returned = some (.error v)

theorem ok_published {a : Location} {s : Oneshot ρ V} {main : Main ρ V} (at_ : a = .published)
    (ok : main.Ok a s .send) : main.checking = true := by
  subst at_
  cases main with
  | swap consumer => cases consumer <;> simp_all [Main.Ok,Main.checking]
  | read consumer => cases consumer <;> simp_all [Main.Ok]
  | loadClosed check => cases check <;> simp_all [Main.Ok,Main.checking]
  | close closing =>
    cases closing with
    | dropTx result => rcases result with _ | _ | _ <;> simp [Main.Ok,Finishes,Location.taken] at ok
    | dropRx result => rcases result with _ | _ | _ <;> simp [Main.Ok,Finishes,Location.taken] at ok
    | _ => simp_all [Main.Ok,Main.checking]
  | _ => simp_all [Main.Ok,Location.taken]

/-- The receiver's drop takes nothing after the receiver has looked again. -/
structure Spared (c : Config θ ρ V) : Prop where
  dropped : c.shared.rechecked = true → c.shared.dropped = []
  reading : (c.locals (.user .recv)).main = .read .drop → c.shared.rechecked = false

theorem recv_spared {a : Location} {s s' : Oneshot ρ V} {l l' : Local ρ V} {label : Label ρ V}
    (inv : SharedInv a s) (ok : l.main.Ok a s .recv)
    (stepped : Step s (.user .recv : Agent θ) l label l' s')
    (dropped : s.rechecked = true → s.dropped = [])
    (reading : l.main = .read .drop → s.rechecked = false)
    (unseen : l.main = .swap .drop → s.rechecked = true → s.sent = false) :
    (s'.rechecked = true → s'.dropped = []) ∧ (l'.main = .read .drop → s'.rechecked = false) := by
  have undropped (away : a ≠ .dropped) : s.dropped = [] := by rw [inv.dropped,if_neg away]
  cases stepped with
  | waits calm still waits =>
    obtain ⟨_,rfl,_⟩ := waits
    refine ⟨dropped,fun at_ => ?_⟩
    rw [at_] at still
    cases still
  | close => exact ⟨dropped,by intros; contradiction⟩
  | dropReceiver => exact ⟨dropped,by intros; contradiction⟩
  | swapSome sent =>
    refine ⟨dropped,fun at_ => ?_⟩
    obtain rfl := Main.read.inj at_
    by_contra rechecked
    simp [unseen rfl (by simpa using rechecked)] at sent
  | swapNone sent =>
    rename_i consumer _
    cases consumer <;> exact ⟨dropped,by intros; contradiction⟩
  | readNone value => exact ⟨dropped,reading⟩
  | read value =>
    rename_i consumer _
    cases consumer with
    | tryRecv call => exact ⟨dropped,by intros; contradiction⟩
    | drop =>
      refine ⟨fun rechecked => ?_,by intros; contradiction⟩
      simp [afterSome,reading rfl] at rechecked
    | send => exact ok.elim
  | loadTryRecv load =>
    refine ⟨fun _ => undropped ?_,by intros; contradiction⟩
    rintro rfl
    cases ok.1
  | closing waits closes =>
    obtain ⟨_,rfl,_⟩ := waits
    exact ⟨dropped,by simp⟩
  | closed waits closed =>
    rename_i closing _
    obtain ⟨_,rfl,_⟩ := waits
    cases closing with
    | received call v =>
      obtain ⟨rfl,_⟩ := ok
      exact ⟨fun _ => undropped (by simp),by intros; contradiction⟩
    | _ => exact ⟨dropped,by intros; contradiction⟩
  | _ => exact ok.elim

/-- Once the sender is gone, its value is with the receiver or on the way there, or was returned,
or is left in the slot. -/
theorem send_gone {a : Location} {s : Oneshot ρ V} (ok : (.gone : Main ρ V).Ok a s .send) :
    a = .unsent ∨ a = .handed ∨ a.taken = true ∨ a = .returned := by
  rcases ok with ⟨unsent,_⟩ | ⟨handed | taken,_⟩ | returned
  · exact .inl unsent
  · exact .inr (.inl handed)
  · exact .inr (.inr (.inl taken))
  · exact .inr (.inr (.inr returned))

theorem delivers_of_holds {a : Location} {c : Config θ ρ V} (holds : outline.Holds a c)
    (spared : Spared c) : Delivers c := by
  have inv := holds.1
  have send := (holds.2 (.user .send)).ok .send rfl
  have recv := (holds.2 (.user .recv)).ok .recv rfl
  have settles (sent : (c.locals (.user .send)).main = .gone) (handed : a ≠ .handed)
      (claimed : a ≠ .claimed .recv) (held : a ≠ .held .recv) :
      a = .unsent ∨ a = .received ∨ a = .returned ∨ a = .dropped := by
    rw [sent] at send
    rcases send_gone send with unsent | at_ | taken | returned
    · exact .inl unsent
    · exact absurd at_ handed
    · cases a with
      | claimed side => cases side <;> simp_all [Location.taken]
      | held side => cases side <;> simp_all [Location.taken]
      | received => simp
      | dropped => simp
      | _ => simp [Location.taken] at taken
    · simp [returned]
  refine ⟨inv.fault,?_,?_,fun sent received => ?_,spared.dropped,fun rechecked sent still v passed => ?_⟩
  · rw [inv.places]
    split <;> simp
  · intro unsent
    rw [inv.places,unsent]
    simp
  · rw [received] at recv
    obtain ⟨_,handed,claimed,held⟩ := recv
    rw [inv.places]
    rcases settles sent handed claimed held with rfl | rfl | rfl | rfl
    · simp [inv.passed.mpr rfl]
    all_goals simp
  · have free : a.free = true ∨ a = .dropped := by
      rcases still with idle | gone
      · rw [idle] at recv
        exact .inl recv
      · rw [gone] at recv
        obtain ⟨_,_,claimed,held⟩ := recv
        cases a with
        | claimed side => cases side <;> simp_all
        | held side => cases side <;> simp_all
        | dropped => exact .inr rfl
        | _ => exact .inl rfl
    have away (before : Location) (no : before.free = false) (ne : before ≠ .dropped) : a ≠ before := by
      rintro rfl
      rcases free with free | dropped
      · simp [free] at no
      · exact ne dropped
    rcases settles sent (inv.rechecked rechecked).2 (away _ rfl (by simp)) (away _ rfl (by simp)) with
      rfl | rfl | rfl | rfl
    · simp [inv.passed.mpr rfl] at passed
    · left
      have results := inv.results
      simp only [if_true,passed,Option.toList_some] at results
      exact mem_oks.mp (by simp [results])
    · exact .inr ((inv.returned v).mpr ⟨rfl,passed⟩)
    · have dropped := inv.dropped
      simp [spared.dropped rechecked,passed] at dropped

def dropsSeen (c : Config θ ρ V) (label : Agent θ × Label ρ V) : Bool :=
  match (c.locals label.1).main with
  | .swap .drop => !(c.shared.rechecked && c.shared.sent)
  | _ => true

theorem dropsSeen_sound (c : Config θ ρ V) (label : Agent θ × Label ρ V)
    (checked : dropsSeen c label = true) : ¬ DropsUnseen c label := by
  rintro ⟨agent,at_,rechecked,sent,_⟩
  simp [dropsSeen,agent,at_,rechecked,sent] at checked

variable [DecidableEq θ] [DecidableEq ρ]

theorem spared_step {a : Location} {c : Config θ ρ V} {agent : Agent θ} {label : Label ρ V}
    {l' : Local ρ V} {s' : Oneshot ρ V} (holds : outline.Holds a c) (spared : Spared c)
    (seen : ¬ DropsUnseen c (agent,label))
    (ran : prog agent label (c.locals agent) c.shared = some (l',s')) :
    Spared ⟨s',Function.update c.locals agent l'⟩ := by
  obtain ⟨stepped,a',-,moves,other⟩ := step_moves holds ran
  cases agent with
  | user side =>
    cases side with
    | send =>
      have same := (moves .send rfl).send rfl
      refine ⟨fun rechecked => ?_,fun reading => ?_⟩
      · rw [same.rechecked] at rechecked
        exact same.dropped.trans (spared.dropped rechecked)
      · exact same.rechecked.trans (spared.reading (by simpa using reading))
    | recv =>
      have ok := (holds.2 (.user .recv)).ok .recv rfl
      obtain ⟨dropped,reading⟩ := recv_spared holds.1 ok stepped spared.dropped spared.reading
        fun at_ rechecked => by
          by_contra sent
          have published : a = .published := by
            rcases holds.1.sent.mp (by simpa using sent) with at_ | handed
            · exact at_
            · exact absurd handed (holds.1.rechecked rechecked).2
          exact seen ⟨rfl,at_,rechecked,by simpa using sent,
            ok_published published ((holds.2 (.user .send)).ok .send rfl)⟩
      exact ⟨dropped,by simpa using reading⟩
  | other t =>
    obtain ⟨rfl,waiters,rfl,_⟩ := other ⟨t,rfl⟩
    exact ⟨spared.dropped,fun reading => spared.reading (by simpa using reading)⟩

theorem oneshot_delivers {labels : List (Agent θ × Label ρ V)} {c : Config θ ρ V}
    (path : Transition.Path step (fun c label => ¬ DropsUnseen c label) init labels c) :
    Delivers c := by
  obtain ⟨⟨a,holds⟩,spared⟩ :=
    path.invariant (fun c => (∃ a, outline.Holds a c) ∧ Spared c) (by
      rintro c ⟨agent,label⟩ c' ⟨⟨a,holds⟩,spared⟩ seen stepped
      obtain ⟨l,s,ran,rfl⟩ := Threads.step_eq_some.mp stepped
      obtain ⟨_,a',after,_⟩ := step_moves holds ran
      exact ⟨⟨a',after⟩,spared_step holds spared seen ran⟩)
    ⟨⟨_,init_holds⟩,⟨fun _ => rfl,nofun⟩⟩
  exact delivers_of_holds holds spared

/-- A close of a waiter on which nobody waits, and one of a waiter that is closed already. -/
def closeWaiter (agent : Agent Unit) : List (Agent Unit × Label Nat Nat) :=
  [(agent,.waiter .next),(agent,.waiter (.exchange false))]

def closeAgain (agent : Agent Unit) : List (Agent Unit × Label Nat Nat) :=
  [(agent,.waiter .next)]

/-- The receiver closes the channel and looks again. -/
def recheck : List (Agent Unit × Label Nat Nat) :=
  (.user .recv,.call .close) :: closeWaiter (.user .recv) ++ closeWaiter (.user .recv) ++
    [(.user .recv,.call .tryRecv),(.user .recv,.next),(.user .recv,.next)]

/-- `send` until it has found the channel closed. -/
def startSend : List (Agent Unit × Label Nat Nat) :=
  [(.user .send,.call (.send 7)),(.user .send,.next),(.user .send,.next)] ++
    closeAgain (.user .send) ++ [(.user .send,.next)]

/-- The drop of the receiver, which finds `sent` as given. -/
def dropReceiver (sent : Bool) : List (Agent Unit × Label Nat Nat) :=
  (.user .recv,.call .drop) :: closeAgain (.user .recv) ++
    (if sent then [(.user .recv,.next),(.user .recv,.next)] else [(.user .recv,.next)])

/-- The end of `send`, whose swap finds `sent` as given. -/
def endSend (sent : Bool) : List (Agent Unit × Label Nat Nat) :=
  (if sent then [(.user .send,.next),(.user .send,.next)] else [(.user .send,.next)]) ++
    closeAgain (.user .send) ++ closeAgain (.user .send)

theorem oneshot_delivers_back : ∃ c : Config Unit Nat Nat,
    Transition.run step (recheck ++ startSend ++ endSend true ++ dropReceiver false) init = some c ∧
      c.shared.returned = some (.error 7) ∧ Delivers c := by
  obtain ⟨c,checked,executed,returned⟩ : ∃ c : Config Unit Nat Nat,
      Transition.run (fun c l => if dropsSeen c l then step c l else none)
        (recheck ++ startSend ++ endSend true ++ dropReceiver false) init = some c ∧
      Transition.run step (recheck ++ startSend ++ endSend true ++ dropReceiver false) init = some c ∧
      c.shared.returned = some (.error 7) := ⟨_,rfl,rfl,rfl⟩
  exact ⟨c,executed,returned,
    oneshot_delivers (Transition.run_path_checked dropsSeen dropsSeen_sound checked)⟩

/-- The drop of the receiver comes between the two looks of `send`, which then returns `Ok`. -/
theorem oneshot_not_always_delivers :
    ¬ ∀ (labels : List (Agent Unit × Label Nat Nat)) c,
      Transition.Path step Transition.anyStep init labels c → Delivers c := by
  intro always
  obtain ⟨c,executed,rechecked,dropped⟩ : ∃ c : Config Unit Nat Nat, Transition.run step
      (recheck ++ startSend ++ dropReceiver true ++ endSend false) init = some c ∧
      c.shared.rechecked = true ∧ c.shared.dropped = [7] := ⟨_,rfl,rfl,rfl⟩
  have delivers := always _ c (Transition.run_path (fun _ _ _ => trivial) executed)
  simp [delivers.unseen rechecked] at dropped

end XxCore.Sync.Oneshot
