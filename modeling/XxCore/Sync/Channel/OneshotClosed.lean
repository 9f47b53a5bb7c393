import XxCore.Sync.Channel.OneshotSafety

/-! A receiver that never closes the channel itself: once it was told that the channel is closed,
no value comes, and `send` has not returned `Ok` for a value that it did not get. -/
namespace XxCore.Sync.Oneshot

variable {θ ρ V : Type}

/-- The sender has done all it does with the value. -/
def Main.finishing : Main ρ V → Bool
  | .close (.dropTx _) | .close (.dropRx _) | .gone => true
  | _ => false

def Main.leaving : Main ρ V → Bool
  | .close .dropReceiver | .swap .drop | .read .drop | .gone => true
  | _ => false

/-- The receiver runs its own `close`. -/
def Main.closing : Main ρ V → Bool
  | .close .closeTx | .close .closeRx => true
  | _ => false

/-- The value, if there is one, does not go to the receiver any more. -/
def Location.missed : Location → Bool
  | .unsent | .held .send | .returned => true
  | _ => false

/-- A receiver that found `sent` unset loads the closed state after a send has set `sent` and its
drop has closed the channel. -/
def MissesSend (c : Config θ ρ V) (label : Agent θ × Label ρ V) : Prop :=
  label.1 = .user .recv ∧ (∃ call, (c.locals (.user .recv)).main = .loadClosed (.tryRecv call)) ∧
    TxClosed c.shared ∧ c.shared.sent = true

structure ClosedInv (a : Location) (c : Config θ ρ V) : Prop where
  calls : (c.locals (.user .recv)).main.closing = false
  tx : TxClosed c.shared → a.taken = true ∨ (c.locals (.user .send)).main.finishing = true ∨
    (c.locals (.user .recv)).main.leaving = true
  closed : .error .closed ∈ c.shared.results → a = .received ∨
    TxClosed c.shared ∧ (c.locals (.user .send)).main.finishing = true ∧ a.missed = true
  order : c.shared.results.Pairwise fun x y => x = .error .closed → ∀ v, y ≠ .ok v

theorem ok_finishing {a : Location} {s : Oneshot ρ V} {main : Main ρ V}
    (finishing : main.finishing = true) (ok : main.Ok a s .send) :
    a.missed = true ∨ a = .handed ∨ a.taken = true := by
  have finishes (result : Option (Except V Unit)) (at_ : Finishes a s result) :
      a.missed = true ∨ a = .handed ∨ a.taken = true := by
    rcases result with _ | _ | _
    · obtain rfl : a = .unsent := at_
      exact .inl rfl
    · obtain ⟨rfl,_⟩ := at_
      exact .inl rfl
    · exact .inr at_
  cases main with
  | close closing =>
    cases closing with
    | dropTx result => exact finishes result ok.1
    | dropRx result => exact finishes result ok.1
    | _ => simp [Main.finishing] at finishing
  | gone =>
    rcases send_gone ok with rfl | handed | taken | rfl
    · exact .inl rfl
    · exact .inr (.inl handed)
    · exact .inr (.inr taken)
    · exact .inl rfl
  | _ => simp [Main.finishing] at finishing

/-- The sender closes the channel only in its drop, and does not come back from there. -/
theorem send_finishing {a : Location} {s s' : Oneshot ρ V} {l l' : Local ρ V} {label : Label ρ V}
    (ok : l.main.Ok a s .send) (stepped : Step s (.user .send : Agent θ) l label l' s') :
    (l.main.finishing = true → l'.main.finishing = true) ∧
      (TxClosed s' → TxClosed s ∨ l'.main.finishing = true) := by
  cases stepped with
  | waits calm still waits =>
    obtain ⟨_,rfl,_,opened⟩ := waits
    refine ⟨fun finishing => ?_,fun tx => .inl (opened .send (by simp) tx)⟩
    rcases l with ⟨main,_⟩
    cases main <;> simp [Main.calm,Main.finishing] at calm finishing
  | swapNone sent =>
    rename_i consumer _
    cases consumer with
    | send => exact ⟨by intros; contradiction,fun _ => .inr rfl⟩
    | _ => exact ok.elim
  | read value =>
    rename_i consumer _
    cases consumer with
    | send => exact ⟨by intros; contradiction,fun _ => .inr rfl⟩
    | _ => exact ok.elim
  | closing waits closes =>
    rename_i closing _ _
    obtain ⟨_,rfl,_,opened⟩ := waits
    cases closing with
    | sendRx => exact ⟨by simp,fun tx => .inl (opened .send (by simp [Closing.side]) tx)⟩
    | dropTx result => exact ⟨id,fun _ => .inr rfl⟩
    | dropRx result => exact ⟨id,fun _ => .inr rfl⟩
    | _ => exact ok.elim
  | closed waits closed =>
    rename_i closing _
    obtain ⟨_,rfl,_,opened⟩ := waits
    cases closing with
    | sendRx =>
      exact ⟨by intros; contradiction,fun tx => .inl (opened .send (by simp [Closing.side]) tx)⟩
    | dropTx result => exact ⟨fun _ => rfl,fun _ => .inr rfl⟩
    | dropRx result => exact ⟨fun _ => rfl,fun _ => .inr rfl⟩
    | _ => exact ok.elim
  | loadTryRecv => exact ok.elim
  | _ => exact ⟨by intros; contradiction,fun tx => .inl tx⟩

/-- A step of a receiver that does not close the channel itself. The call that it starts is not
`close`. -/
theorem recv_leaving {a a' : Location} {s s' : Oneshot ρ V} {l l' : Local ρ V} {label : Label ρ V}
    (ok : l.main.Ok a s .recv) (stepped : Step s (.user .recv : Agent θ) l label l' s')
    (moves : RecvMoves a s a' s') (calls : l.main.closing = false)
    (call : l'.main.closing = false) (open_ : TxClosed s → a.taken = true ∨ finishing = true ∨
      l.main.leaving = true) :
    TxClosed s' → a'.taken = true ∨ finishing = true ∨ l'.main.leaving = true := by
  have taken (before : a.taken = true) : a'.taken = true := by
    rcases moves.moves with same | ⟨_,_,after⟩
    · rwa [same]
    · exact after
  have stays (tx : TxClosed s) (leaving : l.main.leaving = true → l'.main.leaving = true) :
      a'.taken = true ∨ finishing = true ∨ l'.main.leaving = true :=
    (open_ tx).imp taken (Or.imp_right leaving)
  intro tx
  cases stepped with
  | waits calm still waits =>
    obtain ⟨_,rfl,_,opened⟩ := waits
    refine stays (opened .send (by simp) tx) fun leaving => ?_
    rcases l with ⟨main,_⟩
    cases main with
    | swap consumer => cases consumer <;> simp [Main.calm,Main.leaving] at calm leaving
    | _ => simp [Main.calm,Main.leaving] at calm leaving
  | close => simp [startClose,Main.closing] at call
  | dropReceiver => exact .inr (.inr rfl)
  | swapSome sent =>
    rename_i consumer _
    cases consumer with
    | tryRecv call => exact stays tx (by intros; contradiction)
    | drop => exact .inr (.inr rfl)
    | send => exact ok.elim
  | swapNone sent =>
    rename_i consumer _
    cases consumer with
    | tryRecv call => exact stays tx (by intros; contradiction)
    | drop => exact .inr (.inr rfl)
    | send => exact ok.elim
  | readNone value => exact stays tx id
  | read value =>
    rename_i consumer _
    cases consumer with
    | tryRecv call => exact stays tx (by intros; contradiction)
    | drop => exact .inr (.inr rfl)
    | send => exact ok.elim
  | loadTryRecv load => exact stays tx (by intros; contradiction)
  | closing waits closes =>
    rename_i closing _ _
    obtain ⟨_,rfl,_,opened⟩ := waits
    cases closing with
    | received call v =>
      obtain ⟨rfl,_⟩ := ok
      exact .inl (taken rfl)
    | dropReceiver => exact .inr (.inr rfl)
    | closeTx => simp [Main.closing] at calls
    | closeRx => simp [Main.closing] at calls
    | _ => exact ok.elim
  | closed waits closed =>
    rename_i closing _
    obtain ⟨_,rfl,_,opened⟩ := waits
    cases closing with
    | received call v =>
      obtain ⟨rfl,_⟩ := ok
      exact .inl (taken rfl)
    | dropReceiver => exact .inr (.inr rfl)
    | closeTx => simp [Main.closing] at calls
    | closeRx => simp [Main.closing] at calls
    | _ => exact ok.elim
  | _ => exact ok.elim

theorem recv_closing {a : Location} {s s' : Oneshot ρ V} {l l' : Local ρ V} {label : Label ρ V}
    (ok : l.main.Ok a s .recv) (stepped : Step s (.user .recv : Agent θ) l label l' s')
    (other : label ≠ .call .close) (calls : l.main.closing = false) : l'.main.closing = false := by
  cases stepped with
  | waits calm still waits =>
    rcases l' with ⟨main,_⟩
    cases main <;> simp [Main.calm,Main.closing] at still ⊢
  | close => exact absurd rfl other
  | swapNone sent =>
    rename_i consumer _
    cases consumer <;> rfl
  | read value =>
    rename_i consumer _
    cases consumer <;> rfl
  | closing waits closes => exact calls
  | closed waits closed =>
    rename_i closing _
    cases closing with
    | closeTx => simp [Main.closing] at calls
    | dropTx result => exact ok.elim
    | _ => rfl
  | loadSendOpen => exact ok.elim
  | _ => rfl

/-- What a step of the receiver adds to its results. -/
theorem recv_results {a : Location} {s s' : Oneshot ρ V} {l l' : Local ρ V} {label : Label ρ V}
    (ok : l.main.Ok a s .recv) (stepped : Step s (.user .recv : Agent θ) l label l' s') :
    s'.results = s.results ∨
      (∃ error call, l.main = .loadClosed (.tryRecv call) ∧ (error = .closed ↔ TxClosed s) ∧
        s'.results = s.results ++ [.error error]) ∨
      ∃ v, a = .held .recv ∧ s'.results = s.results ++ [.ok v] := by
  cases stepped with
  | waits calm still waits => obtain ⟨_,rfl,_⟩ := waits; exact .inl rfl
  | read value =>
    rename_i consumer _
    cases consumer <;> exact .inl rfl
  | loadTryRecv load => exact .inr (.inl ⟨_,_,rfl,load,rfl⟩)
  | closing waits closes => obtain ⟨_,rfl,_⟩ := waits; exact .inl rfl
  | closed waits closed =>
    rename_i closing _
    obtain ⟨_,rfl,_⟩ := waits
    cases closing with
    | received call v => exact .inr (.inr ⟨v,ok.1,rfl⟩)
    | _ => exact .inl rfl
  | _ => exact .inl rfl

theorem Location.missed_of_moves {a a' : Location} (missed : a.missed = true)
    (moves : a' = a ∨ (a = .published ∨ a = .handed ∨ a.taken = true) ∧ a ≠ .received ∧ a'.taken = true) :
    a'.missed = true := by
  rcases moves with same | ⟨from_,_⟩
  · rwa [same]
  · rcases from_ with rfl | rfl | taken
    · simp [Location.missed] at missed
    · simp [Location.missed] at missed
    · cases a with
      | held side => cases side <;> simp [Location.missed,Location.taken] at missed taken
      | _ => simp [Location.missed,Location.taken] at missed taken

variable [DecidableEq θ] [DecidableEq ρ]

theorem closed_send_step {a a' : Location} {c : Config θ ρ V} {label : Label ρ V}
    {l' : Local ρ V} {s' : Oneshot ρ V} (holds : outline.Holds a c) (inv : ClosedInv a c)
    (stepped : Step c.shared (.user .send : Agent θ) (c.locals (.user .send)) label l' s')
    (moves : Moves .send a c.shared a' s' l') :
    ClosedInv a' ⟨s',Function.update c.locals (.user .send) l'⟩ := by
  have same := moves.send rfl
  have ⟨finishing,opened⟩ := send_finishing ((holds.2 (.user .send)).ok .send rfl) stepped
  have taken (before : a.taken = true) : a' = a := by
    rcases same.moves with ⟨same,_⟩ | ⟨untaken,_⟩
    · exact same
    · simp [before] at untaken
  refine ⟨by simpa using inv.calls,fun tx => ?_,fun told => ?_,by simpa [same.results] using inv.order⟩
  · simp only [Function.update_self]
    rcases opened tx with before | after
    · rcases inv.tx before with before | before | leaving
      · exact .inl (taken before ▸ before)
      · exact .inr (.inl (finishing before))
      · exact .inr (.inr (by simpa using leaving))
    · exact .inr (.inl after)
  · rw [same.results] at told
    rcases inv.closed told with rfl | ⟨tx,before,missed⟩
    · exact .inl (taken rfl)
    · refine .inr ⟨same.tx tx,by simpa using finishing before,?_⟩
      rcases same.moves with ⟨same,_⟩ | ⟨_,untaken,handed⟩
      · rwa [same]
      · rcases ok_finishing (finishing before) moves.ok with missed | at_ | taken
        · exact missed
        · exact absurd tx (handed at_)
        · simp [taken] at untaken

theorem closed_recv_step {a a' : Location} {c : Config θ ρ V} {label : Label ρ V}
    {l' : Local ρ V} {s' : Oneshot ρ V} (holds : outline.Holds a c) (inv : ClosedInv a c)
    (other : label ≠ .call .close) (seen : ¬ MissesSend c (.user .recv,label))
    (stepped : Step c.shared (.user .recv : Agent θ) (c.locals (.user .recv)) label l' s')
    (moves : Moves .recv a c.shared a' s' l') :
    ClosedInv a' ⟨s',Function.update c.locals (.user .recv) l'⟩ := by
  have ok := (holds.2 (.user .recv)).ok .recv rfl
  have same := moves.recv rfl
  have calls := recv_closing ok stepped other inv.calls
  have tx (before : TxClosed c.shared) : TxClosed s' := stepped.marks .send before
  refine ⟨by simpa using calls,?_,?_,?_⟩
  · have leaving := recv_leaving ok stepped same inv.calls calls inv.tx
    simpa using leaving
  · have keep (at_ : a = .received) : a' = .received := by
      rcases same.moves with stay | ⟨_,ne,_⟩
      · exact stay.trans at_
      · exact absurd at_ ne
    have before (told : .error .closed ∈ c.shared.results) : a' = .received ∨ TxClosed s' ∧
        (c.locals (.user .send)).main.finishing = true ∧ a'.missed = true := by
      rcases inv.closed told with at_ | ⟨closed,finishing,missed⟩
      · exact .inl (keep at_)
      · exact .inr ⟨tx closed,finishing,Location.missed_of_moves missed same.moves⟩
    intro told
    rcases recv_results ok stepped with same_ | ⟨error,call,at_,load,results⟩ | ⟨v,held,results⟩
    · exact before (same_ ▸ told)
    · rw [results,List.mem_append] at told
      rcases told with told | now
      · exact before told
      · obtain rfl : error = .closed := by simpa [eq_comm] using now
        have closed := load.mp rfl
        have unsent : c.shared.sent = false := by
          by_contra sent
          exact seen ⟨rfl,⟨call,at_⟩,closed,by simpa using sent⟩
        rw [at_] at ok
        have received (taken : a.taken = true) : a' = .received := by
          apply keep
          cases a with
          | claimed side => cases side <;> simp_all [Main.Ok,Location.free,Location.taken]
          | held side => cases side <;> simp_all [Main.Ok,Location.free,Location.taken]
          | dropped => cases ok.1
          | received => rfl
          | _ => simp [Location.taken] at taken
        rcases inv.tx closed with taken | finishing | leaving
        · exact .inl (received taken)
        · rcases ok_finishing finishing ((holds.2 (.user .send)).ok .send rfl) with
            missed | handed | taken
          · exact .inr ⟨tx closed,finishing,Location.missed_of_moves missed same.moves⟩
          · simp [holds.1.sent.mpr (.inr handed)] at unsent
          · exact .inl (received taken)
        · simp [at_,Main.leaving] at leaving
    · rw [results,List.mem_append] at told
      rcases told with told | now
      · exact before told
      · simp at now
  · rcases recv_results ok stepped with same | ⟨error,call,at_,load,results⟩ | ⟨v,held,results⟩
    · simpa [same] using inv.order
    · simp [results,List.pairwise_append,inv.order]
    · simp only [results,List.pairwise_append,inv.order,List.pairwise_singleton,true_and]
      rintro x mem y - rfl
      rcases inv.closed mem with received | ⟨_,_,missed⟩
      · simp [held] at received
      · simp [held,Location.missed] at missed

/-- What a receiver relies on that was told `Closed`: no value comes later, and if `send` returned
`Ok`, then for a value that the receiver has. -/
structure ClosedIsFinal (c : Config θ ρ V) : Prop where
  order : c.shared.results.Pairwise fun x y => x = .error .closed → ∀ v, y ≠ .ok v
  sent : .error .closed ∈ c.shared.results → c.shared.returned = some (.ok ()) →
    ∃ v, c.shared.passed = some v ∧ .ok v ∈ c.shared.results

theorem final_of_holds {a : Location} {c : Config θ ρ V} (holds : outline.Holds a c)
    (inv : ClosedInv a c) : ClosedIsFinal c := by
  refine ⟨inv.order,fun told returned => ?_⟩
  have send := (holds.2 (.user .send)).ok .send rfl
  rcases inv.closed told with rfl | ⟨_,finishing,missed⟩
  · cases passed : c.shared.passed with
    | none => cases holds.1.passed.mp passed
    | some v => exact ⟨v,rfl,mem_oks.mp (by simp [holds.1.results,passed])⟩
  · generalize (c.locals (.user .send)).main = main at send finishing
    have none {result : Option (Except V Unit)} (ok : Finishes a c.shared result ∧
        c.shared.returned = none) : False := by
      simp [ok.2] at returned
    cases main with
    | close closing =>
      cases closing with
      | dropTx result => exact (none send).elim
      | dropRx result => exact (none send).elim
      | _ => simp [Main.finishing] at finishing
    | gone =>
      rcases send with ⟨_,unreturned⟩ | ⟨rfl | taken,_⟩ | rfl
      · simp [unreturned] at returned
      · simp [Location.missed] at missed
      · cases a with
        | held side => cases side <;> simp [Location.missed,Location.taken] at missed taken
        | _ => simp [Location.missed,Location.taken] at missed taken
      · cases passed : c.shared.passed with
        | none => cases holds.1.passed.mp passed
        | some v => simp [(holds.1.returned v).mpr ⟨rfl,passed⟩] at returned
    | _ => simp [Main.finishing] at finishing

/-- The receiver does not call `close`, and does not miss a send. -/
def Attends (c : Config θ ρ V) (label : Agent θ × Label ρ V) : Prop :=
  label ≠ (.user .recv,.call .close) ∧ ¬ MissesSend c label

theorem oneshot_closed_final {labels : List (Agent θ × Label ρ V)} {c : Config θ ρ V}
    (path : Transition.Path step Attends init labels c) : ClosedIsFinal c := by
  obtain ⟨a,holds,inv⟩ := path.invariant (fun c => ∃ a, outline.Holds a c ∧ ClosedInv a c) (by
    rintro c ⟨agent,label⟩ c' ⟨a,holds,inv⟩ ⟨calls,seen⟩ moved
    obtain ⟨l,s,ran,rfl⟩ := Threads.step_eq_some.mp moved
    obtain ⟨stepped,a',after,moves,other⟩ := step_moves holds ran
    refine ⟨a',after,?_⟩
    cases agent with
    | user side =>
      cases side with
      | send => exact closed_send_step holds inv stepped (moves .send rfl)
      | recv =>
        have other : label ≠ .call .close := by
          rintro rfl
          exact calls rfl
        exact closed_recv_step holds inv other seen stepped (moves .recv rfl)
    | other t =>
      obtain ⟨rfl,waiters,rfl,stays,opened⟩ := other ⟨t,rfl⟩
      exact ⟨by simpa using inv.calls,fun tx => by simpa using inv.tx (opened .send nofun tx),
        fun told => (inv.closed told).imp_right fun ⟨tx,finishing,missed⟩ =>
          ⟨stays .send tx,by simpa using finishing,missed⟩,inv.order⟩)
    ⟨_,init_holds,⟨rfl,nofun,nofun,.nil⟩⟩
  exact final_of_holds holds inv

def attends (c : Config Unit Nat Nat) (label : Agent Unit × Label Nat Nat) : Bool :=
  match label with
  | (.user .recv,.call .close) => false
  | _ =>
    match (c.locals label.1).main with
    | .loadClosed (.tryRecv _) => !c.shared.sent
    | _ => true

theorem attends_sound (c : Config Unit Nat Nat) (label : Agent Unit × Label Nat Nat)
    (checked : attends c label = true) : Attends c label := by
  refine ⟨?_,?_⟩
  · rintro rfl
    simp [attends] at checked
  · rintro ⟨agent,⟨call,at_⟩,_,sent⟩
    unfold attends at checked
    split at checked
    · contradiction
    · simp [agent,at_,sent] at checked

/-- The drop of a sender that has not sent anything. -/
def dropSender : List (Agent Unit × Label Nat Nat) :=
  (.user .send,.call .drop) :: closeWaiter (.user .send) ++ closeWaiter (.user .send)

/-- A call of `try_recv` up to its swap. -/
def startRecv : List (Agent Unit × Label Nat Nat) :=
  [(.user .recv,.call .tryRecv),(.user .recv,.next)]

theorem oneshot_closed_final_dropped : ∃ c : Config Unit Nat Nat,
    Transition.run step (dropSender ++ startRecv ++ [(.user .recv,.next)]) init = some c ∧
      c.shared.results = [.error .closed] ∧ ClosedIsFinal c := by
  obtain ⟨c,checked,executed,results⟩ : ∃ c : Config Unit Nat Nat,
      Transition.run (fun c l => if attends c l then step c l else none)
        (dropSender ++ startRecv ++ [(.user .recv,.next)]) init = some c ∧
      Transition.run step (dropSender ++ startRecv ++ [(.user .recv,.next)]) init = some c ∧
      c.shared.results = [.error .closed] := ⟨_,rfl,rfl,rfl⟩
  exact ⟨c,executed,results,
    oneshot_closed_final (Transition.run_path_checked attends attends_sound checked)⟩

/-- A `send` that finds the channel open, with the drop of the sender. -/
def wholeSend : List (Agent Unit × Label Nat Nat) :=
  [(.user .send,.call (.send 7)),(.user .send,.next),(.user .send,.next)] ++
    closeWaiter (.user .send) ++ [(.user .send,.next)] ++ closeWaiter (.user .send) ++
    closeAgain (.user .send)

/-- The send comes between the swap and the load of a `try_recv`, and a second `try_recv` gets
the value. -/
theorem oneshot_closed_not_final :
    ¬ ∀ (labels : List (Agent Unit × Label Nat Nat)) c,
      Transition.Path step (fun _ label => label ≠ (.user .recv,.call .close)) init labels c →
      ClosedIsFinal c := by
  intro always
  obtain ⟨c,executed,results⟩ : ∃ c : Config Unit Nat Nat, Transition.run step
      (startRecv ++ wholeSend ++ [(.user .recv,.next)] ++ startRecv ++ [(.user .recv,.next)] ++
        closeAgain (.user .recv)) init = some c ∧
      c.shared.results = [.error .closed,.ok 7] := ⟨_,rfl,rfl⟩
  have final := always _ c (Transition.run_path (fun _ label mem => ?_) executed)
  · have order := final.order
    simp [results] at order
  · rintro rfl
    simp [startRecv,wholeSend,closeWaiter,closeAgain] at mem

end XxCore.Sync.Oneshot
