import XxCore.Io.ReadToEnd
import XxCore.Io.Vectored

/-! Transfers of a task that is interrupted. The scalar calls look at the interrupt when they have
moved nothing; the vectored ones do not. -/
namespace XxCore.Io

variable {ρ σ ω ε : Type}

/-- The reader with a record of its answers. -/
def Reader.recorded (R : Reader ρ ε) : Reader (ρ × List (Except ε Nat)) ε where
  read s buf := (R.read s.1 buf).map fun (result,buf,r) => (result,buf,(r,s.2 ++ [result]))
  readVectored s bufs := (R.readVectored s.1 bufs).map fun (result,bufs,r) =>
    (result,bufs,(r,s.2 ++ [result]))
  length_read ran := by
    obtain ⟨_,called,is⟩ := Option.map_eq_some_iff.mp ran
    obtain ⟨rfl,_⟩ := Prod.mk.inj (Prod.mk.inj is).2
    exact R.length_read called
  lengths_readVectored ran := by
    obtain ⟨_,called,is⟩ := Option.map_eq_some_iff.mp ran
    obtain ⟨rfl,_⟩ := Prod.mk.inj (Prod.mk.inj is).2
    exact R.lengths_readVectored called

/-- The writer with a record of its answers. -/
def Writer.recorded (W : Writer ω ε) : Writer (ω × List (Except ε Nat)) ε where
  write s buf := (W.write s.1 buf).map fun (result,w) => (result,(w,s.2 ++ [result]))
  writeVectored s bufs := (W.writeVectored s.1 bufs).map fun (result,w) =>
    (result,(w,s.2 ++ [result]))

/-- The stream returns an interrupted error only if the task is interrupted, and still is then. -/
structure Reader.Interrupts (R : Reader ρ ε) (E : ErrorKinds ε) (interrupted : ρ → Bool) : Prop where
  read : ∀ {r r' buf new e}, R.read r buf = some (.error e,new,r') → E.isInterrupted e = true →
    interrupted r' = true
  readVectored : ∀ {r r' bufs new e}, R.readVectored r bufs = some (.error e,new,r') →
    E.isInterrupted e = true → interrupted r' = true

/-- What a call is to return, where `answers` are those of the stream and `cut` says whether the
task is interrupted at the end. -/
structure Reports (E : ErrorKinds ε) (cut : Bool) (answers : List (Except ε Nat))
    (result : Except ε Nat) : Prop where
  eof : result = .ok 0 → answers.getLast? = some (.ok 0) ∧ cut = false
  early : cut = true → (∀ e, answers.getLast? = some (.error e) → E.isInterrupted e = true) →
    Pump.moved answers = 0 → ∃ e, result = .error e ∧ E.isInterrupted e = true
  late : cut = true → (∀ e, answers.getLast? = some (.error e) → E.isInterrupted e = true) →
    0 < Pump.moved answers → result = .ok (Pump.moved answers)

/-- A transfer moves nothing, and the task is interrupted after it. -/
def Stalls (E : ErrorKinds ε) (interrupted : σ → Bool) (transfer : Option (Except ε Nat × σ)) :
    Prop :=
  ∃ answer s, transfer = some (answer,s) ∧ interrupted s = true ∧
    (answer = .ok 0 ∨ ∃ e, answer = .error e ∧ E.isInterrupted e = true)

section Logs

variable {S : Reader σ ε} {E : ErrorKinds ε} {interrupted : σ → Bool} {s t : σ}
  {log : σ → List (Except ε Nat)} {n : Nat} {stop : Pump.Stop ε} {result : Except ε Nat}

theorem stalls_some {answer : Except ε Nat} : Stalls E interrupted (some (answer,s)) ↔
    interrupted s = true ∧ (answer = .ok 0 ∨ ∃ e, answer = .error e ∧ E.isInterrupted e = true) := by
  constructor
  · rintro ⟨_,_,is,cut,nothing⟩
    obtain ⟨rfl,rfl⟩ := Prod.mk.inj (Option.some.inj is)
    exact ⟨cut,nothing⟩
  · exact fun both => ⟨_,_,rfl,both⟩

/-- A run that has moved something. -/
theorem reports_late {answers : List (Except ε Nat)} {cut : Bool} (count : Pump.moved answers = n)
    (answered : stop.Answered E.isInterrupted answers.getLast?) (pos : 0 < n)
    (is : result = stop.result n) : Reports E cut answers result := by
  refine ⟨fun ok => ?_,fun _ _ none => ?_,fun _ unbroken _ => ?_⟩
  · rw [ok] at is
    cases stop with
    | failed => contradiction
    | done | zero | cut => exact absurd (Except.ok.inj is) (by omega)
  · omega
  · rw [count]
    cases stop with
    | failed e =>
      obtain ⟨last,fails⟩ := answered
      rw [unbroken e last] at fails
      contradiction
    | done | zero | cut => exact is

theorem transferAll_reports (logs : (S.scalar E).Logs log) (interrupts : S.Interrupts E interrupted)
    {buf buf' : List UInt8} (some_ : buf ≠ [])
    (ran : S.transferAll E interrupted buf s = some (result,buf',t)) :
    ∃ answers, log t = log s ++ answers ∧ Reports E (interrupted t) answers result := by
  obtain ⟨n,stop,cut,run,_,is⟩ := transferAll_run some_ ran
  obtain ⟨answers,log',count,answered⟩ := logs.run run
  refine ⟨answers,log',?_⟩
  have more : (S.scalar E).done ⟨[],buf⟩ = false := Bool.eq_false_iff.mpr (mt List.isEmpty_iff.mp some_)
  obtain ⟨answer,_,_,called,⟨pos,_⟩ | ⟨rfl,rfl,ended⟩⟩ := run.first more
  · apply reports_late count answered pos
    rw [is]
    cases stop with
    | failed => rfl
    | done | zero | cut =>
      rw [checkInterruptIfZero_eq,if_neg fun both => by omega]
      rfl
  · obtain ⟨new,read,_⟩ := scalar_call called
    rcases ended with ⟨rfl,rfl⟩ | ⟨e,rfl,⟨rfl,stops⟩ | ⟨rfl,fails⟩⟩
    · dsimp only at is
      rw [checkInterruptIfZero_eq] at is
      refine ⟨fun ok => ⟨answered,?_⟩,fun cut _ _ => ?_,fun _ _ pos => by omega⟩
      · rw [Bool.eq_false_iff]
        intro cut
        rw [is,if_pos ⟨rfl,cut⟩] at ok
        contradiction
      · exact ⟨E.interrupted,by rw [is,if_pos ⟨rfl,cut⟩],E.interrupted_is⟩
    · have cut := interrupts.read read stops
      dsimp only at is
      rw [checkInterruptIfZero_eq,if_pos ⟨rfl,cut⟩] at is
      subst is
      exact ⟨nofun,fun _ _ _ => ⟨_,rfl,E.interrupted_is⟩,fun _ _ pos => by omega⟩
    · dsimp only at is
      subst is
      refine ⟨nofun,fun _ unbroken _ => ?_,fun _ _ pos => by omega⟩
      exact ⟨e,rfl,unbroken e answered.1⟩

theorem transferVectored_reports_iff (logs : (S.vectored E).Logs log)
    (interrupts : S.Interrupts E interrupted) {bufs bufs' : List (List UInt8)}
    (some_ : bufs.flatten ≠ []) {returned : Except ε (Nat × Bool)}
    (ran : S.transferVectored E bufs s = some (returned,bufs',t)) :
    ∃ answers, log t = log s ++ answers ∧
      (Reports E (interrupted t) answers (returned.map Prod.fst) ↔ ¬ Stalls E interrupted
        ((S.readVectored s bufs).map fun (answer,_,s) => (answer,s))) := by
  obtain ⟨n,stop,slices,run,_,is⟩ := transferVectored_run ran
  obtain ⟨answers,log',count,answered⟩ := logs.run run
  refine ⟨answers,log',?_⟩
  have is : returned.map Prod.fst = stop.result n := by
    rw [is]
    cases stop
    all_goals rfl
  rw [is]
  have more : (S.vectored E).done ⟨[],[],bufs⟩ = false := by
    rw [Bool.eq_false_iff]
    intro all
    obtain rfl := List.isEmpty_iff.mp all
    exact some_ rfl
  obtain ⟨answer,_,s',called,first⟩ := run.first more
  obtain ⟨new,read,_⟩ := vectored_call called
  rw [read,Option.map_some,stalls_some]
  rcases first with ⟨pos,k,positive,rfl⟩ | ⟨rfl,rfl,⟨rfl,rfl⟩ | ⟨e,rfl,⟨rfl,stops⟩ | ⟨rfl,fails⟩⟩⟩
  · refine iff_of_true (reports_late count answered pos rfl) ?_
    rintro ⟨_,zero | ⟨_,error,_⟩⟩
    · exact absurd (Except.ok.inj zero) (by omega)
    · contradiction
  · constructor
    · rintro reports ⟨cut,_⟩
      rw [(reports.eof rfl).2] at cut
      contradiction
    · intro uncut
      have uncut : ¬ interrupted s' = true := fun cut => uncut ⟨cut,.inl rfl⟩
      exact ⟨fun _ => ⟨answered,Bool.eq_false_iff.mpr uncut⟩,fun cut => absurd cut uncut,
        fun cut => absurd cut uncut⟩
  · have cut := interrupts.readVectored read stops
    refine iff_of_false (fun reports => ?_) fun uncut => uncut ⟨cut,.inr ⟨e,rfl,stops⟩⟩
    rw [(reports.eof rfl).2] at cut
    contradiction
  · refine iff_of_true ⟨nofun,fun _ unbroken _ => ⟨e,rfl,unbroken e answered.1⟩,
      fun _ _ pos => by omega⟩ ?_
    rintro ⟨_,zero | ⟨_,error,stops⟩⟩
    · contradiction
    · obtain rfl := Except.error.inj error
      have fails : E.isInterrupted e = false := fails
      rw [fails] at stops
      contradiction

end Logs
/-- The stream answers every call, and moves no more than it is given. -/
structure Reader.Sound (R : Reader ρ ε) : Prop where
  read : ∀ r buf, ∃ answer new r', R.read r buf = some (answer,new,r') ∧
    ∀ n, answer = .ok n → n ≤ buf.length
  readVectored : ∀ r bufs, ∃ answer new r', R.readVectored r bufs = some (answer,new,r') ∧
    ∀ n, answer = .ok n → n ≤ bufs.flatten.length

section Recorded

variable {R : Reader ρ ε} {W : Writer ω ε} {S : Reader (ρ × List (Except ε Nat)) ε}
  {E : ErrorKinds ε} {interrupted : ρ → Bool} {r r' : ρ}

theorem Reader.Sound.scalar (sound : R.Sound) : (R.scalar E).Sound fun _ => True := by
  apply scalar_sound
  intro r buf _
  obtain ⟨answer,new,r',ran,few⟩ := sound.read r buf
  exact ⟨answer,new,r',ran,trivial,few⟩

theorem Reader.Sound.vectored (sound : R.Sound) : (R.vectored E).Sound fun _ => True := by
  apply vectored_sound
  intro r bufs _
  obtain ⟨answer,new,r',ran,few⟩ := sound.readVectored r bufs
  exact ⟨answer,new,r',ran,trivial,few⟩

theorem recorded_scalar : Pump.Records (R.recorded.scalar E) (R.scalar E) where
  call s log a := by
    simp only [Reader.scalar,Reader.recorded,Option.map_map]
    rfl
  advance := rfl
  done := rfl
  stops := rfl

theorem recorded_vectored : Pump.Records (R.recorded.vectored E) (R.vectored E) where
  call s log a := by
    simp only [Reader.vectored,Reader.recorded,Option.map_map]
    rfl
  advance := rfl
  done := rfl
  stops := rfl

theorem recorded_transfers : W.recorded.transfers = W.transfers.recorded := by
  simp only [Writer.transfers,Writer.recorded,Reader.recorded,Option.map_map]
  rfl

theorem transfers_readVectored (w : ω) (bufs : List (List UInt8)) :
    (W.transfers.readVectored w bufs).map (fun (answer,_,w) => (answer,w)) =
      W.writeVectored w bufs := by
  simp only [Writer.transfers,Option.map_map]
  cases W.writeVectored w bufs
  all_goals rfl

theorem Reader.Interrupts.recorded (interrupts : R.Interrupts E interrupted) :
    R.recorded.Interrupts E fun s => interrupted s.1 where
  read ran stops := by
    obtain ⟨⟨_,_,_⟩,called,is⟩ := Option.map_eq_some_iff.mp ran
    obtain ⟨rfl,rest⟩ := Prod.mk.inj is
    obtain ⟨_,rfl⟩ := Prod.mk.inj rest
    exact interrupts.read called stops
  readVectored ran stops := by
    obtain ⟨⟨_,_,_⟩,called,is⟩ := Option.map_eq_some_iff.mp ran
    obtain ⟨rfl,rest⟩ := Prod.mk.inj is
    obtain ⟨_,rfl⟩ := Prod.mk.inj rest
    exact interrupts.readVectored called stops

/-- A scalar call, with the answers of the stream. -/
theorem transferAll_recorded {buf buf' : List UInt8} {result : Except ε Nat}
    (interrupts : R.Interrupts E interrupted) (some_ : buf ≠ [])
    (ran : R.transferAll E interrupted buf r = some (result,buf',r')) :
    ∃ answers, R.recorded.transferAll E (fun s => interrupted s.1) buf (r,[]) =
        some (result,buf',(r',answers)) ∧ Reports E (interrupted r') answers result := by
  obtain ⟨log,recorded⟩ : ∃ log, R.recorded.transferAll E (fun s => interrupted s.1) buf (r,[]) =
      some (result,buf',(r',log)) := by
    have more := mt List.isEmpty_iff.mp some_
    rw [Reader.transferAll,if_neg more] at ran ⊢
    obtain ⟨⟨returned,cut,r''⟩,looped,is⟩ := Option.map_eq_some_iff.mp ran
    obtain ⟨log,looped⟩ := recorded_scalar.loop looped []
    refine ⟨log,?_⟩
    rw [looped,Option.map_some]
    cases returned
    all_goals
      obtain ⟨rfl,rest⟩ := Prod.mk.inj is
      obtain ⟨rfl,rfl⟩ := Prod.mk.inj rest
      rfl
  obtain ⟨answers,is,reports⟩ :=
    transferAll_reports recorded_scalar.logs interrupts.recorded some_ recorded
  obtain rfl : log = answers := is
  exact ⟨log,recorded,reports⟩

/-- A vectored call, with the answers of the stream. -/
theorem transferVectored_recorded {bufs bufs' : List (List UInt8)} {returned : Except ε (Nat × Bool)}
    (interrupts : R.Interrupts E interrupted) (some_ : bufs.flatten ≠ [])
    (ran : R.transferVectored E bufs r = some (returned,bufs',r')) :
    ∃ answers, R.recorded.transferVectored E bufs (r,[]) = some (returned,bufs',(r',answers)) ∧
      (Reports E (interrupted r') answers (returned.map Prod.fst) ↔ ¬ Stalls E interrupted
        ((R.readVectored r bufs).map fun (answer,_,r) => (answer,r))) := by
  obtain ⟨log,recorded⟩ : ∃ log, R.recorded.transferVectored E bufs (r,[]) =
      some (returned,bufs',(r',log)) := by
    obtain ⟨⟨returned',slices,r''⟩,looped,is⟩ := Option.map_eq_some_iff.mp ran
    obtain ⟨log,looped⟩ := recorded_vectored.loop looped []
    refine ⟨log,?_⟩
    rw [Reader.transferVectored,looped,Option.map_some]
    cases returned'
    all_goals
      obtain ⟨rfl,rest⟩ := Prod.mk.inj is
      obtain ⟨rfl,rfl⟩ := Prod.mk.inj rest
      rfl
  obtain ⟨answers,is,reports⟩ :=
    transferVectored_reports_iff recorded_vectored.logs interrupts.recorded some_ recorded
  obtain rfl : log = answers := is
  refine ⟨log,recorded,reports.trans (not_congr ?_)⟩
  -- the record is not asked for the interrupt
  cases called : R.readVectored r bufs with
  | none =>
    simp only [Reader.recorded,called,Option.map_none]
    refine iff_of_false ?_ ?_
    · rintro ⟨_,_,⟨⟩,_⟩
    · rintro ⟨_,_,⟨⟩,_⟩
  | some transfer =>
    obtain ⟨answer,new,next⟩ := transfer
    simp only [Reader.recorded,called,Option.map_some,stalls_some]

end Recorded
/-- For every reader and every writer, whatever its transfers and interrupts, the scalar calls return
as they should; the vectored ones do exactly if the first transfer moves something or the task is
not interrupted then. -/
theorem transfers_report_iff (E : ErrorKinds ε) :
    (∀ (ρ : Type) (R : Reader ρ ε) (interrupted : ρ → Bool) (r : ρ), R.Interrupts E interrupted →
      (R.Sound → (∀ buf, ∃ outcome, R.tryReadFully E interrupted buf r = some outcome) ∧
        ∀ bufs, ∃ outcome, R.tryReadFullyVectored E bufs r = some outcome) ∧
      (∀ buf result buf' r', buf ≠ [] → R.tryReadFully E interrupted buf r = some (result,buf',r') →
        ∃ answers, R.recorded.tryReadFully E (fun s => interrupted s.1) buf (r,[]) =
            some (result,buf',(r',answers)) ∧ Reports E (interrupted r') answers result) ∧
      ∀ bufs result bufs' r', bufs.flatten ≠ [] →
        R.tryReadFullyVectored E bufs r = some (result,bufs',r') →
        ∃ answers, R.recorded.tryReadFullyVectored E bufs (r,[]) =
            some (result,bufs',(r',answers)) ∧
          (Reports E (interrupted r') answers result ↔ ¬ Stalls E interrupted
            ((R.readVectored r bufs).map fun (answer,_,r) => (answer,r)))) ∧
    ∀ (ω : Type) (W : Writer ω ε) (interrupted : ω → Bool) (w : ω),
      W.transfers.Interrupts E interrupted →
      (W.transfers.Sound → (∀ buf, ∃ outcome, W.tryWriteAll E interrupted buf w = some outcome) ∧
        ∀ bufs, ∃ outcome, W.tryWriteAllVectored E bufs w = some outcome) ∧
      (∀ buf result w', buf ≠ [] → W.tryWriteAll E interrupted buf w = some (result,w') →
        ∃ answers, W.recorded.tryWriteAll E (fun s => interrupted s.1) buf (w,[]) =
            some (result,(w',answers)) ∧ Reports E (interrupted w') answers result) ∧
      ∀ bufs result w', bufs.flatten ≠ [] → W.tryWriteAllVectored E bufs w = some (result,w') →
        ∃ answers, W.recorded.tryWriteAllVectored E bufs (w,[]) = some (result,(w',answers)) ∧
          (Reports E (interrupted w') answers result ↔
            ¬ Stalls E interrupted (W.writeVectored w bufs)) := by
  constructor
  · intro ρ R interrupted r interrupts
    refine ⟨fun sound => ⟨fun buf => ?_,fun bufs => ?_⟩,fun buf result buf' r' some_ ran => ?_,
      fun bufs result bufs' r' some_ ran => ?_⟩
    · obtain ⟨_,_,_,ran,_⟩ := transferAll_sound (E := E) interrupted sound.scalar (r := r) trivial buf
      exact ⟨_,ran⟩
    · obtain ⟨_,_,_,ran,_⟩ := transferVectored_sound (E := E) sound.vectored (r := r) trivial bufs
      exact ⟨_,congrArg (Option.map _) ran⟩
    · exact transferAll_recorded interrupts some_ ran
    · obtain ⟨⟨returned,_,_⟩,moved,is⟩ := Option.map_eq_some_iff.mp ran
      obtain ⟨rfl,rest⟩ := Prod.mk.inj is
      obtain ⟨rfl,rfl⟩ := Prod.mk.inj rest
      obtain ⟨answers,recorded,reports⟩ := transferVectored_recorded interrupts some_ moved
      exact ⟨answers,congrArg (Option.map _) recorded,reports⟩
  · intro ω W interrupted w interrupts
    refine ⟨fun sound => ⟨fun buf => ?_,fun bufs => ?_⟩,fun buf result w' some_ ran => ?_,
      fun bufs result w' some_ ran => ?_⟩
    · obtain ⟨_,_,_,ran,_⟩ := transferAll_sound (E := E) interrupted sound.scalar (r := w) trivial buf
      exact ⟨_,congrArg (Option.map _) ran⟩
    · obtain ⟨_,_,_,ran,_⟩ := transferVectored_sound (E := E) sound.vectored (r := w) trivial bufs
      exact ⟨_,congrArg (Option.map _ ∘ Option.map _) ran⟩
    · obtain ⟨⟨_,_,_⟩,moved,is⟩ := Option.map_eq_some_iff.mp ran
      obtain ⟨rfl,rfl⟩ := Prod.mk.inj is
      obtain ⟨answers,recorded,reports⟩ := transferAll_recorded interrupts some_ moved
      refine ⟨answers,?_,reports⟩
      rw [Writer.tryWriteAll,recorded_transfers,recorded]
      rfl
    · obtain ⟨⟨returned,_⟩,wrote,is⟩ := Option.map_eq_some_iff.mp ran
      obtain ⟨rfl,rfl⟩ := Prod.mk.inj is
      obtain ⟨⟨_,_,_⟩,moved,same⟩ := Option.map_eq_some_iff.mp wrote
      obtain ⟨rfl,rfl⟩ := Prod.mk.inj same
      obtain ⟨answers,recorded,reports⟩ := transferVectored_recorded interrupts some_ moved
      refine ⟨answers,?_,?_⟩
      · rw [Writer.tryWriteAllVectored,Writer.defaultWriteVectored,recorded_transfers,recorded]
        rfl
      · rw [transfers_readVectored] at reports
        exact reports

/-- The provided `read_vectored` is interrupted if its read is. -/
theorem reader_interrupts {R : Read ρ ε} {E : ErrorKinds ε} {interrupted : ρ → Bool}
    (read : ∀ {r r' buf new e}, R.read r buf = (.error e,new,r') → E.isInterrupted e = true →
      interrupted r' = true) : R.reader.Interrupts E interrupted where
  read ran stops := read (Option.some.inj ran) stops
  readVectored {r r' bufs new e} ran stops := by
    induction bufs generalizing new with
    | nil => exact absurd (Prod.mk.inj (Option.some.inj ran)).1 nofun
    | cons buf bufs ih =>
      simp only [Read.reader,Reader.ofRead,providedReadVectored] at ran ih
      split at ran
      · obtain ⟨⟨_,_,_⟩,called,is⟩ := Option.map_eq_some_iff.mp ran
        obtain ⟨rfl,rest⟩ := Prod.mk.inj is
        obtain ⟨_,rfl⟩ := Prod.mk.inj rest
        exact ih called
      · obtain ⟨is,rest⟩ := Prod.mk.inj (Option.some.inj ran)
        obtain ⟨_,rfl⟩ := Prod.mk.inj rest
        exact read (Prod.ext is rfl) stops

theorem player_interrupts : Player.reads.reader.Interrupts faults Player.cut := by
  apply reader_interrupts
  intro p p' buf new e ran stops
  simp only [Player.reads] at ran
  split at ran
  · obtain ⟨is,rest⟩ := Prod.mk.inj ran
    obtain ⟨_,rfl⟩ := Prod.mk.inj rest
    obtain rfl := Except.error.inj is
    simp only [stops,Bool.or_true]
  · cases (Prod.mk.inj ran).1

theorem tank_interrupts {E : ErrorKinds ε} {interrupted : Tank → Bool} :
    (Tank.writes (ε := ε)).transfers.Interrupts E interrupted where
  read ran := by cases (Prod.mk.inj (Option.some.inj ran)).1
  readVectored {w w' bufs new e} ran := by
    simp only [Writer.transfers,Tank.writes,Writer.ofWrite,providedWriteVectored] at ran
    split at ran
    all_goals cases (Prod.mk.inj (Option.some.inj ran)).1

/-- A read that is interrupted before the first byte, one that is after it, and a write of an
interrupted task. -/
theorem transfers_report_player :
    (∃ buf' p' answers, Player.reads.reader.tryReadFully faults Player.cut [0,0]
        ⟨[.inr .interrupted,.inl 7],[],false⟩ = some (.error .interrupted,buf',p') ∧
      Reports faults (Player.cut p') answers (.error .interrupted)) ∧
    (∃ bufs' p' answers, Player.reads.reader.tryReadFullyVectored faults [[],[0],[0]]
        ⟨[.inl 7,.inr .interrupted],[],false⟩ = some (.ok 1,bufs',p') ∧
      Reports faults (Player.cut p') answers (.ok 1)) ∧
    ∃ w' answers, Tank.writes.tryWriteAll faults (fun _ => true) [1,2] ⟨[],5,[]⟩ = some (.ok 2,w') ∧
      Reports faults true answers (.ok 2) := by
  have reads := (transfers_report_iff faults).1 _ Player.reads.reader Player.cut
  refine ⟨?_,?_,?_⟩
  · have called : (Player.reads.reader.tryReadFully faults Player.cut [0,0]
        ⟨[.inr .interrupted,.inl 7],[],false⟩).map (fun (result,_) => (Exit.returned result).error) =
          some (some .interrupted) := by
      decide +kernel
    obtain ⟨⟨result,buf',p'⟩,ran,is⟩ := Option.map_eq_some_iff.mp called
    obtain rfl := Exit.returned.inj (Exit.of_error is)
    obtain ⟨answers,_,reports⟩ := (reads _ player_interrupts).2.1 _ _ _ _ (by decide) ran
    exact ⟨buf',p',answers,ran,reports⟩
  · have called : (Player.reads.reader.tryReadFullyVectored faults [[],[0],[0]]
        ⟨[.inl 7,.inr .interrupted],[],false⟩).map (fun (result,_) => (Exit.returned result).value) =
          some (some 1) := by
      decide +kernel
    obtain ⟨⟨result,bufs',p'⟩,ran,is⟩ := Option.map_eq_some_iff.mp called
    obtain rfl := Exit.returned.inj (Exit.of_value is)
    obtain ⟨answers,_,reports⟩ := (reads _ player_interrupts).2.2 _ _ _ _ (by decide) ran
    refine ⟨bufs',p',answers,ran,reports.mpr ?_⟩
    rintro ⟨_,_,first,_,zero | ⟨_,error,_⟩⟩
    all_goals
      obtain ⟨rfl,_⟩ := Prod.mk.inj (Option.some.inj first)
      contradiction
  · have called : (Tank.writes.tryWriteAll faults (fun _ => true) [1,2] ⟨[],5,[]⟩).map
        (fun (result,_) => (Exit.returned result).value) = some (some 2) := by
      decide +kernel
    obtain ⟨⟨result,w'⟩,ran,is⟩ := Option.map_eq_some_iff.mp called
    obtain rfl := Exit.returned.inj (Exit.of_value is)
    obtain ⟨answers,_,reports⟩ :=
      ((transfers_report_iff faults).2 _ _ _ _ tank_interrupts).2.1 _ _ _ (by decide) ran
    exact ⟨w',answers,ran,reports⟩

/-- A read that is interrupted before the first byte says that the stream is at its end. -/
theorem transfers_not_always_report : ¬ ∀ (bufs bufs' : List (List UInt8)) (p p' : Player)
    (result : Except PlayerError Nat), bufs.flatten ≠ [] →
    Player.reads.reader.tryReadFullyVectored faults bufs p = some (result,bufs',p') →
    ∃ answers, Player.reads.reader.recorded.tryReadFullyVectored faults bufs (p,[]) =
      some (result,bufs',(p',answers)) ∧ Reports faults (Player.cut p') answers result := by
  intro always
  have called : (Player.reads.reader.tryReadFullyVectored faults [[0]]
      ⟨[.inr .interrupted,.inl 7],[],false⟩).map (fun (result,_,p) => ((Exit.returned result).value,p.cut)) =
        some (some 0,true) := by
    decide +kernel
  obtain ⟨⟨result,bufs',p'⟩,ran,is⟩ := Option.map_eq_some_iff.mp called
  obtain ⟨value,cut⟩ := Prod.mk.inj is
  obtain rfl := Exit.returned.inj (Exit.of_value value)
  obtain ⟨answers,_,reports⟩ := always _ _ _ _ _ (by decide) ran
  rw [(reports.eof rfl).2] at cut
  contradiction

end XxCore.Io
