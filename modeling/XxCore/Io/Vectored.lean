import XxCore.Io.ReadFully
import XxCore.Io.ReadUntil

/-! Vectored reads and writes (`async_std/io/read.rs` and `write.rs`). That all is dealt with is seen
by the slices, of which none is left then; a list of empty slices is not dealt with by a transfer of
nothing. -/
namespace XxCore.Io

variable {ρ ω ε : Type}

/-- The slices that are left, behind the buffers that were passed and the front part of a buffer
that was cut off its slice. -/
structure Slices where
  passed : List (List UInt8)
  front : List UInt8
  bufs : List (List UInt8)

/-- The first of the slices together with what was cut off it. -/
def attach : List UInt8 → List (List UInt8) → List (List UInt8)
  | [],bufs => bufs
  | front,[] => [front]
  | front,buf :: bufs => (front ++ buf) :: bufs

/-- The buffers. -/
def Slices.content (slices : Slices) : List (List UInt8) :=
  slices.passed ++ attach slices.front slices.bufs

/-- `advance_slices` and `advance_slices_mut`. -/
def advanceSlices (passed : List (List UInt8)) (front : List UInt8) :
    List (List UInt8) → Nat → Option Slices
  | [],amount => if amount = 0 then some ⟨passed,front,[]⟩ else none
  | buf :: bufs,amount =>
    if buf.length ≤ amount then advanceSlices (passed ++ [front ++ buf]) [] bufs (amount - buf.length)
    else some ⟨passed,front ++ buf.take amount,buf.drop amount :: bufs⟩

section Slices

theorem attach_cons (front buf : List UInt8) (bufs : List (List UInt8)) :
    attach front (buf :: bufs) = (front ++ buf) :: bufs := by
  cases front
  all_goals rfl

theorem flatten_attach (front : List UInt8) (bufs : List (List UInt8)) :
    (attach front bufs).flatten = front ++ bufs.flatten := by
  cases bufs with
  | cons buf bufs => rw [attach_cons,List.flatten_cons,List.flatten_cons,List.append_assoc]
  | nil =>
    cases front with
    | nil => rfl
    | cons x front => simp [attach]

/-- An advance moves no more than there is and changes no buffer. Of the slices it leaves, the first
one is not empty. -/
theorem advanceSlices_eq_some {passed : List (List UInt8)} {front : List UInt8}
    {bufs : List (List UInt8)} {amount : Nat} {next : Slices}
    (advanced : advanceSlices passed front bufs amount = some next) :
    amount ≤ bufs.flatten.length ∧
      next.passed.flatten ++ next.front = passed.flatten ++ front ++ bufs.flatten.take amount ∧
      next.bufs.flatten = bufs.flatten.drop amount ∧
      next.content = passed ++ attach front bufs ∧ (next.bufs = [] ∨ next.bufs.flatten ≠ []) := by
  induction bufs generalizing passed front amount with
  | nil =>
    rw [advanceSlices,Option.ite_none_right_eq_some] at advanced
    obtain ⟨rfl,is⟩ := advanced
    obtain rfl := Option.some.inj is
    simp [Slices.content]
  | cons buf bufs ih =>
    rw [advanceSlices] at advanced
    split at advanced
    next whole =>
      obtain ⟨few,moved,left,same,last⟩ := ih advanced
      refine ⟨?_,?_,?_,?_,last⟩
      · rw [List.flatten_cons,List.length_append]
        omega
      · rw [moved,List.flatten_cons,List.take_append,List.take_of_length_le whole]
        simp
      · rw [left,List.flatten_cons,List.drop_append,List.drop_eq_nil_of_le whole,List.nil_append]
      · rw [same,attach_cons,attach,List.append_assoc]
        rfl
    next part =>
      obtain rfl := Option.some.inj advanced
      have few : amount ≤ buf.length := by omega
      refine ⟨?_,?_,?_,?_,.inr ?_⟩
      · rw [List.flatten_cons,List.length_append]
        omega
      · rw [List.flatten_cons,List.take_append_of_le_length few,List.append_assoc]
      · rw [List.flatten_cons,List.flatten_cons,List.drop_append_of_le_length few]
      · rw [Slices.content,attach_cons,attach_cons,List.append_assoc,List.take_append_drop]
      · apply List.ne_nil_of_length_pos
        rw [List.flatten_cons,List.length_append,List.length_drop]
        omega

theorem advanceSlices_of_le {bufs : List (List UInt8)} {amount : Nat}
    (few : amount ≤ bufs.flatten.length) (passed : List (List UInt8)) (front : List UInt8) :
    ∃ next, advanceSlices passed front bufs amount = some next := by
  induction bufs generalizing passed front amount with
  | nil => exact ⟨_,if_pos (Nat.le_zero.mp few)⟩
  | cons buf bufs ih =>
    rw [advanceSlices]
    split
    · apply ih
      rw [List.flatten_cons,List.length_append] at few
      omega
    · exact ⟨_,rfl⟩

theorem length_flatten_of_lengths {new bufs : List (List UInt8)}
    (lengths : new.map List.length = bufs.map List.length) :
    new.flatten.length = bufs.flatten.length := by
  rw [List.length_flatten,List.length_flatten,lengths]

theorem lengths_attach {new bufs : List (List UInt8)}
    (lengths : new.map List.length = bufs.map List.length) (front : List UInt8) :
    (attach front new).map List.length = (attach front bufs).map List.length := by
  cases new with
  | nil =>
    obtain rfl := List.map_eq_nil_iff.mp lengths.symm
    rfl
  | cons x new =>
    cases bufs with
    | nil => contradiction
    | cons buf bufs =>
      obtain ⟨first,rest⟩ := List.cons.inj lengths
      rw [attach_cons,attach_cons,List.map_cons,List.map_cons,List.length_append,List.length_append,
        first,rest]

end Slices

/-- The provided `read_vectored`: a read into the first slice that is not empty. -/
def providedReadVectored (read : ρ → List UInt8 → Option (Except ε Nat × List UInt8 × ρ)) (r : ρ) :
    List (List UInt8) → Option (Except ε Nat × List (List UInt8) × ρ)
  | [] => some (.ok 0,[],r)
  | buf :: bufs =>
    if buf.isEmpty then (providedReadVectored read r bufs).map fun (result,bufs,r) => (result,buf :: bufs,r)
    else (read r buf).map fun (result,buf,r) => (result,buf :: bufs,r)

/-- The provided `write_vectored`. -/
def providedWriteVectored (write : ω → List UInt8 → Option (Except ε Nat × ω)) (w : ω)
    (bufs : List (List UInt8)) : Option (Except ε Nat × ω) :=
  match bufs.find? (!·.isEmpty) with
  | some buf => write w buf
  | none => some (.ok 0,w)

theorem providedReadVectored_lengths {read : ρ → List UInt8 → Option (Except ε Nat × List UInt8 × ρ)}
    (length_read : ∀ {r r' buf new result}, read r buf = some (result,new,r') →
      new.length = buf.length) {r r' : ρ} {bufs new : List (List UInt8)} {result : Except ε Nat}
    (ran : providedReadVectored read r bufs = some (result,new,r')) :
    new.map List.length = bufs.map List.length := by
  induction bufs generalizing new with
  | nil =>
    obtain ⟨_,rest⟩ := Prod.mk.inj (Option.some.inj ran)
    obtain ⟨rfl,_⟩ := Prod.mk.inj rest
    rfl
  | cons buf bufs ih =>
    rw [providedReadVectored] at ran
    split at ran
    all_goals
      obtain ⟨⟨_,found,_⟩,called,is⟩ := Option.map_eq_some_iff.mp ran
      obtain ⟨rfl,rest⟩ := Prod.mk.inj is
      obtain ⟨rfl,rfl⟩ := Prod.mk.inj rest
    · rw [List.map_cons,List.map_cons,ih called]
    · rw [List.map_cons,List.map_cons,length_read called]

/-- A reader that provides no `read_vectored` of its own. -/
def Reader.ofRead (read : ρ → List UInt8 → Option (Except ε Nat × List UInt8 × ρ))
    (length_read : ∀ {r r' buf new result}, read r buf = some (result,new,r') →
      new.length = buf.length) : Reader ρ ε where
  read := read
  readVectored := providedReadVectored read
  length_read := length_read
  lengths_readVectored := providedReadVectored_lengths length_read

theorem Read.length_read_some (R : Read ρ ε) {r r' : ρ} {buf new : List UInt8} {result : Except ε Nat}
    (ran : some (R.read r buf) = some (result,new,r')) : new.length = buf.length := by
  have length := R.length_read r buf
  rw [Option.some.inj ran] at length
  exact length

def Read.reader (R : Read ρ ε) : Reader ρ ε :=
  .ofRead (fun r buf => some (R.read r buf)) R.length_read_some

/-- A writer that provides no `write_vectored` of its own. -/
def Writer.ofWrite (write : ω → List UInt8 → Option (Except ε Nat × ω)) : Writer ω ε where
  write := write
  writeVectored := providedWriteVectored write

/-- The loop of `default_read_vectored` and `default_write_vectored`. -/
def Reader.vectored (R : Reader ρ ε) (E : ErrorKinds ε) : Pump ρ ε UInt8 Slices where
  call r slices := (R.readVectored r slices.bufs).map fun (result,bufs,r) =>
    (result,{ slices with bufs },r)
  advance slices n := advanceSlices slices.passed slices.front slices.bufs n
  done slices := slices.bufs.isEmpty
  stops := E.isInterrupted
  passed slices := slices.passed.flatten ++ slices.front
  left slices := slices.bufs.flatten
  call_keeps called := by
    obtain ⟨_,ran,is⟩ := Option.map_eq_some_iff.mp called
    obtain ⟨rfl,_⟩ := Prod.mk.inj (Prod.mk.inj is).2
    exact ⟨rfl,length_flatten_of_lengths (R.lengths_readVectored ran)⟩
  advance_moves moved := by
    obtain ⟨few,passed,left,_⟩ := advanceSlices_eq_some moved
    exact ⟨few,passed,left⟩
  done_left all := by
    rw [List.isEmpty_iff.mp all]
    rfl

/-- The body of `default_read_vectored` and `default_write_vectored`: the number of bytes, and
whether no slice is left. -/
def Reader.transferVectored (R : Reader ρ ε) (E : ErrorKinds ε) (bufs : List (List UInt8)) (r : ρ) :
    Option (Except ε (Nat × Bool) × List (List UInt8) × ρ) :=
  ((R.vectored E).loop 0 ⟨[],[],bufs⟩ r).map fun
    | (.error e,slices,r) => (.error e,slices.content,r)
    | (.ok total,slices,r) => (.ok (total,slices.bufs.isEmpty),slices.content,r)

/-- `default_read_vectored`. -/
def Reader.defaultReadVectored (R : Reader ρ ε) (E : ErrorKinds ε) (bufs : List (List UInt8))
    (r : ρ) : Option (Except ε (Nat × Bool) × List (List UInt8) × ρ) :=
  R.transferVectored E bufs r

/-- `try_read_fully_vectored`. -/
def Reader.tryReadFullyVectored (R : Reader ρ ε) (E : ErrorKinds ε) (bufs : List (List UInt8))
    (r : ρ) : Option (Except ε Nat × List (List UInt8) × ρ) :=
  (R.defaultReadVectored E bufs r).map fun (result,bufs,r) => (result.map Prod.fst,bufs,r)

/-- `read_fully_vectored`. -/
def Reader.readFullyVectored (R : Reader ρ ε) (E : ErrorKinds ε) (interrupted : ρ → Bool)
    (bufs : List (List UInt8)) (r : ρ) : Option (Except ε Nat × List (List UInt8) × ρ) :=
  (R.defaultReadVectored E bufs r).map fun
    | (.error e,bufs,r) => (.error e,bufs,r)
    | (.ok (read,exhausted),bufs,r) =>
      if exhausted then (.ok read,bufs,r)
      else (.error (shortIoErrorUnlessInterrupt E interrupted r),bufs,r)

/-- `default_write_vectored`. -/
def Writer.defaultWriteVectored (W : Writer ω ε) (E : ErrorKinds ε) (bufs : List (List UInt8))
    (w : ω) : Option (Except ε (Nat × Bool) × ω) :=
  (W.transfers.transferVectored E bufs w).map fun (result,_,w) => (result,w)

/-- `try_write_all_vectored`. -/
def Writer.tryWriteAllVectored (W : Writer ω ε) (E : ErrorKinds ε) (bufs : List (List UInt8))
    (w : ω) : Option (Except ε Nat × ω) :=
  (W.defaultWriteVectored E bufs w).map fun (result,w) => (result.map Prod.fst,w)

/-- `write_all_vectored`. -/
def Writer.writeAllVectored (W : Writer ω ε) (E : ErrorKinds ε) (interrupted : ω → Bool)
    (bufs : List (List UInt8)) (w : ω) : Option (Except ε Nat × ω) :=
  (W.defaultWriteVectored E bufs w).map fun
    | (.error e,w) => (.error e,w)
    | (.ok (wrote,exhausted),w) =>
      if exhausted then (.ok wrote,w)
      else (.error (shortIoErrorUnlessInterrupt E interrupted w),w)

/-- A vectored read of a stream without errors. -/
def Reader.HoldsVectored (R : Reader ρ ε) (held : ρ → Stream'.Seq UInt8) (good : ρ → Prop) : Prop :=
  ∀ r bufs, good r → ∃ n new r', R.readVectored r bufs = some (.ok n,new,r') ∧ good r' ∧
    n ≤ bufs.flatten.length ∧ held r = (Stream'.Seq.ofList (new.flatten.take n)).append (held r') ∧
    (n = 0 → bufs.flatten = [] ∨ held r = .nil)

/-- A vectored write without errors, as far as there is room. -/
def Writer.TakesVectored (W : Writer ω ε) (taken : ω → List UInt8) (room : ω → ℕ∞) : Prop :=
  ∀ w bufs, ∃ (n : Nat) (w' : ω), W.writeVectored w bufs = some (.ok n,w') ∧
    n ≤ bufs.flatten.length ∧ taken w' = taken w ++ bufs.flatten.take n ∧ room w = n + room w' ∧
    (n = 0 → bufs.flatten = [] ∨ room w = 0)

/-- The provided method reads into a part of what it is given. -/
theorem ofRead_holds {read : ρ → List UInt8 → Option (Except ε Nat × List UInt8 × ρ)}
    (length_read : ∀ {r r' buf new result}, read r buf = some (result,new,r') →
      new.length = buf.length) {held : ρ → Stream'.Seq UInt8} {good : ρ → Prop}
    (holds : (Reader.ofRead read length_read).Holds held good) :
    (Reader.ofRead read length_read).HoldsVectored held good := by
  intro r bufs start
  induction bufs with
  | nil => exact ⟨0,[],r,rfl,start,Nat.le_refl _,(Stream'.Seq.nil_append _).symm,fun _ => .inl rfl⟩
  | cons buf bufs ih =>
    by_cases empty : buf = []
    · obtain ⟨n,new,r',ran,good',few,stream,none⟩ := ih
      subst empty
      refine ⟨n,[] :: new,r',?_,good',few,stream,none⟩
      simp only [Reader.ofRead] at ran
      simp only [Reader.ofRead,providedReadVectored,ran,List.isEmpty_nil,if_true,Option.map_some]
    · obtain ⟨n,new,r',ran,good',few,stream,none⟩ := holds r buf start
      have length := length_read ran
      refine ⟨n,new :: bufs,r',?_,good',?_,?_,fun zero => .inr ((none zero).resolve_left empty)⟩
      · simp only [Reader.ofRead] at ran
        simp only [Reader.ofRead,providedReadVectored,ran,mt List.isEmpty_iff.mp empty,Bool.false_eq_true,
          if_false,Option.map_some]
      · rw [List.flatten_cons,List.length_append]
        omega
      · rw [List.flatten_cons,List.take_append_of_le_length (by omega)]
        exact stream

theorem reader_holds {R : Read ρ ε} {held : ρ → Stream'.Seq UInt8} {good : ρ → Prop}
    (holds : R.reader.Holds held good) : R.reader.HoldsVectored held good :=
  ofRead_holds R.length_read_some holds

/-- A reader of a list without errors. -/
theorem follows_holds {R : Read ρ ε} {held : ρ → List UInt8}
    (follows : R.Follows fun r => (held r).map .inl) :
    R.reader.Holds (fun r => Stream'.Seq.ofList (held r)) fun _ => True := by
  intro r buf _
  rcases ran : R.read r buf with ⟨e | n,new,r'⟩
  · have script := follows.error ran
    cases empty : held r
    all_goals
      rw [empty] at script
      exact absurd script (by simp)
  · obtain ⟨few,stream⟩ := follows.ok ran
    rw [← List.map_append] at stream
    refine ⟨n,new,r',congrArg some ran,trivial,few,?_,fun zero => ?_⟩
    · dsimp only
      rw [← (List.map_inj_right fun _ _ => Sum.inl.inj).mp stream,Stream'.Seq.ofList_append]
    · subst zero
      rcases follows.eof ran with empty | ended
      · exact .inl empty
      · have ended : held r = [] := List.map_eq_nil_iff.mp ended
        exact .inr (by simp only [ended,Stream'.Seq.ofList_nil])

/-- The first slice that is not empty stands at the front of the bytes. -/
theorem find_some {bufs : List (List UInt8)} {buf : List UInt8}
    (found : bufs.find? (!·.isEmpty) = some buf) : buf ≠ [] ∧ ∃ rest, bufs.flatten = buf ++ rest := by
  induction bufs with
  | nil => contradiction
  | cons first bufs ih =>
    by_cases empty : first = []
    · subst empty
      exact ih found
    · rw [List.find?_cons_of_pos (by simpa using empty)] at found
      obtain rfl := Option.some.inj found
      exact ⟨empty,bufs.flatten,rfl⟩

theorem ofWrite_takes {write : ω → List UInt8 → Option (Except ε Nat × ω)}
    {taken : ω → List UInt8} {room : ω → ℕ∞} (takes : (Writer.ofWrite write).Takes taken room) :
    (Writer.ofWrite write).TakesVectored taken room := by
  intro w bufs
  cases found : bufs.find? (!·.isEmpty) with
  | none =>
    have nothing : bufs.flatten = [] := by
      rw [List.flatten_eq_nil_iff]
      intro buf member
      simpa using List.find?_eq_none.mp found buf member
    refine ⟨0,w,?_,Nat.zero_le _,?_,(zero_add _).symm,fun _ => .inl nothing⟩
    · simp only [Writer.ofWrite,providedWriteVectored,found]
    · rw [List.take_zero,List.append_nil]
  | some buf =>
    obtain ⟨some_,rest,is⟩ := find_some found
    obtain ⟨n,w',ran,few,log,space,none⟩ := takes w buf
    refine ⟨n,w',?_,?_,?_,space,fun zero => .inr ((none zero).resolve_left some_)⟩
    · simp only [Writer.ofWrite] at ran
      simp only [Writer.ofWrite,providedWriteVectored,found,ran]
    · rw [is,List.length_append]
      omega
    · rw [is,List.take_append_of_le_length few]
      exact log

/-- A writer with room for `room` bytes; a write takes at most one byte more than the next of
`sizes` says. -/
structure Tank where
  got : List UInt8
  room : Nat
  sizes : List Nat

def Tank.writes : Writer Tank ε :=
  .ofWrite fun w buf =>
    let n := min (w.sizes.headD 0 + 1) (min buf.length w.room)
    some (.ok n,⟨w.got ++ buf.take n,w.room - n,w.sizes.tail⟩)

theorem tank_takes : (Tank.writes (ε := ε)).Takes Tank.got fun w => w.room := by
  intro w buf
  have few : min (w.sizes.headD 0 + 1) (min buf.length w.room) ≤ buf.length := by omega
  have space : w.room = min (w.sizes.headD 0 + 1) (min buf.length w.room) +
      (w.room - min (w.sizes.headD 0 + 1) (min buf.length w.room)) := by omega
  refine ⟨_,_,rfl,few,rfl,?_,fun zero => ?_⟩
  · exact (congrArg Nat.cast space).trans (Nat.cast_add _ _)
  · have zero : min (w.sizes.headD 0 + 1) (min buf.length w.room) = 0 := zero
    rw [← List.length_eq_zero_iff,Nat.cast_eq_zero]
    omega

section Vectored

variable {R : Reader ρ ε} {W : Writer ω ε} {E : ErrorKinds ε} {interrupted : ρ → Bool}

/-- A round of the loop is a vectored read into the slices that are left. -/
theorem vectored_call {r r' : ρ} {slices slices' : Slices} {answer : Except ε Nat}
    (called : (R.vectored E).call r slices = some (answer,slices',r')) :
    ∃ new, R.readVectored r slices.bufs = some (answer,new,r') ∧
      slices' = ⟨slices.passed,slices.front,new⟩ := by
  obtain ⟨⟨_,new,_⟩,ran,is⟩ := Option.map_eq_some_iff.mp called
  obtain ⟨rfl,rest⟩ := Prod.mk.inj is
  obtain ⟨rfl,rfl⟩ := Prod.mk.inj rest
  exact ⟨new,ran,rfl⟩

theorem vectored_sound {good : ρ → Prop}
    (sound : ∀ r bufs, good r → ∃ answer new r', R.readVectored r bufs = some (answer,new,r') ∧
      good r' ∧ ∀ n, answer = .ok n → n ≤ bufs.flatten.length) : (R.vectored E).Sound good where
  call {r slices} start _ := by
    obtain ⟨answer,new,r',ran,good',few⟩ := sound r slices.bufs start
    refine ⟨answer,⟨slices.passed,slices.front,new⟩,r',?_,good',few⟩
    simp only [Reader.vectored,ran,Option.map_some]
  advance few := advanceSlices_of_le few _ _

theorem vectored_draws {held : ρ → Stream'.Seq UInt8} {good : ρ → Prop}
    (holds : R.HoldsVectored held good) :
    (R.vectored E).Sound good ∧ (R.vectored E).Draws held good := by
  constructor
  · apply vectored_sound
    intro r bufs start
    obtain ⟨n,new,r',ran,good',few,_⟩ := holds r bufs start
    refine ⟨.ok n,new,r',ran,good',fun m is => ?_⟩
    obtain rfl := Except.ok.inj is
    exact few
  · constructor
    intro r r' slices slices' answer start called
    obtain ⟨n,new,r'',ran,good',_,stream,none⟩ := holds r slices.bufs start
    obtain ⟨_,ran',rfl⟩ := vectored_call called
    obtain ⟨rfl,is⟩ := Prod.mk.inj (Option.some.inj (ran.symm.trans ran'))
    obtain ⟨rfl,rfl⟩ := Prod.mk.inj is
    exact ⟨good',n,rfl,stream,none⟩

theorem vectored_gives {taken : ω → List UInt8} {room : ω → ℕ∞}
    (takes : W.TakesVectored taken room) :
    (W.transfers.vectored E).Sound (fun _ => True) ∧
      (W.transfers.vectored E).Gives taken room := by
  constructor
  · apply vectored_sound
    intro w bufs _
    obtain ⟨n,w',ran,few,_⟩ := takes w bufs
    refine ⟨.ok n,bufs,w',?_,trivial,fun m is => ?_⟩
    · simp only [Writer.transfers,ran,Option.map_some]
    · obtain rfl := Except.ok.inj is
      exact few
  · constructor
    intro w w' slices slices' answer called
    obtain ⟨n,w'',ran,_,log,space,none⟩ := takes w slices.bufs
    have read : W.transfers.readVectored w slices.bufs = some (.ok n,slices.bufs,w'') := by
      simp only [Writer.transfers,ran,Option.map_some]
    obtain ⟨_,ran',rfl⟩ := vectored_call called
    obtain ⟨rfl,is⟩ := Prod.mk.inj (Option.some.inj (read.symm.trans ran'))
    obtain ⟨rfl,rfl⟩ := Prod.mk.inj is
    exact ⟨rfl,n,rfl,log,space,none⟩

/-- What is returned of a run of the loop, and of the buffers. -/
theorem transferVectored_run {bufs bufs' : List (List UInt8)} {r r' : ρ}
    {result : Except ε (Nat × Bool)}
    (ran : R.transferVectored E bufs r = some (result,bufs',r')) :
    ∃ n stop slices, (R.vectored E).Run ⟨[],[],bufs⟩ r n stop slices r' ∧ bufs' = slices.content ∧
      result = (match stop with
        | .failed e => .error e
        | _ => .ok (n,slices.bufs.isEmpty)) := by
  obtain ⟨⟨returned,slices,r''⟩,looped,is⟩ := Option.map_eq_some_iff.mp ran
  obtain ⟨n,stop,run,rfl⟩ := Pump.loop_run looped
  rw [Nat.zero_add] at is
  cases stop
  all_goals
    obtain ⟨rfl,rest⟩ := Prod.mk.inj is
    obtain ⟨rfl,rfl⟩ := Prod.mk.inj rest
    exact ⟨n,_,slices,run,rfl,rfl⟩

theorem transferVectored_sound {good : ρ → Prop} (sound : (R.vectored E).Sound good) {r : ρ}
    (start : good r) (bufs : List (List UInt8)) :
    ∃ result bufs' r', R.transferVectored E bufs r = some (result,bufs',r') ∧ good r' := by
  obtain ⟨result,slices,r',looped,good'⟩ := sound.loop start 0
  rw [Reader.transferVectored,looped]
  cases result
  all_goals exact ⟨_,_,_,rfl,good'⟩

/-- The buffers keep their lengths. -/
theorem vectored_lengths {bufs : List (List UInt8)} {r r' : ρ} {n : Nat} {stop : Pump.Stop ε}
    {slices : Slices} (run : (R.vectored E).Run ⟨[],[],bufs⟩ r n stop slices r') :
    slices.content.map List.length = bufs.map List.length := by
  apply run.invariant (I := fun slices => slices.content.map List.length = bufs.map List.length)
  · intro r r' slices slices' answer called same
    obtain ⟨new,ran,rfl⟩ := vectored_call called
    rw [← same,Slices.content,Slices.content,List.map_append,List.map_append,
      lengths_attach (R.lengths_readVectored ran)]
  · intro slices next n advanced same
    rw [(advanceSlices_eq_some advanced).2.2.2.1]
    exact same
  · rfl

/-- The list of the slices is empty or one of them is not. -/
def Fillable (bufs : List (List UInt8)) : Prop := bufs = [] ∨ ∃ buf ∈ bufs, buf ≠ []

instance (bufs : List (List UInt8)) : Decidable (Fillable bufs) :=
  inferInstanceAs (Decidable (_ ∨ _))

theorem fillable_iff {bufs : List (List UInt8)} : Fillable bufs ↔ bufs = [] ∨ bufs.flatten ≠ [] := by
  rw [Fillable,Ne,List.flatten_eq_nil_iff]
  simp

/-- The slices that are left at the end: none, exactly if all bytes were moved, unless there were
slices without any byte at the beginning. -/
theorem exhausted_iff {bufs : List (List UInt8)} {r r' : ρ} {n : Nat} {stop : Pump.Stop ε}
    {slices : Slices} (run : (R.vectored E).Run ⟨[],[],bufs⟩ r n stop slices r')
    (size : slices.bufs.flatten.length = bufs.flatten.length - n) (few : n ≤ bufs.flatten.length) :
    slices.bufs.isEmpty = true ↔ n = bufs.flatten.length ∧ Fillable bufs := by
  rw [fillable_iff,List.isEmpty_iff]
  by_cases fillable : bufs = [] ∨ bufs.flatten ≠ []
  · have settled : slices.bufs = [] ∨ slices.bufs.flatten ≠ [] := by
      apply run.invariant (I := fun slices => slices.bufs = [] ∨ slices.bufs.flatten ≠ [])
      · intro r r' slices slices' answer called start
        obtain ⟨new,ran,rfl⟩ := vectored_call called
        have lengths := R.lengths_readVectored ran
        rcases start with empty | some_
        · rw [empty] at lengths
          exact .inl (List.map_eq_nil_iff.mp lengths)
        · apply Or.inr
          apply List.ne_nil_of_length_pos
          rw [length_flatten_of_lengths lengths]
          exact List.length_pos_iff.mpr some_
      · intro slices next n advanced _
        exact (advanceSlices_eq_some advanced).2.2.2.2
      · exact fillable
    constructor
    · intro empty
      rw [empty,List.flatten_nil,List.length_nil] at size
      exact ⟨by omega,fillable⟩
    · rintro ⟨all,_⟩
      rcases settled with empty | some_
      · exact empty
      · have := List.length_pos_iff.mpr some_
        omega
  · refine iff_of_false (fun empty => ?_) fun both => fillable both.2
    obtain ⟨some_,nothing⟩ := not_or.mp fillable
    rw [Decidable.not_not] at nothing
    -- a run of slices without bytes ends with its first transfer
    have whole : (R.vectored E).left ⟨[],[],bufs⟩ = [] := nothing
    have same : slices.bufs.map List.length = bufs.map List.length := by
      cases run with
      | done all => rfl
      | zero _ called | cut _ called _ | failed _ called _ =>
        obtain ⟨new,ran,rfl⟩ := vectored_call called
        exact R.lengths_readVectored ran
      | moved _ called pos advanced _ =>
        obtain ⟨le,_⟩ := Pump.shorter called advanced
        rw [whole,List.length_nil] at le
        omega
    rw [empty] at same
    exact some_ (List.map_eq_nil_iff.mp same.symm)

end Vectored
end XxCore.Io
