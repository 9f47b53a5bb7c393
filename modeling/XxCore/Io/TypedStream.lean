import XxCore.Io.ReadToEnd
import XxCore.Io.Typed

/-! Typed reads of a stream, plain ones and those of a buffered reader. What they return is decided by
the bytes of the stream. -/
namespace XxCore.Io

open Stream' (Seq)

variable {ρ ε : Type}

/-- What is returned where `taken` are the bytes there are, of `size`, and `cut` says whether the task
is interrupted at the end. -/
def typedResult {α : Type} (E : ErrorKinds ε) (cut : Bool) (size : Nat) (taken : List UInt8)
    (value : α) : Except ε (Option α) :=
  if taken = [] then if cut then .error E.interrupted else .ok none
  else if taken.length < size then .error (if cut then E.interrupted else E.unexpectedEof)
  else .ok (some value)

section Plain

variable {R : Reader ρ ε} {E : ErrorKinds ε} {interrupted : ρ → Bool} {held : ρ → Seq UInt8}
  {good : ρ → Prop} {r : ρ} {N size : Nat}

theorem shortIoErrorUnlessInterrupt_ite (r : ρ) : shortIoErrorUnlessInterrupt E interrupted r =
    if interrupted r = true then E.interrupted else E.unexpectedEof := by
  rw [shortIoErrorUnlessInterrupt,checkInterrupt]
  cases interrupted r
  all_goals rfl

variable (interrupted) in
/-- The bytes there are, and how many it says have been read. -/
theorem readBytes_holds (holds : R.Holds held good) (start : good r) {bytes : List UInt8}
    (some_ : bytes ≠ []) :
    ∃ result bytes' r', R.readBytes E interrupted bytes r = some (result,bytes',r') ∧
      held r' = (held r).drop ((held r).take bytes.length).length ∧ bytes'.length = bytes.length ∧
      (∃ rest, bytes' = (held r).take bytes.length ++ rest) ∧
      result.map (fun read => if read ≠ 0 then some () else none) =
        typedResult E (interrupted r') bytes.length ((held r).take bytes.length) () := by
  obtain ⟨bytes',r',ran,_,rest,length,is⟩ :=
    tryReadFully_holds (E := E) interrupted holds start some_
  have few : ((held r).take bytes.length).length ≤ bytes.length := Seq.length_take_le
  rw [Reader.readBytes,ran,checkInterruptIfZero_eq]
  generalize (held r).take bytes.length = taken at rest is few
  by_cases empty : taken = []
  · subst empty
    cases cut : interrupted r'
    · exact ⟨.ok 0,bytes',r',rfl,rest,length,is,by rw [cut]; rfl⟩
    · exact ⟨.error E.interrupted,bytes',r',rfl,rest,length,is,by rw [cut]; rfl⟩
  · have pos := List.length_pos_iff.mpr empty
    have checked : lengthCheck bytes' taken.length = some taken.length :=
      if_pos (by rw [length]; exact few)
    rw [if_neg (by omega)]
    simp only [Option.bind_some,checked,Option.map_some,length,shortIoErrorUnlessInterrupt_ite]
    by_cases short : taken.length < bytes.length
    · rw [if_pos ⟨Nat.ne_of_gt pos,short⟩]
      refine ⟨_,bytes',r',rfl,rest,length,is,?_⟩
      rw [typedResult,if_neg empty,if_pos short]
      rfl
    · rw [if_neg fun both => short both.2]
      refine ⟨_,bytes',r',rfl,rest,length,is,?_⟩
      rw [typedResult,if_neg empty,if_neg short]
      simp only [Except.map,if_pos (Nat.ne_of_gt pos)]

/-- The result, with the value in place of the mark. -/
theorem typedResult_map {α β : Type} {cut : Bool} {taken : List UInt8} (value : α) (f : α → β) :
    (typedResult E cut size taken value).map (Option.map f) = typedResult E cut size taken (f value) := by
  simp only [typedResult]
  split
  · split
    all_goals rfl
  · split
    all_goals rfl

/-- A value that is returned comes from all its bytes. -/
theorem typedResult_congr {α : Type} {cut : Bool} {taken : List UInt8} {value value' : α}
    (same : taken.length = size → value = value') (few : taken.length ≤ size) :
    typedResult E cut size taken value = typedResult E cut size taken value' := by
  simp only [typedResult]
  split
  · rfl
  · split
    · rfl
    next all => rw [same (by omega)]

theorem typedResult_eq_some {α : Type} {cut : Bool} {taken : List UInt8} {value v : α}
    (is : typedResult E cut size taken value = .ok (some v)) : v = value := by
  rw [typedResult] at is
  split at is
  · split at is
    · contradiction
    · exact absurd (Except.ok.inj is) nofun
  · split at is
    · contradiction
    · exact (Option.some.inj (Except.ok.inj is)).symm

variable (interrupted) in
theorem readBytesN_holds (holds : R.Holds held good) (start : good r) (pos : 1 ≤ N) :
    ∃ r', R.readBytesN E interrupted N r =
        some (typedResult E (interrupted r') N ((held r).take N) ((held r).take N),r') ∧
      held r' = (held r).drop ((held r).take N).length := by
  have some_ : List.replicate N (0 : UInt8) ≠ [] := by
    rw [Ne,List.replicate_eq_nil_iff]
    omega
  obtain ⟨result,bytes,r',ran,rest,length,⟨more,is⟩,typed⟩ :=
    readBytes_holds (E := E) interrupted holds start some_
  have few : ((held r).take N).length ≤ N := Seq.length_take_le
  rw [List.length_replicate] at rest length is typed
  refine ⟨r',?_,rest⟩
  have whole : ((held r).take N).length = N → bytes = (held r).take N := by
    intro all
    have sum := congrArg List.length is
    rw [List.length_append,length,all] at sum
    rw [is,List.length_eq_zero_iff.mp (show more.length = 0 by omega),List.append_nil]
  rw [typedResult_congr (fun all => (whole all).symm) few,
    ← typedResult_map (E := E) () fun _ => bytes,← typed,Reader.readBytesN,ran]
  cases result with
  | error => rfl
  | ok read =>
    simp only [Option.map_some,Except.map]
    split
    all_goals rfl

variable (interrupted) in
theorem readPart_holds (holds : R.Holds held good) (start : good r) (pos : 1 ≤ size)
    (fits : size ≤ N) :
    ∃ bytes r', R.readPart E interrupted N size r =
        some (typedResult E (interrupted r') size ((held r).take size) bytes,r') ∧
      held r' = (held r).drop ((held r).take size).length ∧ bytes.length = N ∧
      (((held r).take size).length = size → bytes.take size = (held r).take size) := by
  have some_ : List.replicate size (0 : UInt8) ≠ [] := by
    rw [Ne,List.replicate_eq_nil_iff]
    omega
  obtain ⟨result,part,r',ran,rest,length,⟨more,is⟩,typed⟩ :=
    readBytes_holds (E := E) interrupted holds start some_
  rw [List.length_replicate] at rest length is typed
  refine ⟨Slice.splice (List.replicate N 0) 0 part,r',?_,rest,?_,fun all => ?_⟩
  · rw [← typedResult_map (E := E) () fun _ => Slice.splice (List.replicate N 0) 0 part,← typed,
      Reader.readPart,range_replicate fits,Option.bind_some,ran]
    cases result with
    | error => rfl
    | ok read =>
      simp only [Option.map_some,Except.map]
      split
      all_goals rfl
  · rw [Slice.length_splice,List.length_replicate]
    rw [List.length_replicate]
    omega
  · rw [Slice.take_splice_zero (Nat.le_of_eq length.symm),is,List.take_append_of_le_length (by omega),
      List.take_of_length_le (by omega)]

variable (interrupted) in
theorem readVint_holds (holds : R.Holds held good) (start : good r) (pos : 1 ≤ size)
    (fits : size ≤ N) (le : Bool) :
    ∃ r', R.readVint E interrupted N size le r =
        some (typedResult E (interrupted r') size ((held r).take size)
          (BitVec.ofNat (8 * N) (ByteValue.sum le ((held r).take size))),r') ∧
      held r' = (held r).drop ((held r).take size).length := by
  obtain ⟨bytes,r',ran,rest,length,front⟩ :=
    readPart_holds (E := E) interrupted holds start pos fits
  refine ⟨r',?_,rest⟩
  rw [Reader.readVint,if_neg (by omega),if_pos fits,ran]
  simp only [Option.map_some,typedResult_map]
  rw [typedResult_congr _ Seq.length_take_le]
  intro all
  apply BitVec.eq_of_toNat_eq
  have value := toNat_vintFromBytes pos fits length le
  rw [front all] at value
  have lt := (vintFromBytes N bytes size le).isLt
  rw [value] at lt
  rw [value,BitVec.toNat_ofNat,Nat.mod_eq_of_lt lt]

end Plain
namespace BufReader

variable {R : Read ρ ε} {E : ErrorKinds ε} {interrupted : ρ → Bool} {held : ρ → Seq UInt8}
  {b : BufReader ρ} {N size : Nat}

/-- What the buffered reader has before it: the window, and what the reader holds. -/
def remaining (held : ρ → Seq UInt8) (b : BufReader ρ) : Seq UInt8 :=
  (Seq.ofList b.buffer).append (held b.reader)

theorem remaining_of_empty (empty : b.buffer = []) : remaining held b = held b.reader := by
  rw [remaining,empty,Seq.ofList_nil,Seq.nil_append]

/-- A reader that holds a stream, by what one of its reads does. -/
theorem read_held (holds : R.reader.Holds held fun _ => True) {r r' : ρ} {buf new : List UInt8}
    {result : Except ε Nat} (ran : R.read r buf = (result,new,r')) :
    ∃ n, result = .ok n ∧ n ≤ buf.length ∧
      held r = (Seq.ofList (new.take n)).append (held r') ∧ (n = 0 → buf = [] ∨ held r = .nil) := by
  obtain ⟨n,_,_,ran',_,few,stream,none⟩ := holds r buf trivial
  obtain ⟨rfl,rest⟩ := Prod.mk.inj (ran.symm.trans (Option.some.inj ran'))
  obtain ⟨rfl,rfl⟩ := Prod.mk.inj rest
  exact ⟨n,rfl,few,stream,none⟩

theorem holds_bounded (holds : R.reader.Holds held fun _ => True) : R.Bounded := by
  intro r buf n is
  obtain ⟨m,is',few,_⟩ := read_held holds (show R.read r buf = (_,_,_) from rfl)
  obtain rfl := Except.ok.inj (is.symm.trans is')
  exact few

variable (held) in
/-- Bytes that are taken out of the window. -/
theorem Taken.remaining {next : BufReader ρ} {buf new : List UInt8} {n : Nat}
    (taken : Taken b buf n new next) (valid : b.Valid) :
    next.Valid ∧ remaining held b = (Seq.ofList (new.take n)).append (remaining held next) := by
  obtain ⟨valid',reader,stream⟩ := taken.stream valid
  refine ⟨valid',?_⟩
  rw [BufReader.remaining,BufReader.remaining,← Seq.append_assoc,← Seq.ofList_append,stream,reader]

/-- The buffered reader holds what is before it, if the reader holds a stream. -/
theorem reads_holds (holds : R.reader.Holds held fun _ => True) :
    (reads R).Holds (remaining held) Valid := by
  intro b buf valid
  obtain ⟨result,new,next,ran,how⟩ := read_reads (holds_bounded holds) valid buf
  suffices done : ∃ n, result = .ok n ∧ next.Valid ∧ n ≤ buf.length ∧
      remaining held b = (Seq.ofList (new.take n)).append (remaining held next) ∧
      (n = 0 → buf = [] ∨ remaining held b = .nil) by
    obtain ⟨n,rfl,rest⟩ := done
    exact ⟨n,new,next,ran,rest⟩
  cases how with
  | @buffered n _ _ some_ taken =>
    obtain ⟨valid',stream⟩ := taken.remaining held valid
    have count := taken.count
    have pos := List.length_pos_iff.mpr some_
    refine ⟨n,rfl,valid',by omega,stream,fun zero => .inl ?_⟩
    exact List.length_eq_zero_iff.mp (by omega)
  | @direct _ _ r empty large called =>
    obtain ⟨n,rfl,few,stream,none⟩ := read_held holds called
    have window : buffer { b with reader := r } = [] := empty
    refine ⟨n,rfl,⟨valid.le,valid.bound,valid.small⟩,few,?_,?_⟩
    · rw [remaining_of_empty empty,remaining_of_empty window]
      exact stream
    · rw [remaining_of_empty empty]
      exact none
  | failed empty filled =>
    cases filled with
    | error called =>
      obtain ⟨_,is,_⟩ := read_held holds called
      contradiction
  | eof empty small filled =>
    have length := filled.length (Nat.zero_le _) (Nat.le_refl _)
    have bound := filled.bound valid (Nat.zero_le _) (Nat.le_refl _)
    cases filled with
    | more _ pos _ => exact absurd pos (Nat.lt_irrefl 0)
    | @zero new r called =>
      obtain ⟨n,is,_,stream,none⟩ := read_held holds called
      obtain rfl := Except.ok.inj is
      have stays : b.stop - b.start = 0 := by rw [← valid.length_buffer,empty,List.length_nil]
      rw [List.take_zero,Seq.ofList_nil,Seq.nil_append] at stream
      have window : buffer { b with data := Slice.splice b.data 0 new, reader := r } = [] := by
        apply List.drop_eq_nil_of_le
        rw [List.length_take]
        simp only
        omega
      refine ⟨0,rfl,⟨valid.le,bound,by rw [length]; exact valid.small⟩,Nat.zero_le _,?_,fun _ => .inr ?_⟩
      · rw [remaining_of_empty empty,remaining_of_empty window,List.take_zero,Seq.ofList_nil,
          Seq.nil_append]
        exact stream
      · rw [remaining_of_empty empty]
        apply (none rfl).resolve_left
        apply List.ne_nil_of_length_pos
        rw [List.drop_zero,capacity,List.take_length]
        exact Nat.lt_of_le_of_lt (Nat.zero_le _) small
  | @filled k middle n _ _ empty pos filled taken =>
    have length := filled.length (Nat.zero_le _) (Nat.le_refl _)
    have bound := filled.bound valid (Nat.zero_le _) (Nat.le_refl _)
    have front : { middle with start := 0 }.Valid :=
      ⟨Nat.zero_le _,bound,by rw [length]; exact valid.small⟩
    obtain ⟨valid',stream⟩ := taken.remaining held front
    have count := taken.count
    have middle_ : remaining held { middle with start := 0 } = held b.reader ∧
        buffer { middle with start := 0 } ≠ [] := by
      cases filled with
      | zero => contradiction
      | @more got _ _ called _ few =>
        obtain ⟨m,is,_,drawn,_⟩ := read_held holds called
        obtain rfl := Except.ok.inj is
        have window : ((Slice.splice b.data 0 got).take (0 + k)).drop 0 = got.take k := by
          rw [Nat.zero_add,List.drop_zero]
          exact Slice.take_splice_zero few
        refine ⟨?_,?_⟩
        · rw [remaining,buffer]
          simp only [window]
          exact drawn.symm
        · rw [buffer]
          simp only [window]
          apply List.ne_nil_of_length_pos
          rw [List.length_take_of_le few]
          exact pos
    have filled_ := List.length_pos_iff.mpr middle_.2
    refine ⟨n,rfl,valid',by omega,?_,fun zero => .inl ?_⟩
    · rw [remaining_of_empty empty,← middle_.1]
      exact stream
    · exact List.length_eq_zero_iff.mp (by omega)

/-- From every state of the buffered reader, over every reader that gives its stream without errors
and in chunks of any size: a typed read of the buffer and a plain one return the same, which the next
bytes of the stream decide, and take the same bytes of it; so does a plain read of any other reader
that holds the stream. -/
theorem typed_reads_agree (holds : R.reader.Holds held fun _ => True) (E : ErrorKinds ε)
    (interrupted : ρ → Bool) (valid : b.Valid) :
    (∀ N, 1 ≤ N → ∃ result next, bufReadBytes R E interrupted N b = some (result,next) ∧
      (reads R).readBytesN E (fun b => interrupted b.reader) N b = some (result,next) ∧
      result = typedResult E (interrupted next.reader) N ((remaining held b).take N)
        ((remaining held b).take N) ∧
      remaining held next = (remaining held b).drop ((remaining held b).take N).length ∧
      ∀ (σ : Type) (S : Reader σ ε) (cut : σ → Bool) (left : σ → Seq UInt8) (good : σ → Prop) (s : σ),
        S.Holds left good → good s → left s = remaining held b → ∃ result' s',
          S.readBytesN E cut N s = some (result',s') ∧ left s' = remaining held next ∧
          (cut s' = interrupted next.reader → result' = result)) ∧
    ∀ N size le, 1 ≤ size → size ≤ N → ∃ result next,
      readVintFast R E interrupted N size le b = some (result,next) ∧
      (reads R).readVint E (fun b => interrupted b.reader) N size le b = some (result,next) ∧
      result = typedResult E (interrupted next.reader) size ((remaining held b).take size)
        (BitVec.ofNat (8 * N) (ByteValue.sum le ((remaining held b).take size))) ∧
      (∀ value, result = .ok (some value) →
        value.toNat = ByteValue.sum le ((remaining held b).take size)) ∧
      remaining held next = (remaining held b).drop ((remaining held b).take size).length ∧
      ∀ (σ : Type) (S : Reader σ ε) (cut : σ → Bool) (left : σ → Seq UInt8) (good : σ → Prop) (s : σ),
        S.Holds left good → good s → left s = remaining held b → ∃ result' s',
          S.readVint E cut N size le s = some (result',s') ∧ left s' = remaining held next ∧
          (cut s' = interrupted next.reader → result' = result) := by
  have buffered := reads_holds holds
  constructor
  · intro N pos
    obtain ⟨next,ran,rest⟩ :=
      readBytesN_holds (E := E) (fun b => interrupted b.reader) buffered valid pos
    refine ⟨_,next,(bufReadBytes_eq valid pos).trans ran,ran,rfl,rest,?_⟩
    intro σ S cut left good s plain start same
    obtain ⟨s',ran',rest'⟩ := readBytesN_holds (E := E) cut plain start pos
    rw [same] at ran' rest'
    refine ⟨_,s',ran',rest'.trans rest.symm,fun cut => ?_⟩
    rw [cut]
  · intro N size le pos fits
    obtain ⟨next,ran,rest⟩ :=
      readVint_holds (E := E) (fun b => interrupted b.reader) buffered valid pos fits le
    refine ⟨_,next,(readVintFast_eq valid le).trans ran,ran,rfl,fun value is => ?_,rest,?_⟩
    · have few : ((remaining held b).take size).length ≤ size := Seq.length_take_le
      have lt := ByteValue.sum_lt le ((remaining held b).take size)
      have grows : 256 ^ ((remaining held b).take size).length ≤ 256 ^ N :=
        Nat.pow_le_pow_right (by decide) (Nat.le_trans few fits)
      rw [ByteValue.pow_256 N] at grows
      rw [typedResult_eq_some is,BitVec.toNat_ofNat,Nat.mod_eq_of_lt (Nat.lt_of_lt_of_le lt grows)]
    · intro σ S cut left good s plain start same
      obtain ⟨s',ran',rest'⟩ := readVint_holds (E := E) cut plain start pos fits le
      rw [same] at ran' rest'
      refine ⟨_,s',ran',rest'.trans rest.symm,fun cut => ?_⟩
      rw [cut]

/-- A value of one byte of the two in the window, and one of three bytes that goes beyond it. -/
theorem typed_reads_agree_chunks : ∃ b next next',
    fromParts (⟨[3,4,5],[]⟩ : Chunks) ⟨[1,2],4,by decide,by decide⟩ 0 = some b ∧
    readVintFast Chunks.reads faults (fun _ => false) 2 1 false b = some (.ok (some 1),next) ∧
    readVintFast Chunks.reads faults (fun _ => false) 4 3 true b = some (.ok (some 0x030201),next') ∧
    remaining (fun r => Seq.ofList r.held) next' = Seq.ofList [4,5] := by
  obtain ⟨b,made⟩ : ∃ b,
      fromParts (⟨[3,4,5],[]⟩ : Chunks) ⟨[1,2],4,by decide,by decide⟩ 0 = some b := ⟨_,rfl⟩
  have valid := fromParts_valid made
  have stream : remaining (fun r => Seq.ofList r.held) b = Seq.ofList [1,2,3,4,5] := by
    obtain rfl := Option.some.inj made
    rw [remaining,← Seq.ofList_append]
    rfl
  have chunks := follows_holds (chunks_follow (ε := PlayerError))
  obtain ⟨_,reads⟩ := typed_reads_agree chunks faults (fun _ => false) valid
  obtain ⟨_,next,ran,_,is,_⟩ := reads 2 1 false (by decide) (by decide)
  obtain ⟨_,next',ran',_,is',_,rest',_⟩ := reads 4 3 true (by decide) (by decide)
  rw [stream] at is is' rest'
  refine ⟨b,next,next',made,?_,?_,?_⟩
  · rw [ran,is]
    rfl
  · rw [ran',is']
    rfl
  · rw [rest']
    rfl

end BufReader
end XxCore.Io
