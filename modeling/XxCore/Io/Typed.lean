import XxCore.Io.BufReaderForward
import XxCore.Io.Vectored
import XxCore.Lib.ByteValue

/-! Typed reads (`async_std/io/typed.rs`). A buffered reader whose window is large enough loads all
bytes of the type from it, also if the value has fewer bytes. -/
namespace XxCore.Io

variable {ρ ε : Type}

/-- `read_bytes`. -/
def Reader.readBytes (R : Reader ρ ε) (E : ErrorKinds ε) (interrupted : ρ → Bool)
    (bytes : List UInt8) (r : ρ) : Option (Except ε Nat × List UInt8 × ρ) :=
  (R.tryReadFully E interrupted bytes r).bind fun
    | (.error e,bytes,r) => some (.error e,bytes,r)
    | (.ok read,bytes,r) => (lengthCheck bytes read).map fun read =>
      if read ≠ 0 ∧ read < bytes.length then
        (.error (shortIoErrorUnlessInterrupt E interrupted r),bytes,r)
      else (.ok read,bytes,r)

/-- `read_bytes_n`. -/
def Reader.readBytesN (R : Reader ρ ε) (E : ErrorKinds ε) (interrupted : ρ → Bool) (N : Nat) (r : ρ) :
    Option (Except ε (Option (List UInt8)) × ρ) :=
  (R.readBytes E interrupted (List.replicate N 0) r).map fun
    | (.error e,_,r) => (.error e,r)
    | (.ok read,bytes,r) => (.ok (if read ≠ 0 then some bytes else none),r)

/-- The front of an array of `N` zeros is read into: the array afterwards, if something was read. -/
def Reader.readPart (R : Reader ρ ε) (E : ErrorKinds ε) (interrupted : ρ → Bool) (N size : Nat)
    (r : ρ) : Option (Except ε (Option (List UInt8)) × ρ) :=
  (Slice.range (List.replicate N 0) 0 size).bind fun part =>
    (R.readBytes E interrupted part r).map fun
      | (.error e,_,r) => (.error e,r)
      | (.ok read,part,r) =>
        (.ok (if read ≠ 0 then some (Slice.splice (List.replicate N 0) 0 part) else none),r)

/-- `wrapping_shr` of an integer of `N` bytes. -/
def wrappingShr {N : Nat} (x : BitVec (8 * N)) (shift : Nat) : BitVec (8 * N) :=
  x >>> (shift % (8 * N))

/-- `vint_from_bytes`, for no more than `N` bytes. -/
def vintFromBytes (N : Nat) (bytes : List UInt8) (size : Nat) (le : Bool) : BitVec (8 * N) :=
  let shift := (N - size) * 8
  if le then
    let value := BitVec.ofNat (8 * N) (ByteValue.ofLe bytes)
    let mask := wrappingShr (BitVec.allOnes (8 * N)) shift
    value &&& mask
  else
    let value := BitVec.ofNat (8 * N) (ByteValue.ofBe bytes)
    wrappingShr value shift

/-- `read_vint`. -/
def Reader.readVint (R : Reader ρ ε) (E : ErrorKinds ε) (interrupted : ρ → Bool) (N size : Nat)
    (le : Bool) (r : ρ) : Option (Except ε (Option (BitVec (8 * N))) × ρ) :=
  if size = 0 then some (.ok (some 0),r)
  else if size ≤ N then (R.readPart E interrupted N size r).map fun (result,r) =>
    (result.map (Option.map fun bytes => vintFromBytes N bytes size le),r)
  else none

namespace BufReader

theorem length_read {R : Read ρ ε} {b b' : BufReader ρ} {buf new : List UInt8}
    {result : Except ε Nat} (ran : read R b buf = some (result,new,b')) : new.length = buf.length := by
  have taken {b b' : BufReader ρ} {n : Nat} (took : b.readInto buf = some (n,new,b')) :
      new.length = buf.length := by
    obtain ⟨_,_,is⟩ := Option.map_eq_some_iff.mp took
    obtain ⟨rfl,_⟩ := Prod.mk.inj (Prod.mk.inj is).2
    exact length_readIntoSlice _ _
  rw [read] at ran
  split at ran
  · rw [readCold] at ran
    split at ran
    · obtain ⟨rfl,_⟩ := Prod.mk.inj (Prod.mk.inj (Option.some.inj ran)).2
      exact R.length_read _ _
    · obtain ⟨⟨e | n,b₁⟩,_,ran⟩ := Option.bind_eq_some_iff.mp ran
      · obtain ⟨rfl,_⟩ := Prod.mk.inj (Prod.mk.inj (Option.some.inj ran)).2
        rfl
      · dsimp only at ran
        split at ran
        · obtain ⟨rfl,_⟩ := Prod.mk.inj (Prod.mk.inj (Option.some.inj ran)).2
          rfl
        · obtain ⟨⟨_,_,_⟩,took,is⟩ := Option.map_eq_some_iff.mp ran
          obtain ⟨_,rest⟩ := Prod.mk.inj is
          obtain ⟨rfl,_⟩ := Prod.mk.inj rest
          exact taken took
  · obtain ⟨⟨_,_,_⟩,took,is⟩ := Option.map_eq_some_iff.mp ran
    obtain ⟨_,rest⟩ := Prod.mk.inj is
    obtain ⟨rfl,_⟩ := Prod.mk.inj rest
    exact taken took

/-- `impl Read for BufReader`. -/
def reads (R : Read ρ ε) : Reader (BufReader ρ) ε := .ofRead (read R) length_read

/-- `buf_get_bytes`. -/
def bufGetBytes (R : Read ρ ε) (E : ErrorKinds ε) (interrupted : ρ → Bool) (N consume : Nat)
    (b : BufReader ρ) : Option (Except ε (Option (List UInt8)) × BufReader ρ) :=
  if N ≤ b.buffer.length then
    (Slice.range b.buffer 0 N).bind fun available =>
      let (_,bytes) := readIntoSlice (List.replicate N 0) available
      (b.consume consume).map fun b => (.ok (some bytes),b)
  -- `buf_get_bytes_cold`
  else (reads R).readPart E (fun b => interrupted b.reader) N consume b

/-- `buf_read_bytes`. -/
def bufReadBytes (R : Read ρ ε) (E : ErrorKinds ε) (interrupted : ρ → Bool) (N : Nat)
    (b : BufReader ρ) : Option (Except ε (Option (List UInt8)) × BufReader ρ) :=
  bufGetBytes R E interrupted N N b

/-- `read_vint_fast`. -/
def readVintFast (R : Read ρ ε) (E : ErrorKinds ε) (interrupted : ρ → Bool) (N size : Nat) (le : Bool)
    (b : BufReader ρ) : Option (Except ε (Option (BitVec (8 * N))) × BufReader ρ) :=
  if size = 0 then some (.ok (some 0),b)
  else if size ≤ N then (bufGetBytes R E interrupted N size b).map fun (result,b) =>
    (result.map (Option.map fun bytes => vintFromBytes N bytes size le),b)
  else none

end BufReader

section Value

variable {N size : Nat} {bytes : List UInt8}

/-- The shift is less than the width of the integer. -/
theorem wrappingShr_eq (pos : 1 ≤ size) (le : size ≤ N) (x : BitVec (8 * N)) :
    wrappingShr x ((N - size) * 8) = x >>> ((N - size) * 8) := by
  rw [wrappingShr,Nat.mod_eq_of_lt (by omega)]

/-- The value is the sum over the first bytes, whatever comes after them. -/
theorem toNat_vintFromBytes (pos : 1 ≤ size) (fits : size ≤ N) (length : bytes.length = N)
    (le : Bool) : (vintFromBytes N bytes size le).toNat = ByteValue.sum le (bytes.take size) := by
  cases le with
  | true =>
    have lt := ByteValue.ofLe_lt bytes
    rw [length,ByteValue.pow_256] at lt
    simp only [vintFromBytes,if_true,wrappingShr_eq pos fits]
    rw [BitVec.toNat_and,BitVec.toNat_ofNat,Nat.mod_eq_of_lt lt,BitVec.toNat_ushiftRight,
      BitVec.toNat_allOnes,Nat.shiftRight_eq_div_pow,ByteValue.and_mask _ _ _ (by omega)]
    have width : 8 * N - (N - size) * 8 = 8 * size := by omega
    rw [width,← ByteValue.pow_256,ByteValue.ofLe_mod (by omega),ByteValue.ofLe_eq_sum]
  | false =>
    have lt := ByteValue.ofBe_lt bytes
    have shifted := ByteValue.ofBe_div bytes size
    rw [length,ByteValue.pow_256] at lt
    simp only [vintFromBytes,Bool.false_eq_true,if_false,wrappingShr_eq pos fits]
    rw [BitVec.toNat_ushiftRight,BitVec.toNat_ofNat,Nat.mod_eq_of_lt lt,Nat.shiftRight_eq_div_pow,
      Nat.mul_comm (N - size),← ByteValue.pow_256,← length,shifted,ByteValue.ofBe_eq_sum]

theorem vintFromBytes_congr {bytes' : List UInt8} (pos : 1 ≤ size) (fits : size ≤ N)
    (length : bytes.length = N) (length' : bytes'.length = N)
    (same : bytes.take size = bytes'.take size) (le : Bool) :
    vintFromBytes N bytes size le = vintFromBytes N bytes' size le := by
  apply BitVec.eq_of_toNat_eq
  rw [toNat_vintFromBytes pos fits length,toNat_vintFromBytes pos fits length',same]

end Value
section Length

variable {R : Reader ρ ε} {E : ErrorKinds ε} {interrupted : ρ → Bool} {r r' : ρ}

/-- The array keeps its length. -/
theorem readBytes_length {bytes bytes' : List UInt8} {result : Except ε Nat}
    (ran : R.readBytes E interrupted bytes r = some (result,bytes',r')) :
    bytes'.length = bytes.length := by
  have kept {r'' : ρ} {read : Except ε Nat}
      (called : R.tryReadFully E interrupted bytes r = some (read,bytes',r'')) :
      bytes'.length = bytes.length := by
    by_cases empty : bytes = []
    · subst empty
      obtain ⟨_,rest⟩ := Prod.mk.inj (Option.some.inj called)
      obtain ⟨rfl,_⟩ := Prod.mk.inj rest
      rfl
    · obtain ⟨n,stop,cut,run,rfl,_⟩ := transferAll_run empty called
      apply run.invariant (I := fun cut => cut.content.length = bytes.length)
      · intro r r' cut cut' answer called same
        obtain ⟨new,read,rfl⟩ := scalar_call called
        have length := R.length_read read
        rw [← same,Cut.content,Cut.content,List.length_append,List.length_append,length]
      · intro cut next n moved same
        obtain ⟨_,passed,left⟩ := (R.scalar E).advance_moves moved
        have passed : next.passed = cut.passed ++ cut.left.take n := passed
        have left : next.left = cut.left.drop n := left
        rw [← same,Cut.content,Cut.content,passed,left,List.append_assoc,List.take_append_drop]
      · rfl
  obtain ⟨⟨e | read,_,r''⟩,called,ended⟩ := Option.bind_eq_some_iff.mp ran
  · obtain ⟨_,rest⟩ := Prod.mk.inj (Option.some.inj ended)
    obtain ⟨rfl,_⟩ := Prod.mk.inj rest
    exact kept called
  · obtain ⟨read,_,is⟩ := Option.map_eq_some_iff.mp ended
    split at is
    all_goals
      obtain ⟨_,rest⟩ := Prod.mk.inj is
      obtain ⟨rfl,_⟩ := Prod.mk.inj rest
      exact kept called

end Length

theorem range_replicate {N size : Nat} (le : size ≤ N) :
    Slice.range (List.replicate N (0 : UInt8)) 0 size = some (List.replicate size 0) := by
  rw [Slice.range,if_pos ⟨Nat.zero_le _,by rw [List.length_replicate]; exact le⟩,List.take_replicate,
    Nat.min_eq_left le,List.drop_zero]

/-- An array that is overwritten as a whole. -/
theorem splice_all {bytes new : List UInt8} (length : new.length = bytes.length) :
    Slice.splice bytes 0 new = new := by
  rw [Slice.splice,Nat.zero_add,length,List.drop_length,List.take_zero,List.nil_append,List.append_nil]

namespace BufReader

variable {R : Read ρ ε} {E : ErrorKinds ε} {interrupted : ρ → Bool} {b : BufReader ρ} {N size : Nat}

variable (interrupted) in
/-- An array for which the window has enough bytes is filled by one read. -/
theorem readBytes_window (valid : b.Valid) {bytes : List UInt8} (some_ : bytes ≠ [])
    (enough : bytes.length ≤ b.buffer.length) :
    (reads R).readBytes E (fun b => interrupted b.reader) bytes b = some (.ok bytes.length,
      b.buffer.take bytes.length,{ b with start := b.start + bytes.length }) := by
  have pos := List.length_pos_iff.mpr some_
  have filled : b.buffer.isEmpty = false := by
    rw [Bool.eq_false_iff]
    intro empty
    rw [List.isEmpty_iff.mp empty,List.length_nil] at enough
    omega
  obtain ⟨n,new,next,took,taken⟩ := readInto_taken valid bytes
  have count : n = bytes.length := by
    rw [taken.count]
    exact Nat.min_eq_left enough
  have content : new = b.buffer.take bytes.length := by
    have is := taken.bytes
    rw [count,List.take_of_length_le (Nat.le_of_eq taken.length)] at is
    exact is
  have length : (b.buffer.take bytes.length).length = bytes.length := List.length_take_of_le enough
  have step := taken.next
  subst content count step
  have called : ((reads R).scalar E).call b ⟨[],bytes⟩ = some (.ok bytes.length,
      ⟨[],b.buffer.take bytes.length⟩,{ b with start := b.start + bytes.length }) := by
    simp only [Reader.scalar,reads,Reader.ofRead,read,filled,Bool.false_eq_true,if_false,took,
      Option.map_some]
  have advanced : ((reads R).scalar E).advance ⟨[],b.buffer.take bytes.length⟩ bytes.length =
      some ⟨b.buffer.take bytes.length,[]⟩ := by
    rw [scalar_advance (Nat.le_of_eq length.symm)]
    simp
  have all (b' : BufReader ρ) (total : Nat) :
      ((reads R).scalar E).loop total ⟨b.buffer.take bytes.length,[]⟩ b' =
        some (.ok total,⟨b.buffer.take bytes.length,[]⟩,b') := by
    rw [Pump.loop_eq]
    exact if_pos rfl
  have more : ¬ ((reads R).scalar E).done ⟨[],bytes⟩ = true := mt List.isEmpty_iff.mp some_
  have checked : lengthCheck (b.buffer.take bytes.length) bytes.length = some bytes.length :=
    if_pos (Nat.le_of_eq length.symm)
  rw [Reader.readBytes,Reader.tryReadFully,Reader.transferAll,if_neg (mt List.isEmpty_iff.mp some_),
    Pump.loop_eq,if_neg more,called]
  simp only [Option.bind_some,advanced,all,Nat.zero_add,Option.map_some,
    checkInterruptIfZero_eq,Nat.ne_of_gt pos,false_and,if_false,Cut.content,List.append_nil,checked,
    length,Nat.lt_irrefl,and_false]

theorem readPart_window (valid : b.Valid) (pos : 1 ≤ size) (fits : size ≤ N)
    (enough : size ≤ b.buffer.length) :
    (reads R).readPart E (fun b => interrupted b.reader) N size b =
      some (.ok (some (Slice.splice (List.replicate N 0) 0 (b.buffer.take size))),
        { b with start := b.start + size }) := by
  have some_ : List.replicate size (0 : UInt8) ≠ [] := by
    rw [Ne,List.replicate_eq_nil_iff]
    omega
  have filled := readBytes_window (R := R) (E := E) interrupted valid some_
    (by rw [List.length_replicate]; exact enough)
  rw [List.length_replicate] at filled
  rw [Reader.readPart,range_replicate fits,Option.bind_some,filled]
  simp only [Option.map_some,if_pos (Nat.ne_of_gt pos)]

theorem bufGetBytes_window (valid : b.Valid) (fits : size ≤ N) (enough : N ≤ b.buffer.length) :
    bufGetBytes R E interrupted N size b =
      some (.ok (some (b.buffer.take N)),{ b with start := b.start + size }) := by
  have length : (b.buffer.take N).length = N := List.length_take_of_le enough
  have range : Slice.range b.buffer 0 N = some (b.buffer.take N) := if_pos ⟨Nat.zero_le _,enough⟩
  have loaded : (readIntoSlice (List.replicate N 0) (b.buffer.take N)).2 = b.buffer.take N := by
    simp only [readIntoSlice,List.length_replicate,length,Nat.min_self]
    rw [List.take_of_length_le (Nat.le_of_eq length)]
    apply splice_all
    rw [length,List.length_replicate]
  simp only [bufGetBytes,if_pos enough,range,Option.bind_some,loaded,
    consume_eq valid (Nat.le_trans fits enough),Option.map_some]

/-- `buf_read_bytes` is `read_bytes_n`, whatever the reader and the task do. -/
theorem bufReadBytes_eq (valid : b.Valid) (pos : 1 ≤ N) :
    bufReadBytes R E interrupted N b =
      (reads R).readBytesN E (fun b => interrupted b.reader) N b := by
  have length : (List.replicate N (0 : UInt8)).length = N := List.length_replicate
  rw [bufReadBytes]
  by_cases enough : N ≤ b.buffer.length
  · have some_ : List.replicate N (0 : UInt8) ≠ [] := by
      rw [Ne,List.replicate_eq_nil_iff]
      omega
    have filled := readBytes_window (R := R) (E := E) interrupted valid some_
      (by rw [length]; exact enough)
    rw [length] at filled
    rw [bufGetBytes_window valid (Nat.le_refl _) enough,Reader.readBytesN,filled]
    simp only [Option.map_some,if_pos (Nat.ne_of_gt pos)]
  · rw [bufGetBytes,if_neg enough,Reader.readPart,range_replicate (Nat.le_refl _),Option.bind_some,
      Reader.readBytesN]
    apply Option.map_congr
    rintro ⟨e | read,bytes,b'⟩ member
    · rfl
    · have same := readBytes_length member
      simp only [splice_all same]

/-- `read_vint_fast` is `read_vint`, whatever the reader and the task do: the bytes of the window
behind the value are shifted out or masked. -/
theorem readVintFast_eq (valid : b.Valid) (le : Bool) :
    readVintFast R E interrupted N size le b =
      (reads R).readVint E (fun b => interrupted b.reader) N size le b := by
  rw [readVintFast,Reader.readVint]
  split
  · rfl
  next some_ =>
    split
    next fits =>
      have pos := Nat.pos_of_ne_zero some_
      by_cases enough : N ≤ b.buffer.length
      · have part := Nat.le_trans fits enough
        have front : (b.buffer.take size).length = size := List.length_take_of_le part
        rw [bufGetBytes_window valid fits enough,readPart_window valid pos fits part]
        simp only [Option.map_some,Except.map]
        rw [vintFromBytes_congr pos fits (List.length_take_of_le enough)]
        · rw [Slice.length_splice,List.length_replicate]
          rw [front,List.length_replicate]
          omega
        · rw [List.take_take,Nat.min_eq_left fits,Slice.take_splice_zero (Nat.le_of_eq front.symm),
            List.take_take,Nat.min_self]
      · rw [bufGetBytes,if_neg enough]
    next => rfl

end BufReader
end XxCore.Io
