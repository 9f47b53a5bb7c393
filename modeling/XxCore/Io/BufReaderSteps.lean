import XxCore.Io.BufReader

/-! What the methods of the buffered reader do on a valid window, for a reader that reports no
more bytes than it was asked for. -/
namespace XxCore.Io

variable {ρ ε : Type}

namespace BufReader

structure Valid (b : BufReader ρ) : Prop where
  le : b.start ≤ b.stop
  bound : b.stop ≤ b.data.length
  small : b.data.length ≤ isizeMax

theorem Valid.length_buffer {b : BufReader ρ} (valid : b.Valid) :
    b.buffer.length = b.stop - b.start := by
  rw [buffer,List.length_drop,List.length_take_of_le valid.bound]

/-- An empty window stays empty, whatever is in the buffer. -/
theorem Valid.stays_empty {b : BufReader ρ} (valid : b.Valid) (empty : b.buffer = [])
    (data : List UInt8) : (data.take b.stop).drop b.start = [] := by
  have none : b.stop - b.start = 0 := by rw [← valid.length_buffer,empty,List.length_nil]
  apply List.drop_eq_nil_of_le
  rw [List.length_take]
  omega

theorem Valid.add {b : BufReader ρ} (valid : b.Valid) {x y : Nat} (x_le : x ≤ b.data.length)
    (y_le : y ≤ b.data.length) : Io.add x y = some (x + y) := by
  have small := valid.small
  rw [isizeMax] at small
  exact add_of_lt (by omega)

theorem fromParts_valid {reader : ρ} {buf : Vec} {pos : Nat} {b : BufReader ρ}
    (made : fromParts reader buf pos = some b) : b.Valid := by
  rw [fromParts,Option.ite_none_right_eq_some] at made
  obtain ⟨le,eq⟩ := made
  obtain rfl := Option.some.inj eq
  have fits := buf.fits
  have length : buf.bytes.length + (buf.capacity - buf.bytes.length) = buf.capacity := by omega
  refine ⟨le,?_,?_⟩
  · simp
  · simpa [length] using buf.bounded

theorem withCapacity_eq_some {reader : ρ} {requested allocated : Nat} {b : BufReader ρ}
    (made : withCapacity reader requested allocated = some b) :
    b.Valid ∧ b = ⟨List.replicate allocated 0,0,0,reader⟩ := by
  rw [withCapacity,Option.dite_none_right_eq_some] at made
  obtain ⟨_,made⟩ := made
  refine ⟨fromParts_valid made,?_⟩
  exact (Option.some.inj made).symm

/-- What the reader was given and what it did, when a range of the buffer is filled. -/
inductive Filled (R : Read ρ ε) (b : BufReader ρ) (lo hi : Nat) :
    Except ε Nat → BufReader ρ → Prop where
  | error (ran : R.read b.reader ((b.data.take hi).drop lo) = (.error e,new,r)) :
    Filled R b lo hi (.error e) { b with data := Slice.splice b.data lo new, reader := r }
  | zero (ran : R.read b.reader ((b.data.take hi).drop lo) = (.ok 0,new,r)) :
    Filled R b lo hi (.ok 0) { b with data := Slice.splice b.data lo new, reader := r }
  | more (ran : R.read b.reader ((b.data.take hi).drop lo) = (.ok n,new,r)) (pos : 0 < n)
    (le : n ≤ new.length) : Filled R b lo hi (.ok n)
      { b with data := Slice.splice b.data lo new, stop := lo + n, reader := r }

theorem fillBufRange_filled {R : Read ρ ε} {b : BufReader ρ} {lo hi : Nat} (bounded : R.Bounded)
    (valid : b.Valid) (le : lo ≤ hi) (bound : hi ≤ b.data.length) :
    ∃ result next, fillBufRange R b lo hi = some (result,next) ∧ Filled R b lo hi result next := by
  have range : Slice.range b.data lo hi = some ((b.data.take hi).drop lo) := if_pos ⟨le,bound⟩
  have length := R.length_read b.reader ((b.data.take hi).drop lo)
  have counts := bounded b.reader ((b.data.take hi).drop lo)
  have given : ((b.data.take hi).drop lo).length = hi - lo := by
    rw [List.length_drop,List.length_take_of_le bound]
  rcases ran : R.read b.reader ((b.data.take hi).drop lo) with ⟨result,new,r⟩
  rw [ran] at length counts
  change new.length = _ at length
  rw [fillBufRange,range,Option.bind_some,ran]
  cases result with
  | error e => exact ⟨_,_,rfl,.error ran⟩
  | ok n =>
    have few : n ≤ new.length := Nat.le_trans (counts n rfl) (Nat.le_of_eq length.symm)
    by_cases zero : n = 0
    · subst zero
      exact ⟨_,_,rfl,.zero ran⟩
    · refine ⟨_,_,?_,.more ran (Nat.pos_of_ne_zero zero) few⟩
      simp only [if_neg zero,lengthCheck,if_pos few,Option.bind_some]
      rw [valid.add (by omega) (by omega)]
      rfl

/-- The methods do not change the size of the buffer. -/
theorem Filled.length {R : Read ρ ε} {b next : BufReader ρ} {lo hi : Nat} {result : Except ε Nat}
    (filled : Filled R b lo hi result next) (le : lo ≤ hi) (bound : hi ≤ b.data.length) :
    next.data.length = b.data.length := by
  have given : ((b.data.take hi).drop lo).length = hi - lo := by
    rw [List.length_drop,List.length_take_of_le bound]
  have length := R.length_read b.reader ((b.data.take hi).drop lo)
  cases filled with
  | error ran | zero ran | more ran =>
    rw [ran,given] at length
    exact Slice.length_splice (by simp only at length ⊢; omega)

/-- The window stays in the buffer. -/
theorem Filled.bound {R : Read ρ ε} {b next : BufReader ρ} {lo hi : Nat} {result : Except ε Nat}
    (filled : Filled R b lo hi result next) (valid : b.Valid) (le : lo ≤ hi)
    (bound : hi ≤ b.data.length) : next.stop ≤ next.data.length := by
  have length := filled.length le bound
  have given : ((b.data.take hi).drop lo).length = hi - lo := by
    rw [List.length_drop,List.length_take_of_le bound]
  have kept := R.length_read b.reader ((b.data.take hi).drop lo)
  rw [length]
  cases filled with
  | error | zero => exact valid.bound
  | more ran _ few =>
    rw [ran,given] at kept
    simp only at kept ⊢
    omega

theorem Filled.stop_pos {R : Read ρ ε} {b next : BufReader ρ} {lo hi n : Nat}
    (filled : Filled R b lo hi (.ok n) next) (pos : 0 < n) : 0 < next.stop := by
  cases filled with
  | zero => contradiction
  | more => exact Nat.add_pos_right lo pos

/-- What `read_into` does. -/
structure Taken (b : BufReader ρ) (buf : List UInt8) (n : Nat) (new : List UInt8)
    (next : BufReader ρ) : Prop where
  count : n = min buf.length b.buffer.length
  length : new.length = buf.length
  bytes : new.take n = b.buffer.take n
  next : next = { b with start := b.start + n }

theorem readInto_taken {b : BufReader ρ} (valid : b.Valid) (buf : List UInt8) :
    ∃ n new next, b.readInto buf = some (n,new,next) ∧ Taken b buf n new next := by
  have length := valid.length_buffer
  have le := valid.le
  have bound := valid.bound
  have count : (readIntoSlice buf b.buffer).1 = min buf.length b.buffer.length := rfl
  refine ⟨_,_,_,?_,rfl,length_readIntoSlice _ _,take_readIntoSlice _ _,rfl⟩
  simp only [readInto]
  rw [valid.add (by omega) (by omega)]
  rfl

theorem consume_eq {b : BufReader ρ} (valid : b.Valid) {count : Nat}
    (le : count ≤ b.buffer.length) :
    b.consume count = some { b with start := b.start + count } := by
  have length := valid.length_buffer
  have start := valid.le
  have stop := valid.bound
  rw [consume,if_pos le,valid.add (by omega) (by omega)]
  rfl

/-- Where the bytes of a read come from. -/
inductive Reads (R : Read ρ ε) (b : BufReader ρ) (buf : List UInt8) :
    Except ε Nat → List UInt8 → BufReader ρ → Prop where
  | buffered (some : b.buffer ≠ []) (taken : Taken b buf n new next) : Reads R b buf (.ok n) new next
  | direct (empty : b.buffer = []) (large : b.capacity ≤ buf.length)
    (ran : R.read b.reader buf = (result,new,r)) : Reads R b buf result new { b with reader := r }
  | failed (empty : b.buffer = []) (filled : Filled R b 0 b.capacity (.error e) next) :
    Reads R b buf (.error e) buf next
  | eof (empty : b.buffer = []) (small : buf.length < b.capacity)
    (filled : Filled R b 0 b.capacity (.ok 0) next) : Reads R b buf (.ok 0) buf next
  | filled (empty : b.buffer = []) (pos : 0 < k) (filled : Filled R b 0 b.capacity (.ok k) middle)
    (taken : Taken { middle with start := 0 } buf n new next) : Reads R b buf (.ok n) new next

theorem read_reads {R : Read ρ ε} {b : BufReader ρ} (bounded : R.Bounded) (valid : b.Valid)
    (buf : List UInt8) : ∃ result new next, read R b buf = some (result,new,next) ∧
      Reads R b buf result new next := by
  by_cases empty : b.buffer = []
  · simp only [read,empty,List.isEmpty_nil,if_true,readCold]
    by_cases large : b.capacity ≤ buf.length
    · rw [if_pos large]
      exact ⟨_,_,_,rfl,.direct empty large rfl⟩
    · rw [if_neg large]
      obtain ⟨result,middle,call,filled⟩ :=
        fillBufRange_filled bounded valid (Nat.zero_le _) (Nat.le_refl b.data.length)
      have length := filled.length (Nat.zero_le _) (Nat.le_refl _)
      have bound := filled.bound valid (Nat.zero_le _) (Nat.le_refl _)
      simp only [fillBuf,call,Option.map_some,Option.bind_some]
      cases result with
      | error e => exact ⟨_,_,_,rfl,.failed empty filled⟩
      | ok k =>
        by_cases zero : k = 0
        · subst zero
          exact ⟨_,_,_,rfl,.eof empty (Nat.lt_of_not_le large) filled⟩
        · have front : { middle with start := 0 }.Valid :=
            ⟨Nat.zero_le _,bound,by rw [length]; exact valid.small⟩
          obtain ⟨n,new,next,took,taken⟩ := readInto_taken front buf
          refine ⟨_,_,_,?_,.filled empty (Nat.pos_of_ne_zero zero) filled taken⟩
          simp only [rewindIfRead,if_neg zero,took,Option.map_some]
  · obtain ⟨n,new,next,ran,taken⟩ := readInto_taken valid buf
    refine ⟨_,_,_,?_,.buffered empty taken⟩
    simp [read,empty,ran]

/-- The window at the beginning of the buffer. -/
def moved (b : BufReader ρ) : BufReader ρ :=
  { b with data := Slice.splice b.data 0 b.buffer, start := 0, stop := b.buffer.length }

theorem moveDataToBeginning_eq {b : BufReader ρ} (valid : b.Valid) :
    b.moveDataToBeginning = some b.moved := by
  have length := valid.length_buffer
  have le := valid.le
  have bound := valid.bound
  by_cases zero : b.start = 0
  · have front : b.buffer = b.data.take b.stop := by rw [buffer,zero,List.drop_zero]
    have stop : b.buffer.length = b.stop := by rw [length,zero,Nat.sub_zero]
    rw [moveDataToBeginning,if_pos zero,moved,stop,front,Slice.splice_take bound,← zero]
  · simp only [moveDataToBeginning,if_neg zero]
    by_cases none : b.buffer.length = 0
    · have nil := List.length_eq_zero_iff.mp none
      simp [moved,discard,nil,Slice.splice]
    · rw [if_neg none,Slice.copyWithin,Slice.range,if_pos ⟨le,bound⟩,Option.bind_some,if_pos]
      · rfl
      · rw [← buffer]
        omega

/-- How `fill_amount` fills the buffer: it appends, starts again at the front of an empty buffer,
or moves the data first. -/
inductive Fills (R : Read ρ ε) (b : BufReader ρ) (amount : Nat) :
    Except ε Nat → BufReader ρ → Prop where
  | enough : Fills R b amount (.ok 0) b
  | append (le : b.stop ≤ hi) (bound : hi ≤ b.data.length)
    (filled : Filled R b b.stop hi result next) : Fills R b amount result next
  | wrap (empty : b.stop ≤ b.start) (bound : amount ≤ b.data.length)
    (filled : Filled R b 0 amount result next) :
    Fills R b amount (rewindIfRead (result,next)).1 (rewindIfRead (result,next)).2
  | compact (some : b.start < b.stop) (le : b.buffer.length ≤ amount)
    (bound : amount ≤ b.data.length)
    (filled : Filled R b.moved b.buffer.length amount result next) : Fills R b amount result next

/-- Nothing is rewound that starts at the beginning. -/
theorem rewindIfRead_of_zero {next : Except ε Nat × BufReader ρ} (zero : next.2.start = 0) :
    rewindIfRead next = next := by
  rcases next with ⟨result | n,b⟩
  · rfl
  · simp only at zero
    simp only [rewindIfRead]
    split
    · rfl
    · rw [← zero]

theorem Filled.start {R : Read ρ ε} {b next : BufReader ρ} {lo hi : Nat} {result : Except ε Nat}
    (filled : Filled R b lo hi result next) : next.start = b.start := by
  cases filled <;> rfl

theorem moved_valid {b : BufReader ρ} (valid : b.Valid) : b.moved.Valid := by
  have length := valid.length_buffer
  have bound := valid.bound
  have size : b.moved.data.length = b.data.length := Slice.length_splice (by omega)
  refine ⟨Nat.zero_le _,?_,?_⟩
  · rw [size]
    simp only [moved]
    omega
  · rw [size]
    exact valid.small

@[simp] theorem moved_buffer (b : BufReader ρ) : b.moved.buffer = b.buffer := by
  rw [moved,buffer,List.drop_zero,Slice.take_splice_zero (Nat.le_refl _),List.take_length]

@[simp] theorem rewindIfRead_data (next : Except ε Nat × BufReader ρ) :
    (rewindIfRead next).2.data = next.2.data := by
  rcases next with ⟨result | n,b⟩
  · rfl
  · simp only [rewindIfRead]
    split <;> rfl

theorem fillAmount_fills {R : Read ρ ε} {b : BufReader ρ} {amount : Nat} (bounded : R.Bounded)
    (valid : b.Valid) (fits : amount ≤ b.capacity) :
    ∃ result next, fillAmount R b amount = some (result,next) ∧ Fills R b amount result next := by
  have length := valid.length_buffer
  have le := valid.le
  have bound := valid.bound
  have capacity : b.capacity = b.data.length := rfl
  rw [fillAmount,if_pos fits,valid.add (Nat.le_trans le bound) fits,Option.bind_some]
  by_cases enough : b.start + amount ≤ b.stop
  · rw [if_pos enough]
    exact ⟨_,_,rfl,.enough⟩
  rw [if_neg enough]
  by_cases beyond : b.capacity < b.start + amount
  · rw [if_pos beyond]
    by_cases empty : b.stop ≤ b.start
    · rw [if_pos empty]
      obtain ⟨result,next,call,filled⟩ := fillBufRange_filled bounded valid (Nat.zero_le _) fits
      exact ⟨_,_,by rw [fillFrom,call]; rfl,.wrap empty fits filled⟩
    · rw [if_neg empty,moveDataToBeginning_eq valid,Option.bind_some]
      have small : b.buffer.length ≤ amount := by omega
      have size : b.moved.data.length = b.data.length := Slice.length_splice (by omega)
      have stop : b.moved.stop = b.buffer.length := rfl
      have spare : b.moved.spareCapacity = some (b.data.length - b.buffer.length) := by
        rw [spareCapacity,size,stop]
        exact if_pos (by omega)
      obtain ⟨result,next,call,filled⟩ := fillBufRange_filled bounded (moved_valid valid)
        small (by omega)
      refine ⟨result,next,?_,.compact (Nat.lt_of_not_le empty) small fits filled⟩
      rw [spare,Option.bind_some,if_neg (by omega),fillFrom,stop,call,Option.map_some,
        if_neg (by omega)]
  · rw [if_neg beyond]
    obtain ⟨result,next,call,filled⟩ := fillBufRange_filled bounded valid
      (show b.stop ≤ b.start + amount by omega) (by omega)
    refine ⟨result,next,?_,.append (by omega) (by omega) filled⟩
    rw [fillFrom,call,Option.map_some]
    split
    · rw [rewindIfRead_of_zero (by rw [filled.start]; omega)]
    · rfl

/-- The part of `seek` that an outcome comes from. -/
inductive Seeks (K : Seek ρ ε) (b : BufReader ρ) (outcome : Outcome ρ ε UInt64) :
    SeekFrom → Prop where
  | relative (ran : seekRelative K b rel = outcome) : Seeks K b outcome (.current rel)
  | startInner {abs : UInt64} (slow : K.streamPositionFast b.reader = false)
      (ran : seekInner K b (.start abs) = outcome) : Seeks K b outcome (.start abs)
  | start {abs : UInt64} (fast : K.streamPositionFast b.reader = true)
      (ran : seekAbs K b abs (.start abs) = outcome) : Seeks K b outcome (.start abs)
  | endInner (slow : K.streamPositionFast b.reader = true → K.streamLenFast b.reader = false)
      (ran : seekInner K b (.end_ rel) = outcome) : Seeks K b outcome (.end_ rel)
  | failed (asked : K.streamLen b.reader = (.error e,r))
      (ran : some (.error e,{ b with reader := r }) = outcome) : Seeks K b outcome (.end_ rel)
  | end_ (fast : K.streamPositionFast b.reader = true) (fast' : K.streamLenFast b.reader = true)
      (asked : K.streamLen b.reader = (.ok len,r))
      (ran : ((checkedAddSigned len rel).bind fun abs =>
        seekAbs K { b with reader := r } abs (.end_ rel)) = outcome) : Seeks K b outcome (.end_ rel)

theorem seek_seeks {K : Seek ρ ε} {b : BufReader ρ} {goal : SeekFrom}
    {outcome : Outcome ρ ε UInt64} (ran : seek K b goal = outcome) : Seeks K b outcome goal := by
  cases goal with
  | current rel => exact .relative ran
  | start abs =>
    simp only [seek] at ran
    split at ran
    next fast => exact .start fast ran
    next slow => exact .startInner (Bool.eq_false_iff.mpr slow) ran
  | end_ rel =>
    simp only [seek] at ran
    split at ran
    next slow => exact .endInner (fun fast => absurd slow (by simp [fast])) ran
    next fast =>
      split at ran
      next slow => exact .endInner (fun _ => slow) ran
      next fast' =>
        rcases asked : K.streamLen b.reader with ⟨e | len,r⟩
        · simp only [asked] at ran
          exact .failed asked ran
        · simp only [asked] at ran
          simp only [Bool.not_eq_false] at fast fast'
          exact .end_ fast fast' asked ran

end BufReader
end XxCore.Io
