import XxCore.Io.BufWriter

/-! What the methods of the buffered writer do on a valid window, for a writer that accepts no
more bytes than it was given. -/
namespace XxCore.Io

variable {ω ρ ε : Type}

namespace BufWriter

structure Valid (b : BufWriter ω) : Prop where
  le : b.start ≤ b.stop
  bound : b.stop ≤ b.data.length
  small : b.data.length ≤ isizeMax

theorem Valid.length_pending {b : BufWriter ω} (valid : b.Valid) :
    b.pending.length = b.stop - b.start := by
  rw [pending,List.length_drop,List.length_take_of_le valid.bound]

/-- Positions in the buffer are added without overflow. -/
theorem Valid.lt {b : BufWriter ω} (valid : b.Valid) {x y : Nat} (x_le : x ≤ b.data.length)
    (y_le : y ≤ b.data.length) : x + y < 2 ^ 64 := by
  have small := valid.small
  rw [isizeMax] at small
  omega

theorem Valid.range {b : BufWriter ω} (valid : b.Valid) :
    Slice.range b.data b.start b.stop = some b.pending :=
  if_pos ⟨valid.le,valid.bound⟩

theorem Valid.spare {b : BufWriter ω} (valid : b.Valid) :
    b.spareCapacity = some (b.data.length - b.stop) :=
  if_pos valid.bound

theorem Valid.discard {b : BufWriter ω} (valid : b.Valid) : b.discard.Valid :=
  ⟨Nat.le_refl _,Nat.zero_le _,valid.small⟩

/-- The bytes in front of the window were written. -/
theorem Valid.advance {b : BufWriter ω} (valid : b.Valid) {n : Nat} (le : n ≤ b.pending.length)
    (writer : ω) : Valid { b with start := b.start + n, writer } := by
  have length := valid.length_pending
  have start := valid.le
  refine ⟨?_,valid.bound,valid.small⟩
  simp only
  omega

@[simp] theorem pending_discard (b : BufWriter ω) : b.discard.pending = [] := by
  simp [discard,pending]

theorem pending_advance (b : BufWriter ω) (n : Nat) (writer : ω) :
    pending { b with start := b.start + n, writer } = b.pending.drop n := by
  simp only [pending,List.drop_drop]

/-- The window without its end. -/
theorem pending_truncate {b : BufWriter ω} (valid : b.Valid) {n : Nat} (le : n ≤ b.pending.length)
    (writer : ω) : pending { b with stop := b.start + n, writer } = b.pending.take n := by
  have length := valid.length_pending
  simp only [pending,List.drop_take,List.take_take]
  congr 1
  omega

/-- Only the writer has changed. -/
@[simp] theorem pending_writer (b : BufWriter ω) (writer : ω) :
    pending { b with writer } = b.pending := rfl

theorem fromParts_valid {writer : ω} {buf : Vec} {pos : Nat} {b : BufWriter ω}
    (made : fromParts writer buf pos = some b) : b.Valid := by
  rw [fromParts,Option.ite_none_right_eq_some] at made
  obtain ⟨le,eq⟩ := made
  obtain rfl := Option.some.inj eq
  have fits := buf.fits
  have bounded := buf.bounded
  refine ⟨le,?_,?_⟩
  · simp
  · simp only [List.length_append,List.length_replicate]
    omega

theorem withCapacity_eq_some {writer : ω} {requested allocated : Nat} {b : BufWriter ω}
    (made : withCapacity writer requested allocated = some b) :
    b.Valid ∧ b = ⟨List.replicate allocated 0,0,0,writer⟩ := by
  rw [withCapacity,Option.dite_none_right_eq_some] at made
  obtain ⟨_,made⟩ := made
  refine ⟨fromParts_valid made,?_⟩
  exact (Option.some.inj made).symm

/-- Bytes were put behind the window. -/
structure Extended (b next : BufWriter ω) (new : List UInt8) : Prop where
  valid : next.Valid
  capacity : next.capacity = b.capacity
  writer : next.writer = b.writer
  pending : next.pending = b.pending ++ new

/-- The rest of the buffer was overwritten, and some of its bytes belong to the window now. -/
theorem Valid.extended {b : BufWriter ω} (valid : b.Valid) {new : List UInt8} {n : Nat}
    (length : new.length = b.data.length - b.stop) (le : n ≤ new.length) :
    Extended b { b with data := Slice.splice b.data b.stop new, stop := b.stop + n } (new.take n) := by
  have start := valid.le
  have bound := valid.bound
  have same : (Slice.splice b.data b.stop new).length = b.data.length :=
    Slice.length_splice (by omega)
  refine ⟨⟨Nat.le_trans start (Nat.le_add_right _ _),?_,?_⟩,same,rfl,?_⟩
  · rw [same]
    simp only
    omega
  · rw [same]
    exact valid.small
  · exact Slice.drop_take_splice_add start le bound

theorem length_rest (b : BufWriter ω) :
    ((b.data.take b.data.length).drop b.stop).length = b.data.length - b.stop := by
  rw [List.take_length,List.length_drop]

theorem writeBuffered_extended {b : BufWriter ω} (valid : b.Valid) (buf : List UInt8) :
    ∃ n next, b.writeBuffered buf = some (n,next) ∧ n ≤ buf.length ∧
      Extended b next (buf.take n) := by
  have bound := valid.bound
  have range : Slice.range b.data b.stop b.data.length = _ := if_pos ⟨bound,Nat.le_refl _⟩
  have rest := b.length_rest
  rcases copied : readIntoSlice ((b.data.take b.data.length).drop b.stop) buf with ⟨n,new⟩
  have length := length_readIntoSlice ((b.data.take b.data.length).drop b.stop) buf
  have bytes := take_readIntoSlice ((b.data.take b.data.length).drop b.stop) buf
  have count : (readIntoSlice ((b.data.take b.data.length).drop b.stop) buf).1 =
      min ((b.data.take b.data.length).drop b.stop).length buf.length := rfl
  rw [copied] at length bytes count
  simp only at length bytes count
  have extended := valid.extended (n := n) (length.trans rest) (by omega)
  rw [bytes] at extended
  refine ⟨n,_,?_,by omega,extended⟩
  rw [writeBuffered,range,Option.bind_some,copied]
  simp only
  rw [add_of_lt (valid.lt bound (by omega)),Option.map_some]

/-- How a flush goes: the writer gets the window piece by piece. -/
inductive Flushes (W : Write ω ε) (E : Errors ε) :
    BufWriter ω → Except ε Unit → BufWriter ω → Prop where
  | done (empty : b.pending = []) : Flushes W E b (.ok ()) b.discard
  | failed (some : b.pending ≠ []) (ran : W.write b.writer b.pending = (.error e,w)) :
      Flushes W E b (.error e) { b with writer := w }
  | zero (some : b.pending ≠ []) (ran : W.write b.writer b.pending = (.ok 0,w)) :
      Flushes W E b (.error E.writeZero) { b with writer := w }
  | more (ran : W.write b.writer b.pending = (.ok n,w)) (le : n ≤ b.pending.length)
      (rest : Flushes W E { b with start := b.start + n, writer := w } result next) :
      Flushes W E b result next

theorem flushBuf_flushes {W : Write ω ε} {E : Errors ε} (bounded : W.Bounded) {b : BufWriter ω}
    (valid : b.Valid) :
    ∃ result next, flushBuf W E b = some (result,next) ∧ Flushes W E b result next := by
  have length := valid.length_pending
  induction remaining : b.stop - b.start using Nat.strongRecOn generalizing b with
  | ind remaining ih =>
    rw [flushBuf]
    by_cases empty : b.stop ≤ b.start
    · have none : b.pending = [] := List.length_eq_zero_iff.mp (by omega)
      rw [if_pos empty]
      exact ⟨_,_,rfl,.done none⟩
    · have some_ : b.pending ≠ [] := List.ne_nil_of_length_pos (by omega)
      simp only [if_neg empty,valid.range]
      have counts := bounded b.writer b.pending
      rcases ran : W.write b.writer b.pending with ⟨e | n,w⟩
      · exact ⟨_,_,rfl,.failed some_ ran⟩
      rw [ran] at counts
      have few : n ≤ b.pending.length := counts n rfl
      by_cases zero : n = 0
      · subst zero
        exact ⟨_,_,rfl,.zero some_ ran⟩
      · have start := valid.le
        have bound := valid.bound
        have fits := valid.lt (x := b.start) (y := n) (by omega) (by omega)
        have valid' := valid.advance few w
        simp only [if_neg zero,if_pos (And.intro few fits)]
        obtain ⟨result,next,rest,flushes⟩ := ih _ (by simp only; omega) valid'
          valid'.length_pending rfl
        exact ⟨result,next,rest,.more ran few flushes⟩

/-- A flush keeps the buffer, and a successful one empties it. -/
theorem Flushes.kept {W : Write ω ε} {E : Errors ε} {b next : BufWriter ω} {result : Except ε Unit}
    (flushes : Flushes W E b result next) (valid : b.Valid) :
    next.Valid ∧ next.capacity = b.capacity ∧ (result = .ok () → next = next.discard) := by
  induction flushes with
  | done => exact ⟨valid.discard,rfl,fun _ => rfl⟩
  | failed | zero => exact ⟨⟨valid.le,valid.bound,valid.small⟩,rfl,nofun⟩
  | more _ le _ ih => exact ih (valid.advance le _)

theorem Flushes.empty {W : Write ω ε} {E : Errors ε} {b next : BufWriter ω}
    (flushes : Flushes W E b (.ok ()) next) (valid : b.Valid) : next.pending = [] := by
  rw [(flushes.kept valid).2.2 rfl]
  exact next.pending_discard

/-- `flush`, which flushes the writer too. -/
inductive Flushed (W : Write ω ε) (E : Errors ε) (b : BufWriter ω) :
    Except ε Unit → BufWriter ω → Prop where
  | failed (flushes : Flushes W E b (.error e) next) : Flushed W E b (.error e) next
  | down (flushes : Flushes W E b (.ok ()) middle) (ran : W.flush middle.writer = (result,w)) :
      Flushed W E b result { middle with writer := w }

theorem flush_flushed {W : Write ω ε} {E : Errors ε} (bounded : W.Bounded) {b : BufWriter ω}
    (valid : b.Valid) :
    ∃ result next, flush W E b = some (result,next) ∧ Flushed W E b result next := by
  obtain ⟨result,middle,called,flushes⟩ := flushBuf_flushes (E := E) bounded valid
  rw [flush,called,Option.map_some]
  cases result with
  | error e => exact ⟨_,_,rfl,.failed flushes⟩
  | ok => exact ⟨_,_,rfl,.down flushes rfl⟩

/-- Where the bytes of a write go. -/
inductive Writes (W : Write ω ε) (E : Errors ε) (b : BufWriter ω) (buf : List UInt8) :
    Except ε Nat → BufWriter ω → Prop where
  | buffered (le : n ≤ buf.length) (extended : Extended b next (buf.take n)) :
      Writes W E b buf (.ok n) next
  | failed (flushes : Flushes W E b (.error e) next) : Writes W E b buf (.error e) next
  | direct (flushes : Flushes W E b (.ok ()) middle)
      (ran : W.write middle.writer buf = (result,w)) :
      Writes W E b buf result { middle with writer := w }
  | flushed (flushes : Flushes W E b (.ok ()) middle) (le : n ≤ buf.length)
      (extended : Extended middle next (buf.take n)) : Writes W E b buf (.ok n) next

theorem write_writes {W : Write ω ε} {E : Errors ε} (bounded : W.Bounded) {b : BufWriter ω}
    (valid : b.Valid) (buf : List UInt8) :
    ∃ result next, write W E b buf = some (result,next) ∧ Writes W E b buf result next := by
  rw [write,valid.spare,Option.bind_some]
  by_cases spare : 0 < b.data.length - b.stop
  · obtain ⟨n,next,called,le,extended⟩ := writeBuffered_extended valid buf
    rw [if_pos spare,called]
    exact ⟨_,_,rfl,.buffered le extended⟩
  · obtain ⟨result,middle,called,flushes⟩ := flushBuf_flushes (E := E) bounded valid
    rw [if_neg spare,called,Option.bind_some]
    cases result with
    | error e => exact ⟨_,_,rfl,.failed flushes⟩
    | ok =>
      by_cases large : middle.data.length ≤ buf.length
      · simp only [if_pos large]
        exact ⟨_,_,rfl,.direct flushes rfl⟩
      · obtain ⟨n,next,called,le,extended⟩ := writeBuffered_extended (flushes.kept valid).1 buf
        simp only [if_neg large,called]
        exact ⟨_,_,rfl,.flushed flushes le extended⟩

/-- What a read into the buffer appends is what the reader has read. -/
inductive PipeRead (R : Read ρ ε) (b : BufWriter ω) (reader : ρ) :
    Except ε Nat → ρ → BufWriter ω → Prop where
  | ran (ran : R.read reader buf = (result,new,r)) (extended : Extended b next (handled result new)) :
      PipeRead R b reader result r next

theorem pipeRead_ran {R : Read ρ ε} (bounded : R.Bounded) {b : BufWriter ω} (valid : b.Valid)
    (reader : ρ) : ∃ result r next, pipeRead R b reader = some (result,r,next) ∧
      PipeRead R b reader result r next := by
  have bound := valid.bound
  have range : Slice.range b.data b.stop b.data.length = _ := if_pos ⟨bound,Nat.le_refl _⟩
  have rest := b.length_rest
  have kept := R.length_read reader ((b.data.take b.data.length).drop b.stop)
  have counts := bounded reader ((b.data.take b.data.length).drop b.stop)
  rw [pipeRead,range,Option.bind_some]
  rcases ran : R.read reader ((b.data.take b.data.length).drop b.stop) with ⟨e | n,new,r⟩
  · rw [ran] at kept
    refine ⟨_,_,_,rfl,.ran ran ?_⟩
    exact valid.extended (n := 0) (kept.trans rest) (Nat.zero_le _)
  · rw [ran] at kept counts
    have few : n ≤ new.length := by rw [kept]; exact counts n rfl
    refine ⟨_,_,_,?_,.ran ran (valid.extended (kept.trans rest) few)⟩
    simp only [lengthCheck,if_pos few,Option.bind_some]
    rw [add_of_lt (valid.lt bound (by simp only at kept; omega)),Option.map_some]

/-- `pipe_from_once` flushes a full buffer before it reads. -/
inductive Pipes (W : Write ω ε) (E : Errors ε) (R : Read ρ ε) (b : BufWriter ω) (reader : ρ) :
    Except ε Nat → ρ → BufWriter ω → Prop where
  | failed (flushed : Flushed W E b (.error e) next) : Pipes W E R b reader (.error e) reader next
  | flushed (flushed : Flushed W E b (.ok ()) middle) (piped : PipeRead R middle reader result r next) :
      Pipes W E R b reader result r next
  | read (piped : PipeRead R b reader result r next) : Pipes W E R b reader result r next

theorem Flushed.kept {W : Write ω ε} {E : Errors ε} {b next : BufWriter ω} {result : Except ε Unit}
    (flushed : Flushed W E b result next) (valid : b.Valid) :
    next.Valid ∧ next.capacity = b.capacity ∧ (result = .ok () → next.pending = []) := by
  cases flushed with
  | failed flushes =>
    obtain ⟨valid',capacity,_⟩ := flushes.kept valid
    exact ⟨valid',capacity,nofun⟩
  | down flushes _ =>
    obtain ⟨valid',capacity,_⟩ := flushes.kept valid
    exact ⟨⟨valid'.le,valid'.bound,valid'.small⟩,capacity,fun _ => flushes.empty valid⟩

theorem pipeFromOnce_pipes {W : Write ω ε} {E : Errors ε} {R : Read ρ ε} (bounded : W.Bounded)
    (bounded' : R.Bounded) {b : BufWriter ω} (valid : b.Valid) (reader : ρ) :
    ∃ result r next, pipeFromOnce W E R b reader = some (result,r,next) ∧
      Pipes W E R b reader result r next := by
  rw [pipeFromOnce,valid.spare,Option.bind_some]
  by_cases full : b.data.length - b.stop = 0
  · obtain ⟨result,middle,called,flushed⟩ := flush_flushed (E := E) bounded valid
    rw [if_pos full,called,Option.bind_some]
    cases result with
    | error e => exact ⟨_,_,_,rfl,.failed flushed⟩
    | ok =>
      obtain ⟨result,r,next,called,piped⟩ := pipeRead_ran bounded' (flushed.kept valid).1 reader
      exact ⟨result,r,next,called,.flushed flushed piped⟩
  · obtain ⟨result,r,next,called,piped⟩ := pipeRead_ran bounded' valid reader
    rw [if_neg full]
    exact ⟨result,r,next,called,.read piped⟩

end BufWriter
end XxCore.Io
