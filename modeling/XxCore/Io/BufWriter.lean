import XxCore.Io.BufReader
import XxCore.Io.Write

/-! The buffered writer (`async_std/io/buf_writer.rs`). Each method gives the new state and what
it returns, or `none` where the code panics. -/
namespace XxCore.Io

/-- `buffered` is the range from `start` to `stop`. -/
structure BufWriter (ω : Type) where
  data : List UInt8
  start : Nat
  stop : Nat
  writer : ω

namespace BufWriter

variable {ω ρ ε : Type}

/-- `from_parts`. -/
def fromParts (writer : ω) (buf : Vec) (pos : Nat) : Option (BufWriter ω) :=
  if pos ≤ buf.bytes.length then
    some ⟨buf.bytes ++ List.replicate (buf.capacity - buf.bytes.length) 0,pos,buf.bytes.length,writer⟩
  else none

/-- `with_capacity`, given the capacity that `Vec::with_capacity` has allocated, which is at least
the one that was asked for; it panics if there is none. -/
def withCapacity (writer : ω) (requested allocated : Nat) : Option (BufWriter ω) :=
  if fits : requested ≤ allocated ∧ allocated ≤ isizeMax then
    fromParts writer ⟨[],allocated,Nat.zero_le _,Vec.allocated_bounded fits⟩ 0
  else none

/-- What an `async` method gives. -/
abbrev Outcome (ω ε α : Type) := Option (Except ε α × BufWriter ω)

def capacity (b : BufWriter ω) : Nat := b.data.length

/-- The bytes that the writer has not got yet, `data[start..end]`. -/
def pending (b : BufWriter ω) : List UInt8 := (b.data.take b.stop).drop b.start

def discard (b : BufWriter ω) : BufWriter ω := { b with start := 0, stop := 0 }

def spareCapacity (b : BufWriter ω) : Option Nat := sub b.data.length b.stop

/-- `write_buffered`. -/
def writeBuffered (b : BufWriter ω) (buf : List UInt8) : Option (Nat × BufWriter ω) :=
  (Slice.range b.data b.stop b.data.length).bind fun dest =>
    let (read,dest) := readIntoSlice dest buf
    (add b.stop read).map fun stop => (read,{ b with data := Slice.splice b.data b.stop dest, stop })

/-- `flush_buf`. -/
def flushBuf (W : Write ω ε) (E : Errors ε) (b : BufWriter ω) : Outcome ω ε Unit :=
  -- `Range::is_empty`
  if b.stop ≤ b.start then some (.ok (),b.discard)
  else
    match Slice.range b.data b.start b.stop with
    | none => none
    | some buf =>
      match W.write b.writer buf with
      | (.error e,writer) => some (.error e,{ b with writer })
      | (.ok wrote,writer) =>
        if wrote = 0 then some (.error E.writeZero,{ b with writer })
        else if wrote ≤ buf.length ∧ b.start + wrote < 2 ^ 64 then
          flushBuf W E { b with start := b.start + wrote, writer }
        else none
termination_by b.stop - b.start
decreasing_by
  omega

/-- `Write::flush`. -/
def flush (W : Write ω ε) (E : Errors ε) (b : BufWriter ω) : Outcome ω ε Unit :=
  (flushBuf W E b).map fun
    | (.error e,b) => (.error e,b)
    | (.ok (),b) =>
      let (result,writer) := W.flush b.writer
      (result,{ b with writer })

/-- `Write::write`. -/
def write (W : Write ω ε) (E : Errors ε) (b : BufWriter ω) (buf : List UInt8) : Outcome ω ε Nat :=
  b.spareCapacity.bind fun spare =>
    if 0 < spare then (b.writeBuffered buf).map fun (wrote,b) => (.ok wrote,b)
    else (flushBuf W E b).bind fun
      | (.error e,b) => some (.error e,b)
      | (.ok (),b) =>
        if b.data.length ≤ buf.length then
          let (result,writer) := W.write b.writer buf
          some (result,{ b with writer })
        else (b.writeBuffered buf).map fun (wrote,b) => (.ok wrote,b)

/-- What the methods give that read from a reader: also its new state. -/
abbrev PipeOutcome (ω ρ ε : Type) := Option (Except ε Nat × ρ × BufWriter ω)

/-- The read of `pipe_from_once`, into the end of the buffer. -/
def pipeRead (R : Read ρ ε) (b : BufWriter ω) (reader : ρ) : PipeOutcome ω ρ ε :=
  (Slice.range b.data b.stop b.data.length).bind fun buf =>
    let (result,buf,reader) := R.read reader buf
    let b := { b with data := Slice.splice b.data b.stop buf }
    match result with
    | .error e => some (.error e,reader,b)
    | .ok read => (lengthCheck buf read).bind fun len =>
        (add b.stop len).map fun stop => (.ok read,reader,{ b with stop })

/-- `pipe_from_once`. -/
def pipeFromOnce (W : Write ω ε) (E : Errors ε) (R : Read ρ ε) (b : BufWriter ω) (reader : ρ) :
    PipeOutcome ω ρ ε :=
  b.spareCapacity.bind fun spare =>
    if spare = 0 then (flush W E b).bind fun
      | (.error e,b) => some (.error e,reader,b)
      | (.ok (),b) => pipeRead R b reader
    else pipeRead R b reader

/-- `pipe_from`, if its loop has ended within `rounds`. -/
def pipeFrom (W : Write ω ε) (E : Errors ε) (R : Read ρ ε) :
    (rounds total : Nat) → BufWriter ω → ρ → PipeOutcome ω ρ ε
  | 0,_,_,_ => none
  | rounds + 1,total,b,reader => (pipeFromOnce W E R b reader).bind fun
      | (.ok read,reader,b) =>
        if read = 0 then some (.ok total,reader,b)
        else (add total read).bind fun total => pipeFrom W E R rounds total b reader
      | (.error e,reader,b) =>
        if E.isInterrupted e then some (.ok total,reader,b) else some (.error e,reader,b)

/-- `stream_position`. -/
def streamPosition (K : Seek ω ε) (b : BufWriter ω) : Outcome ω ε UInt64 :=
  let (result,writer) := K.streamPosition b.writer
  let b := { b with writer }
  match result with
  | .error e => some (.error e,b)
  | .ok pos => (add pos.toNat b.data.length).map fun pos => (.ok (.ofNat pos),b)

/-- `seek_inner`. -/
def seekInner (W : Write ω ε) (E : Errors ε) (K : Seek ω ε) (b : BufWriter ω) (seek : SeekFrom) :
    Outcome ω ε UInt64 :=
  (flushBuf W E b).map fun
    | (.error e,b) => (.error e,b)
    | (.ok (),b) =>
      let (pos,writer) := K.seek b.writer seek
      (pos,{ b with writer })

/-- `seek_relative`. -/
def seekRelative (W : Write ω ε) (E : Errors ε) (K : Seek ω ε) (b : BufWriter ω) (rel : Int64) :
    Outcome ω ε UInt64 :=
  match checkedI64 (rel.toInt + b.start) with
  | none => seekInner W E K b (.current rel)
  | some pos =>
    if pos.toInt < (Int64.ofNat b.start).toInt ∨ (Int64.ofNat b.stop).toInt < pos.toInt then
      seekInner W E K b (.current rel)
    else streamPosition K { b with stop := pos.toInt.toNat }

/-- `seek_abs`. -/
def seekAbs (W : Write ω ε) (E : Errors ε) (K : Seek ω ε) (b : BufWriter ω) (abs : UInt64)
    (seek : SeekFrom) : Outcome ω ε UInt64 :=
  (streamPosition K b).bind fun
    | (.error e,b) => some (.error e,b)
    | (.ok streamPos,b) =>
      match checkedSignedDiff abs streamPos with
      | some rel => seekRelative W E K b rel
      | none => seekInner W E K b seek

/-- `Seek::seek`. -/
def seek (W : Write ω ε) (E : Errors ε) (K : Seek ω ε) (b : BufWriter ω) (seek : SeekFrom) :
    Outcome ω ε UInt64 :=
  match seek with
  | .current pos => seekRelative W E K b pos
  | .start pos =>
    if K.streamPositionFast b.writer then seekAbs W E K b pos seek else seekInner W E K b seek
  | .end_ pos =>
    if K.streamPositionFast b.writer = false then seekInner W E K b seek
    else if K.streamLenFast b.writer = false then seekInner W E K b seek
    else
      match K.streamLen b.writer with
      | (.error e,writer) => some (.error e,{ b with writer })
      | (.ok len,writer) =>
        (checkedAddSigned len pos).bind fun newPos => seekAbs W E K { b with writer } newPos seek

end BufWriter
end XxCore.Io
