import XxCore.Io.Read

/-! The buffered reader (`async_std/io/buf_reader.rs`). Each method gives the new state and what
it returns, or `none` where the code panics. -/
namespace XxCore.Io

/-- `buffered` is the range from `start` to `stop`. -/
structure BufReader (ρ : Type) where
  data : List UInt8
  start : Nat
  stop : Nat
  reader : ρ

/-- `Vec<u8>`: its elements, and the size of its allocation. -/
structure Vec where
  bytes : List UInt8
  capacity : Nat
  fits : bytes.length ≤ capacity
  bounded : capacity ≤ isizeMax

/-- An allocation that was made has at most `isize::MAX` bytes. -/
theorem Vec.allocated_bounded {requested allocated : Nat}
    (fits : requested ≤ allocated ∧ allocated ≤ isizeMax) : allocated ≤ isizeMax :=
  fits.2

namespace BufReader

variable {ρ ε : Type}

/-- `from_parts`. -/
def fromParts (reader : ρ) (buf : Vec) (pos : Nat) : Option (BufReader ρ) :=
  if pos ≤ buf.bytes.length then
    some ⟨buf.bytes ++ List.replicate (buf.capacity - buf.bytes.length) 0,pos,buf.bytes.length,reader⟩
  else none

/-- `with_capacity`, given the capacity that `Vec::with_capacity` has allocated, which is at least
the one that was asked for; it panics if there is none. -/
def withCapacity (reader : ρ) (requested allocated : Nat) : Option (BufReader ρ) :=
  if fits : requested ≤ allocated ∧ allocated ≤ isizeMax then
    fromParts reader ⟨[],allocated,Nat.zero_le _,Vec.allocated_bounded fits⟩ 0
  else none

/-- What an `async` method gives. -/
abbrev Outcome (ρ ε α : Type) := Option (Except ε α × BufReader ρ)

def capacity (b : BufReader ρ) : Nat := b.data.length

def spareCapacity (b : BufReader ρ) : Option Nat := sub b.data.length b.stop

def buffer (b : BufReader ρ) : List UInt8 := (b.data.take b.stop).drop b.start

def position (b : BufReader ρ) : Nat := b.start

def discard (b : BufReader ρ) : BufReader ρ := { b with start := 0, stop := 0 }

def consume (b : BufReader ρ) (count : Nat) : Option (BufReader ρ) :=
  if count ≤ b.buffer.length then (add b.start count).map fun start => { b with start } else none

def unconsume (b : BufReader ρ) (count : Nat) : Option (BufReader ρ) :=
  (sub b.start count).map fun start => { b with start }

/-- `read_into`: the number of bytes read, the caller's slice and the new state. -/
def readInto (b : BufReader ρ) (buf : List UInt8) : Option (Nat × List UInt8 × BufReader ρ) :=
  let (len,buf) := readIntoSlice buf b.buffer
  (add b.start len).map fun start => (len,buf,{ b with start })

/-- `fill_buf_range`. -/
def fillBufRange (R : Read ρ ε) (b : BufReader ρ) (lo hi : Nat) : Outcome ρ ε Nat :=
  (Slice.range b.data lo hi).bind fun buf =>
    let (result,buf,reader) := R.read b.reader buf
    let b := { b with data := Slice.splice b.data lo buf, reader }
    match result with
    | .error e => some (.error e,b)
    | .ok read =>
      if read = 0 then some (.ok read,b)
      else (lengthCheck buf read).bind fun len =>
        (add lo len).map fun stop => (.ok read,{ b with stop })

/-- `self.buffered.start = 0`, if something was read. -/
def rewindIfRead : Except ε Nat × BufReader ρ → Except ε Nat × BufReader ρ
  | (.ok read,b) => if read = 0 then (.ok read,b) else (.ok read,{ b with start := 0 })
  | (.error e,b) => (.error e,b)

/-- `fill_buf`. -/
def fillBuf (R : Read ρ ε) (b : BufReader ρ) : Outcome ρ ε Nat :=
  (fillBufRange R b 0 b.data.length).map rewindIfRead

/-- What `Read::read` gives, with the caller's slice. -/
abbrev ReadOutcome (ρ ε : Type) := Option (Except ε Nat × List UInt8 × BufReader ρ)

/-- `read_cold`. -/
def readCold (R : Read ρ ε) (b : BufReader ρ) (buf : List UInt8) : ReadOutcome ρ ε :=
  if b.capacity ≤ buf.length then
    let (result,buf,reader) := R.read b.reader buf
    some (result,buf,{ b with reader })
  else (fillBuf R b).bind fun
    | (.error e,b) => some (.error e,buf,b)
    | (.ok read,b) =>
      if read = 0 then some (.ok 0,buf,b)
      else (b.readInto buf).map fun (len,buf,b) => (.ok len,buf,b)

/-- `Read::read`. -/
def read (R : Read ρ ε) (b : BufReader ρ) (buf : List UInt8) : ReadOutcome ρ ε :=
  if b.buffer.isEmpty then readCold R b buf
  else (b.readInto buf).map fun (len,buf,b) => (.ok len,buf,b)

/-- `move_data_to_beginning`. -/
def moveDataToBeginning (b : BufReader ρ) : Option (BufReader ρ) :=
  if b.start = 0 then some b
  else
    let len := b.buffer.length
    if len = 0 then some b.discard
    else (Slice.copyWithin b.data b.start b.stop 0).map fun data =>
      { b with data, start := 0, stop := len }

/-- The end of `fill_amount`, after its range was chosen. -/
def fillFrom (R : Read ρ ε) (b : BufReader ρ) (lo hi : Nat) : Outcome ρ ε Nat :=
  (fillBufRange R b lo hi).map fun next => if lo = 0 then rewindIfRead next else next

/-- `fill_amount`. -/
def fillAmount (R : Read ρ ε) (b : BufReader ρ) (amount : Nat) : Outcome ρ ε Nat :=
  if amount ≤ b.capacity then
    (add b.start amount).bind fun hi =>
      if hi ≤ b.stop then some (.ok 0,b)
      else if b.capacity < hi then
        -- `Range::is_empty`
        if b.stop ≤ b.start then fillFrom R b 0 amount
        else b.moveDataToBeginning.bind fun b =>
          b.spareCapacity.bind fun spare =>
            if spare = 0 then some (.ok 0,b) else fillFrom R b b.stop amount
      else fillFrom R b b.stop hi
  else none

/-- `BufRead::fill`. -/
def fill (R : Read ρ ε) (b : BufReader ρ) : Outcome ρ ε Nat := fillAmount R b b.capacity

/-- `stream_position`. -/
def streamPosition (K : Seek ρ ε) (b : BufReader ρ) : Outcome ρ ε UInt64 :=
  let (result,reader) := K.streamPosition b.reader
  let b := { b with reader }
  match result with
  | .error e => some (.error e,b)
  | .ok pos => (sub pos.toNat b.buffer.length).map fun pos => (.ok (.ofNat pos),b)

/-- The seek of the reader in `seek_inner`, after which the buffer is discarded. -/
def seekReader (K : Seek ρ ε) (b : BufReader ρ) (seek : SeekFrom) : Outcome ρ ε UInt64 :=
  let (pos,reader) := K.seek b.reader seek
  some (pos,{ b with reader }.discard)

/-- `seek_inner`. -/
def seekInner (K : Seek ρ ε) (b : BufReader ρ) (seek : SeekFrom) : Outcome ρ ε UInt64 :=
  match seek with
  | .current pos =>
    let remainder := Int64.ofNat b.buffer.length
    match checkedI64 (pos.toInt - remainder.toInt) with
    | some p => seekReader K b (.current p)
    | none =>
      match K.seek b.reader (.current (-remainder)) with
      | (.error e,reader) => some (.error e,{ b with reader })
      | (.ok _,reader) => seekReader K { b with reader } (.current pos)
  | seek => seekReader K b seek

/-- `seek_relative`. -/
def seekRelative (K : Seek ρ ε) (b : BufReader ρ) (rel : Int64) : Outcome ρ ε UInt64 :=
  match checkedI64 (rel.toInt + b.start) with
  | none => seekInner K b (.current rel)
  | some pos =>
    if pos.toInt < 0 ∨ (Int64.ofNat b.stop).toInt < pos.toInt then seekInner K b (.current rel)
    else streamPosition K { b with start := pos.toInt.toNat }

/-- `seek_abs`. -/
def seekAbs (K : Seek ρ ε) (b : BufReader ρ) (abs : UInt64) (seek : SeekFrom) :
    Outcome ρ ε UInt64 :=
  (streamPosition K b).bind fun
    | (.error e,b) => some (.error e,b)
    | (.ok streamPos,b) =>
      match checkedSignedDiff abs streamPos with
      | some rel => seekRelative K b rel
      | none => seekInner K b seek

/-- `Seek::seek`. -/
def seek (K : Seek ρ ε) (b : BufReader ρ) (seek : SeekFrom) : Outcome ρ ε UInt64 :=
  match seek with
  | .current pos => seekRelative K b pos
  | .start pos =>
    if K.streamPositionFast b.reader then seekAbs K b pos seek else seekInner K b seek
  | .end_ pos =>
    if K.streamPositionFast b.reader = false then seekInner K b seek
    else if K.streamLenFast b.reader = false then seekInner K b seek
    else
      match K.streamLen b.reader with
      | (.error e,reader) => some (.error e,{ b with reader })
      | (.ok len,reader) =>
        (checkedAddSigned len pos).bind fun newPos => seekAbs K { b with reader } newPos seek

end BufReader
end XxCore.Io
