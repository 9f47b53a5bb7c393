import XxCore.Lib.ByteValue
import XxCore.Lib.Slice
import XxCore.Os.Error

/-! The directory entries of `os/dirent.rs`: the records that `getdents64` leaves in a buffer, and the
walk over them. -/
namespace XxCore.Os

inductive FileType where
  | unknown
  | fifo
  | character
  | directory
  | block
  | regular
  | link
  | socket
  | wht
  deriving DecidableEq, Repr

def FileType.fromU8 (ty : UInt8) : Option FileType :=
  match ty.toNat with
  | 0 => some .unknown
  | 1 => some .fifo
  | 2 => some .character
  | 4 => some .directory
  | 6 => some .block
  | 8 => some .regular
  | 10 => some .link
  | 12 => some .socket
  | 14 => some .wht
  | _ => none

/-- `off` are the bits of an `i64`. -/
structure DirentDef (T : Type) where
  ino : BitVec 64
  off : BitVec 64
  reclen : BitVec 16
  ty : UInt8
  name : T

def DirentDef.fileType (d : DirentDef T) : Option FileType := FileType.fromU8 d.ty

structure DirEnts where
  buf : List UInt8
  offset : Nat
  len : Nat
  eof : Bool

/-- The system call: its result, the buffer after it and the directory. -/
abbrev Getdents64 (σ : Type) := σ → List UInt8 → OsResult Nat × List UInt8 × σ

/-- `CStr::from_ptr`; `none` if no byte up to the end of the buffer is 0. -/
def cStrFromPtr (buf : List UInt8) (at_ : Nat) : Option (List UInt8) :=
  if 0 ∈ buf.drop at_ then some ((buf.drop at_).takeWhile (· ≠ 0)) else none

namespace DirEnts

def new (size : Nat) : DirEnts := ⟨List.replicate size 0,0,0,false⟩

def newFromBlockSize (size : Nat) : DirEnts := new (min (max size 0x8000) 0x100000)

def hasNextCached (d : DirEnts) : Bool := decide (d.offset < d.len)

def readFromFd (getdents64 : Getdents64 σ) (fd : σ) (d : DirEnts) : OsResult Unit × DirEnts × σ :=
  let d := { d with offset := 0, len := 0 }
  if d.eof then (.ok (),d,fd)
  else
    let (result,buf,fd) := getdents64 fd d.buf
    let d := { d with buf }
    let finish (count : Nat) : OsResult Unit × DirEnts × σ :=
      (.ok (),{ d with eof := if count = 0 then true else d.eof, len := count },fd)
    match result with
    | .ok n => finish n
    | .error err => if err = .noEnt then finish 0 else (.error err,d,fd)

/-- `next_entry`; `none` if it reads behind the end of the buffer. A `DirentDef<u8>` has 24 bytes,
and its name starts at the 19th. -/
def nextEntry (d : DirEnts) : Option (Option (DirentDef (List UInt8)) × DirEnts) :=
  if d.hasNextCached then do
    let header ← Slice.range d.buf d.offset (d.offset + 24)
    let reclen := BitVec.ofNat 16 (ByteValue.ofLe ((header.drop 16).take 2))
    let name ← cStrFromPtr d.buf (d.offset + 19)
    some (some {
      ino := BitVec.ofNat 64 (ByteValue.ofLe (header.take 8))
      off := BitVec.ofNat 64 (ByteValue.ofLe ((header.drop 8).take 8))
      reclen
      ty := header.getD 18 0
      name },{ d with offset := d.offset + reclen.toNat })
  else some (none,d)

end DirEnts

/-- `fd` is the open directory. -/
structure ReadDir (σ : Type) where
  fd : σ
  entries : DirEnts

/-- What `ReadDir::next_entry` returns. -/
abbrev NextEntry := OsResult (Option (DirentDef (List UInt8)))

/-- `next_entry` after it has read, if it had to. -/
def ReadDir.afterRead : OsResult Unit × DirEnts × σ →
    Option (NextEntry × ReadDir σ)
  | (.error err,entries,fd) => some (.error err,⟨fd,entries⟩)
  | (.ok (),entries,fd) => entries.nextEntry.map fun (entry,entries) => (.ok entry,⟨fd,entries⟩)

def ReadDir.nextEntry (getdents64 : Getdents64 σ) (r : ReadDir σ) :
    Option (NextEntry × ReadDir σ) :=
  afterRead <|
    if !r.entries.hasNextCached then r.entries.readFromFd getdents64 r.fd else (.ok (),r.entries,r.fd)

/-! What the kernel writes. -/

/-- An entry of a directory. Its record ends with bytes that mean nothing, so that it has at least
24 bytes. -/
structure Record where
  ino : BitVec 64
  off : BitVec 64
  ty : UInt8
  name : List UInt8
  pad : List UInt8
  terminated : 0 ∉ name
  large : 24 ≤ 20 + name.length + pad.length
  small : 20 + name.length + pad.length < 2 ^ 16

namespace Record

def reclen (r : Record) : Nat := 20 + r.name.length + r.pad.length

/-- The fields before the name. -/
def header (r : Record) : List UInt8 :=
  ByteValue.toLe 8 r.ino.toNat ++
    (ByteValue.toLe 8 r.off.toNat ++ (ByteValue.toLe 2 r.reclen ++ [r.ty]))

def bytes (r : Record) : List UInt8 := r.header ++ (r.name ++ 0 :: r.pad)

/-- The entry that the record stands for. -/
def entry (r : Record) : DirentDef (List UInt8) := ⟨r.ino,r.off,BitVec.ofNat 16 r.reclen,r.ty,r.name⟩

@[simp] theorem length_header (r : Record) : r.header.length = 19 := by simp [header]

@[simp] theorem length_bytes (r : Record) : r.bytes.length = r.reclen := by
  simp only [bytes,reclen,List.length_append,length_header,List.length_cons]
  omega

theorem reclen_pos (r : Record) : 0 < r.reclen := by
  have := r.large
  rw [reclen]
  omega

end Record

/-- The block of some records. -/
def block (records : List Record) : List UInt8 := records.flatMap Record.bytes

@[simp] theorem block_cons (r : Record) (records : List Record) :
    block (r :: records) = r.bytes ++ block records := rfl

/-- How the kernel answers a call. -/
inductive Reply where
  | entries (records : List Record)
  | fails (err : OsError)

/-- The kernel answers calls by the replies that are left, as long as there are any. A block is
written to the front of a buffer that it fits into. -/
structure Serves (getdents64 : Getdents64 σ) (left : σ → List Reply) : Prop where
  length : ∀ fd buf, (getdents64 fd buf).2.1.length = buf.length
  fails : ∀ fd buf err rest, left fd = .fails err :: rest →
    (getdents64 fd buf).1 = .error err ∧ left (getdents64 fd buf).2.2 = rest
  entries : ∀ fd buf records rest, left fd = .entries records :: rest →
    (block records).length ≤ buf.length → (getdents64 fd buf).1 = .ok (block records).length ∧
      (∃ behind, (getdents64 fd buf).2.1 = block records ++ behind) ∧
      left (getdents64 fd buf).2.2 = rest

/-- A reply that the walk goes on after, with a buffer of a size. -/
def Reply.More (size : Nat) : Reply → Prop
  | .entries records => records ≠ [] ∧ (block records).length ≤ size
  | .fails err => err ≠ .noEnt

/-- The reply at the end of a directory, or of one that was removed. -/
def Reply.Last : Reply → Prop
  | .entries records => records = []
  | .fails err => err = .noEnt

/-- What `next_entry` returns for a reply. -/
def Reply.results : Reply → List (NextEntry)
  | .entries records => records.map fun r => .ok (some r.entry)
  | .fails err => [.error err]

def results (replies : List Reply) : List (NextEntry) :=
  replies.flatMap Reply.results

/-- Calls of `next_entry`, one after the other. -/
def ReadDir.calls (getdents64 : Getdents64 σ) :
    Nat → ReadDir σ → Option (List (NextEntry) × ReadDir σ)
  | 0,r => some ([],r)
  | n + 1,r => (r.nextEntry getdents64).bind fun (result,r) =>
    (ReadDir.calls getdents64 n r).map fun (results,r) => (result :: results,r)

theorem cStrFromPtr_eq {name rest front : List UInt8} (terminated : 0 ∉ name) :
    cStrFromPtr (front ++ (name ++ 0 :: rest)) front.length = some name := by
  rw [cStrFromPtr,List.drop_left,if_pos (by simp)]
  rw [List.takeWhile_append_of_pos (by
    intro b mem
    have other : b ≠ 0 := fun is => terminated (is ▸ mem)
    simpa using other)]
  simp

theorem Record.fields (r : Record) (behind : List UInt8) :
    (r.header ++ behind).take 8 = ByteValue.toLe 8 r.ino.toNat ∧
      ((r.header ++ behind).drop 8).take 8 = ByteValue.toLe 8 r.off.toNat ∧
      ((r.header ++ behind).drop 16).take 2 = ByteValue.toLe 2 r.reclen ∧
      (r.header ++ behind).getD 18 0 = r.ty := by
  refine ⟨?_,?_,?_,?_⟩
  · simp [header]
  · simp [header]
  · simp [header,List.take_append,List.drop_append]
  · simp [header,List.getElem?_append]

theorem ofNat_ofLe_toLe {w size : Nat} (x : BitVec w) (wide : w ≤ 8 * size) :
    BitVec.ofNat w (ByteValue.ofLe (ByteValue.toLe size x.toNat)) = x := by
  have lt : x.toNat < 256 ^ size := by
    rw [ByteValue.pow_256]
    exact Nat.lt_of_lt_of_le x.isLt (Nat.pow_le_pow_right (by decide) wide)
  rw [ByteValue.ofLe_toLe,Nat.mod_eq_of_lt lt,BitVec.ofNat_toNat,BitVec.setWidth_eq]

/-- A record is read back as its entry. -/
theorem DirEnts.nextEntry_record {d : DirEnts} {before after : List UInt8} {r : Record}
    (buf : d.buf = before ++ (r.bytes ++ after)) (at_ : d.offset = before.length)
    (cached : d.offset < d.len) :
    d.nextEntry = some (some r.entry,{ d with offset := d.offset + r.reclen }) := by
  have large := r.large
  have small := r.small
  have header : Slice.range d.buf d.offset (d.offset + 24) =
      some (r.header ++ ((r.name ++ 0 :: r.pad) ++ after).take 5) := by
    rw [Slice.range,if_pos (by simp [buf,at_,Record.reclen]; omega),buf,at_,List.take_length_add_append,
      List.drop_left,Record.bytes,List.append_assoc,List.take_append,Record.length_header,
      List.take_of_length_le (by simp)]
  have name : cStrFromPtr d.buf (d.offset + 19) = some r.name := by
    have split : d.buf = (before ++ r.header) ++ (r.name ++ 0 :: (r.pad ++ after)) := by
      simp [buf,Record.bytes]
    have length : d.offset + 19 = (before ++ r.header).length := by simp [at_]
    rw [split,length]
    exact cStrFromPtr_eq r.terminated
  obtain ⟨ino,off,reclen,ty⟩ := r.fields (((r.name ++ 0 :: r.pad) ++ after).take 5)
  have lt : r.reclen < 2 ^ 16 := small
  have size : ByteValue.ofLe (ByteValue.toLe 2 r.reclen) = r.reclen := by
    rw [ByteValue.ofLe_toLe,ByteValue.pow_256,Nat.mod_eq_of_lt lt]
  have word : (BitVec.ofNat 16 r.reclen).toNat = r.reclen := by
    rw [BitVec.toNat_ofNat,Nat.mod_eq_of_lt lt]
  rw [nextEntry,if_pos (by simpa [hasNextCached] using cached),header,name]
  simp only [Bind.bind,Option.bind,ino,off,reclen,ty,size,word,
    ofNat_ofLe_toLe r.ino (show 64 ≤ 8 * 8 by decide),
    ofNat_ofLe_toLe r.off (show 64 ≤ 8 * 8 by decide)]
  rfl

section Run

variable {σ : Type} {getdents64 : Getdents64 σ} {left : σ → List Reply} {r : ReadDir σ}
  {size : Nat} {cached : List Record} {steps : List Reply} {last : Reply} {rest : List Reply}

/-- The walk is at some records of a block that it has not returned yet, and then at some replies
that the kernel has not given yet. -/
structure Walking (left : σ → List Reply) (size : Nat) (r : ReadDir σ) (cached : List Record)
    (replies : List Reply) : Prop where
  going : r.entries.eof = false
  size : r.entries.buf.length = size
  buffer : ∃ before behind, r.entries.buf = before ++ (block cached ++ behind) ∧
    r.entries.offset = before.length ∧ r.entries.len = before.length + (block cached).length
  left : left r.fd = replies

/-- The walk is over, and the kernel has not been asked since. -/
structure Ended (left : σ → List Reply) (r : ReadDir σ) (rest : List Reply) : Prop where
  eof : r.entries.eof = true
  empty : r.entries.len = 0
  left : left r.fd = rest

variable (getdents64) in
theorem Ended.next (ended : Ended left r rest) :
    ∃ r', r.nextEntry getdents64 = some (.ok none,r') ∧ Ended left r' rest := by
  refine ⟨⟨r.fd,{ r.entries with offset := 0, len := 0 }⟩,?_,ended.eof,rfl,ended.left⟩
  simp [ReadDir.nextEntry,ReadDir.afterRead,DirEnts.hasNextCached,DirEnts.readFromFd,DirEnts.nextEntry,
    ended.eof,ended.empty]

theorem Walking.cached_iff (walking : Walking left size r cached steps) :
    r.entries.hasNextCached = true ↔ cached ≠ [] := by
  obtain ⟨before,behind,_,at_,len⟩ := walking.buffer
  rw [DirEnts.hasNextCached,decide_eq_true_eq,at_,len]
  cases cached with
  | nil => simp [block]
  | cons record cached =>
    have := record.reclen_pos
    simp only [block_cons,List.length_append,Record.length_bytes,ne_eq,reduceCtorEq,not_false_eq_true,
      iff_true]
    omega

/-- The next record of the block is returned. -/
theorem Walking.take {record : Record} (walking : Walking left size r (record :: cached) steps) :
    ∃ entries, r.entries.nextEntry = some (some record.entry,entries) ∧
      Walking left size ⟨r.fd,entries⟩ cached steps := by
  obtain ⟨before,behind,buf,at_,len⟩ := walking.buffer
  have next : r.entries.offset < r.entries.len := by
    simpa [DirEnts.hasNextCached] using walking.cached_iff.mpr (List.cons_ne_nil _ _)
  rw [block_cons,List.append_assoc] at buf
  rw [block_cons,List.length_append,Record.length_bytes] at len
  refine ⟨_,DirEnts.nextEntry_record buf at_ next,walking.going,walking.size,
    ⟨before ++ record.bytes,behind,?_,?_,?_⟩,walking.left⟩
  · rw [buf,List.append_assoc]
  · simp [at_]
  · simp only [len,List.length_append,Record.length_bytes]
    omega

variable (getdents64) in
theorem Walking.nextEntry_cached {record : Record}
    (walking : Walking left size r (record :: cached) steps) :
    ∃ r', r.nextEntry getdents64 = some (.ok (some record.entry),r') ∧
      Walking left size r' cached steps := by
  obtain ⟨entries,next,walking'⟩ := walking.take
  refine ⟨_,?_,walking'⟩
  simp [ReadDir.nextEntry,ReadDir.afterRead,walking.cached_iff.mpr (List.cons_ne_nil _ _),next]

/-- The buffer is empty, and the kernel is asked. -/
theorem Walking.nextEntry_read (walking : Walking left size r [] steps) :
    r.nextEntry getdents64 = ReadDir.afterRead (r.entries.readFromFd getdents64 r.fd) := by
  have empty : r.entries.hasNextCached = false := by
    rw [← Bool.not_eq_true,walking.cached_iff]
    simp
  rw [ReadDir.nextEntry,empty]
  rfl

theorem Walking.nextEntry_fails (serves : Serves getdents64 left) {err : OsError}
    (walking : Walking left size r [] (.fails err :: steps)) (more : err ≠ .noEnt) :
    ∃ r', r.nextEntry getdents64 = some (.error err,r') ∧ Walking left size r' [] steps := by
  obtain ⟨result,rest⟩ := serves.fails r.fd r.entries.buf err steps walking.left
  rw [walking.nextEntry_read,DirEnts.readFromFd]
  simp only [walking.going,Bool.false_eq_true,if_false,result,if_neg more]
  exact ⟨_,rfl,rfl,(serves.length _ _).trans walking.size,⟨[],_,rfl,rfl,rfl⟩,rest⟩

theorem Walking.nextEntry_entries (serves : Serves getdents64 left) {record : Record}
    {records : List Record} (walking : Walking left size r [] (.entries (record :: records) :: steps))
    (fits : (block (record :: records)).length ≤ size) :
    ∃ r', r.nextEntry getdents64 = some (.ok (some record.entry),r') ∧
      Walking left size r' records steps := by
  obtain ⟨result,⟨behind,buf⟩,rest⟩ := serves.entries r.fd r.entries.buf _ _ walking.left (by
    rwa [walking.size])
  have some_ : (block (record :: records)).length ≠ 0 := by
    have := record.reclen_pos
    rw [block_cons,List.length_append,Record.length_bytes]
    omega
  have filled : Walking left size ⟨(getdents64 r.fd r.entries.buf).2.2,
      (getdents64 r.fd r.entries.buf).2.1,0,(block (record :: records)).length,false⟩
      (record :: records) steps :=
    ⟨rfl,(serves.length _ _).trans walking.size,⟨[],behind,buf,rfl,by simp⟩,rest⟩
  obtain ⟨entries,next,walking'⟩ := filled.take
  rw [walking.nextEntry_read,DirEnts.readFromFd]
  simp only [walking.going,Bool.false_eq_true,if_false,result,if_neg some_]
  rw [ReadDir.afterRead,next]
  exact ⟨_,rfl,walking'⟩

theorem Walking.nextEntry_last (serves : Serves getdents64 left)
    (walking : Walking left size r [] (last :: rest)) (ends : last.Last) :
    ∃ r', r.nextEntry getdents64 = some (.ok none,r') ∧ Ended left r' rest := by
  rw [walking.nextEntry_read,DirEnts.readFromFd]
  cases last with
  | entries records =>
    obtain rfl : records = [] := ends
    obtain ⟨result,_,remains⟩ := serves.entries r.fd r.entries.buf _ _ walking.left (by simp [block])
    simp only [walking.going,Bool.false_eq_true,if_false,result]
    exact ⟨_,rfl,rfl,rfl,remains⟩
  | fails err =>
    obtain rfl : err = .noEnt := ends
    obtain ⟨result,remains⟩ := serves.fails r.fd r.entries.buf _ _ walking.left
    simp only [walking.going,Bool.false_eq_true,if_false,result]
    exact ⟨_,rfl,rfl,rfl,remains⟩

variable (getdents64) in
theorem Ended.calls (ended : Ended left r rest) (n : Nat) : ∃ r',
    r.calls getdents64 n = some (List.replicate n (.ok none),r') ∧ Ended left r' rest := by
  induction n generalizing r with
  | zero => exact ⟨r,rfl,ended⟩
  | succ n ih =>
    obtain ⟨r',next,ended⟩ := ended.next getdents64
    obtain ⟨r'',more,ended⟩ := ih ended
    exact ⟨r'',by simp [ReadDir.calls,next,more,List.replicate_succ],ended⟩

theorem take_padded (l : List α) (n : Nat) (a : α) :
    (l ++ List.replicate (n + 1) a).take n = (l ++ List.replicate n a).take n := by
  rw [List.replicate_succ',← List.append_assoc]
  exact List.take_append_of_le_length (by simp)

/-- One call, followed by others. -/
theorem calls_succ {n : Nat} {r' r'' : ReadDir σ} {result : NextEntry}
    {results : List (NextEntry)}
    (next : r.nextEntry getdents64 = some (result,r'))
    (calls : r'.calls getdents64 n = some (results,r'')) :
    r.calls getdents64 (n + 1) = some (result :: results,r'') := by
  simp [ReadDir.calls,next,calls]

/-- The calls return what the replies say, in order, and then that there are no more entries. By
induction on the number of calls. -/
theorem Walking.calls (serves : Serves getdents64 left) (more : ∀ reply ∈ steps, reply.More size)
    (ends : last.Last) (n : Nat) (walking : Walking left size r cached (steps ++ last :: rest)) :
    ∃ r', r.calls getdents64 n =
        some ((results (.entries cached :: steps) ++
          List.replicate n (.ok none : NextEntry)).take n,r') ∧
      ((results (.entries cached :: steps)).length < n → Ended left r' rest) := by
  induction n generalizing r cached steps with
  | zero => exact ⟨r,by simp [ReadDir.calls],by simp⟩
  | succ n ih =>
    -- The first result, and the walk from there.
    suffices step : ∃ r' result, r.nextEntry getdents64 = some (result,r') ∧
        ((∃ cached' steps', (∀ reply ∈ steps', reply.More size) ∧
          Walking left size r' cached' (steps' ++ last :: rest) ∧
          results (.entries cached :: steps) = result :: results (.entries cached' :: steps')) ∨
        Ended left r' rest ∧ result = .ok none ∧ results (.entries cached :: steps) = []) by
      obtain ⟨r',result,next,⟨cached',steps',more',walking',is⟩ | ⟨ended,rfl,is⟩⟩ := step
      · obtain ⟨r'',calls,done⟩ := ih more' walking'
        refine ⟨r'',?_,fun lt => done (by rw [is,List.length_cons] at lt; omega)⟩
        rw [calls_succ next calls,is,List.cons_append,List.take_succ_cons,take_padded]
      · obtain ⟨r'',calls,ended⟩ := ended.calls getdents64 n
        refine ⟨r'',?_,fun _ => ended⟩
        rw [calls_succ next calls,is,List.nil_append,List.replicate_succ,List.take_succ_cons]
        simp
    cases cached with
    | cons record cached =>
      obtain ⟨r',next,walking'⟩ := walking.nextEntry_cached getdents64
      exact ⟨r',_,next,.inl ⟨cached,steps,more,walking',rfl⟩⟩
    | nil =>
      cases steps with
      | nil =>
        obtain ⟨r',next,ended⟩ := walking.nextEntry_last serves ends
        exact ⟨r',_,next,.inr ⟨ended,rfl,rfl⟩⟩
      | cons reply steps =>
        have first := more reply (by simp)
        have later : ∀ reply ∈ steps, reply.More size := fun reply mem => more reply (by simp [mem])
        cases reply with
        | fails err =>
          obtain ⟨r',next,walking'⟩ := walking.nextEntry_fails serves first
          exact ⟨r',_,next,.inl ⟨[],steps,later,walking',rfl⟩⟩
        | entries records =>
          cases records with
          | nil => exact absurd rfl first.1
          | cons record records =>
            obtain ⟨r',next,walking'⟩ := walking.nextEntry_entries serves first.2
            exact ⟨r',_,next,.inl ⟨records,steps,later,walking',rfl⟩⟩

end Run

/-- A walk over a directory returns its entries, of all the blocks in the order of the kernel, and
the errors of the system call where they occur; after the last block every call says that there is
no entry, and the kernel is not asked again. No call reads behind the end of the buffer. -/
theorem readDir_all {σ : Type} {getdents64 : Getdents64 σ} {left : σ → List Reply}
    (serves : Serves getdents64 left) {blockSize : Nat} {steps : List Reply} {last : Reply}
    {rest : List Reply} {fd : σ}
    (more : ∀ reply ∈ steps, reply.More (DirEnts.newFromBlockSize blockSize).buf.length)
    (ends : last.Last) (start : left fd = steps ++ last :: rest) (n : Nat) :
    ∃ r', (⟨fd,.newFromBlockSize blockSize⟩ : ReadDir σ).calls getdents64 n =
        some ((results steps ++ List.replicate n (.ok none : NextEntry)).take n,r') ∧
      ((results steps).length < n → left r'.fd = rest) := by
  have walking : Walking left (DirEnts.newFromBlockSize blockSize).buf.length
      ⟨fd,.newFromBlockSize blockSize⟩ [] (steps ++ last :: rest) :=
    ⟨rfl,rfl,⟨[],_,rfl,rfl,rfl⟩,start⟩
  obtain ⟨r',calls,done⟩ := walking.calls serves more ends n
  exact ⟨r',calls,fun lt => (done lt).left⟩

/-- A directory that gives its replies one after the other. -/
def replies : Getdents64 (List Reply) := fun fd buf =>
  match fd with
  | [] => (.error .inval,buf,[])
  | .fails err :: rest => (.error err,buf,rest)
  | .entries records :: rest =>
    if (block records).length ≤ buf.length then
      (.ok (block records).length,block records ++ buf.drop (block records).length,rest)
    else (.error .inval,buf,.entries records :: rest)

theorem replies_serves : Serves replies id := by
  refine ⟨fun fd buf => ?_,fun fd buf err rest is => ?_,fun fd buf records rest is fits => ?_⟩
  · unfold replies
    split
    · rfl
    · rfl
    · split
      · simp only [List.length_append,List.length_drop]
        omega
      · rfl
  · obtain rfl : fd = _ := is
    exact ⟨rfl,rfl⟩
  · obtain rfl : fd = _ := is
    simp only [replies,if_pos fits]
    exact ⟨trivial,⟨_,rfl⟩,rfl⟩

/-- A record with the name `a`. -/
def recordA : Record := ⟨7,1,8,[97],[0,0,0],by decide,by decide,by decide⟩

/-- Two blocks with an error between them, in a directory of small blocks. -/
theorem readDir_all_error : ∃ r',
    (⟨[.entries [recordA,recordA],.fails .intr,.entries [recordA],.fails .noEnt],
        .newFromBlockSize 512⟩ : ReadDir (List Reply)).calls replies 6 =
      some ([.ok (some recordA.entry),.ok (some recordA.entry),.error .intr,.ok (some recordA.entry),
        .ok none,.ok none],r') ∧ r'.fd = [] := by
  have room : 96 ≤ (DirEnts.newFromBlockSize 512).buf.length := by
    rw [DirEnts.newFromBlockSize,DirEnts.new,List.length_replicate]
    decide
  have more : ∀ reply ∈ [Reply.entries [recordA,recordA],.fails .intr,.entries [recordA]],
      reply.More (DirEnts.newFromBlockSize 512).buf.length := by
    simp only [List.mem_cons,List.not_mem_nil,or_false,forall_eq_or_imp,forall_eq]
    exact ⟨⟨by simp,Nat.le_trans (by decide) room⟩,show OsError.intr ≠ .noEnt by decide,
      by simp,Nat.le_trans (by decide) room⟩
  have ends : (Reply.fails .noEnt).Last := rfl
  obtain ⟨r',calls,done⟩ := readDir_all replies_serves more ends rfl 6
  exact ⟨r',calls,done (by decide)⟩

end XxCore.Os
