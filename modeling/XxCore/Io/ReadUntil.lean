import XxCore.Io.BufReaderAtomic
import XxCore.Lib.Delimited

/-! `BufRead::read_until` (`async_std/io/read.rs`) on the buffered reader. The stream is a script of
bytes and of errors between them; however it is cut into fills, the call scans it. -/
namespace XxCore.Io

open Delimited (Ending scan)

variable {ρ ε : Type}

/-- The reader goes through a script: its bytes in chunks of any size, and its errors one by one.
A read gets nothing only at the end or for an empty slice. -/
structure Read.Follows (R : Read ρ ε) (script : ρ → List (UInt8 ⊕ ε)) : Prop where
  ok : ∀ {r r' buf new n}, R.read r buf = (.ok n,new,r') →
    n ≤ buf.length ∧ (new.take n).map .inl ++ script r' = script r
  eof : ∀ {r r' buf new}, R.read r buf = (.ok 0,new,r') → buf = [] ∨ script r = []
  error : ∀ {r r' buf new e}, R.read r buf = (.error e,new,r') → script r = .inr e :: script r'

/-- A reader without errors; a read gets at most one byte more than the next of `sizes` says. -/
structure Chunks where
  held : List UInt8
  sizes : List Nat

def Chunks.count (r : Chunks) (buf : List UInt8) : Nat :=
  min (r.sizes.headD 0 + 1) (min buf.length r.held.length)

theorem Chunks.count_le (r : Chunks) (buf : List UInt8) :
    r.count buf ≤ buf.length ∧ (r.held.take (r.count buf)).length = r.count buf := by
  rw [List.length_take,count]
  omega

def Chunks.reads : Read Chunks ε where
  read r buf :=
    let n := r.count buf
    (.ok n,Slice.splice buf 0 (r.held.take n),⟨r.held.drop n,r.sizes.tail⟩)
  length_read r buf := by
    refine Slice.length_splice ?_
    rw [(r.count_le buf).2,Nat.zero_add]
    exact (r.count_le buf).1

theorem chunks_follow : (Chunks.reads (ε := ε)).Follows fun r => r.held.map .inl where
  ok {r r' buf new n} ran := by
    obtain ⟨is,rest⟩ := Prod.mk.inj ran
    obtain ⟨rfl,rfl⟩ := Prod.mk.inj rest
    obtain rfl := Except.ok.inj is
    obtain ⟨few,length⟩ := r.count_le buf
    refine ⟨few,?_⟩
    rw [Slice.take_splice_zero (Nat.le_of_eq length.symm),List.take_take,Nat.min_self,
      ← List.map_append,List.take_append_drop]
  eof {r r' buf new} ran := by
    have zero : r.count buf = 0 := Except.ok.inj (Prod.mk.inj ran).1
    rw [Chunks.count] at zero
    rw [List.map_eq_nil_iff,← List.length_eq_zero_iff,← List.length_eq_zero_iff (l := r.held)]
    omega
  error ran := absurd (Prod.mk.inj ran).1 nofun

namespace BufReader

/-- `read_until` after the length of `buf` was stored, if its loop has ended within `rounds`. -/
def readUntilLoop (R : Read ρ ε) (startLen : Nat) (byte : UInt8) :
    (rounds : Nat) → List UInt8 → BufReader ρ → Option (Except ε (Option Nat) × List UInt8 × BufReader ρ)
  | 0,_,_ => none
  | rounds + 1,buf,b =>
    let available := b.buffer
    -- `memchr`
    let (used,done) := match available.idxOf? byte with
      | some index => (index + 1,true)
      | none => (available.length,false)
    (Slice.range available 0 used).bind fun new =>
      let buf := buf ++ new
      (b.consume used).bind fun b =>
        if done then some (.ok (some (buf.length - startLen)),buf,b)
        else (fill R b).bind fun
          | (.error e,b) => some (.error e,buf,b)
          | (.ok read,b) =>
            if read = 0 then
              if buf.length = startLen then some (.ok none,buf,b)
              else some (.ok (some (buf.length - startLen)),buf,b)
            else readUntilLoop R startLen byte rounds buf b

/-- `read_until`. -/
def readUntil (R : Read ρ ε) (rounds : Nat) (byte : UInt8) (buf : List UInt8) (b : BufReader ρ) :
    Option (Except ε (Option Nat) × List UInt8 × BufReader ρ) :=
  readUntilLoop R buf.length byte rounds buf b

section Follows

variable {R : Read ρ ε} {script : ρ → List (UInt8 ⊕ ε)} {b : BufReader ρ}

/-- What the buffered reader has before it: the window, and the script of the reader. -/
def upcoming (script : ρ → List (UInt8 ⊕ ε)) (b : BufReader ρ) : List (UInt8 ⊕ ε) :=
  b.buffer.map .inl ++ script b.reader

theorem filterMap_bytes (bytes : List UInt8) (s : List (UInt8 ⊕ ε)) :
    (bytes.map Sum.inl ++ s).filterMap Sum.getLeft? = bytes ++ s.filterMap Sum.getLeft? := by
  rw [List.filterMap_append,List.filterMap_map]
  congr 1
  exact List.filterMap_some

/-- A reader with a script holds the bytes of it. -/
theorem follows_delivers (follows : R.Follows script) :
    R.Delivers fun r => (script r).filterMap Sum.getLeft? where
  ok ran := by
    obtain ⟨few,stream⟩ := follows.ok ran
    exact ⟨few,by rw [← stream,filterMap_bytes]⟩
  error ran := by
    rw [follows.error ran]
    rfl

/-- How a fill of the empty window goes. -/
inductive Refills (script : ρ → List (UInt8 ⊕ ε)) (b : BufReader ρ) :
    Except ε Nat → BufReader ρ → Prop where
  | failed {e : ε} {next : BufReader ρ} (empty : next.buffer = [])
      (stream : script b.reader = .inr e :: script next.reader) : Refills script b (.error e) next
  | eof {next : BufReader ρ} (empty : next.buffer = []) (before : script b.reader = [])
      (after : script next.reader = []) : Refills script b (.ok 0) next
  | more {n : Nat} {next : BufReader ρ} (pos : 0 < n) (some : next.buffer ≠ [])
      (stream : upcoming script next = script b.reader) : Refills script b (.ok n) next

/-- An empty window is filled from the beginning of the buffer, wherever it is. -/
theorem fill_of_empty (valid : b.Valid) (empty : b.buffer = []) (large : 0 < b.capacity) :
    fill R b = fillFrom R b 0 b.capacity := by
  have length := valid.length_buffer
  have le := valid.le
  have bound : b.stop ≤ b.capacity := valid.bound
  have end_ : add b.start b.capacity = some (b.start + b.capacity) :=
    valid.add (Nat.le_trans le bound) (Nat.le_refl _)
  rw [empty,List.length_nil] at length
  rw [fill,fillAmount,if_pos (Nat.le_refl _),end_,Option.bind_some,if_neg (by omega)]
  by_cases beyond : b.capacity < b.start + b.capacity
  · rw [if_pos beyond,if_pos (by omega)]
  · have start : b.start = 0 := by omega
    have stop : b.stop = 0 := by omega
    rw [if_neg beyond,start,stop,Nat.zero_add]

theorem fill_refills (follows : R.Follows script) (valid : b.Valid) (empty : b.buffer = [])
    (large : 0 < b.capacity) :
    ∃ result next, fill R b = some (result,next) ∧ next.Valid ∧ next.capacity = b.capacity ∧
      Refills script b result next := by
  have delivers := follows_delivers follows
  obtain ⟨result,next,called,filled⟩ := fillBufRange_filled delivers.bounded valid (Nat.zero_le _)
    (Nat.le_refl b.data.length)
  obtain ⟨valid',_⟩ := filled.front delivers valid empty (Nat.le_refl _)
  have size := filled.length (Nat.zero_le _) (Nat.le_refl _)
  have stays := valid.stays_empty empty
  have slice : (b.data.take b.data.length).drop 0 ≠ [] := by
    rw [List.take_length,List.drop_zero]
    exact List.ne_nil_of_length_pos large
  refine ⟨(rewindIfRead (result,next)).1,(rewindIfRead (result,next)).2,?_,valid',?_,?_⟩
  · rw [fill_of_empty valid empty large,fillFrom,capacity,called]
    rfl
  · rw [capacity,rewindIfRead_data,size,capacity]
  · cases filled with
    | error ran => exact .failed (stays _) (follows.error ran)
    | zero ran =>
      have before := (follows.eof ran).resolve_left slice
      have after := (follows.ok ran).2
      rw [List.take_zero,List.map_nil,List.nil_append,before] at after
      exact .eof (stays _) before after
    | @more new r n ran pos few =>
      have stream := (follows.ok ran).2
      simp only [rewindIfRead,if_neg (Nat.ne_of_gt pos)]
      have window : buffer { b with
          data := Slice.splice b.data 0 new, start := 0, stop := 0 + n, reader := r } = new.take n := by
        rw [buffer,Nat.zero_add,List.drop_zero]
        exact Slice.take_splice_zero few
      refine .more pos ?_ ?_
      · rw [window]
        apply List.ne_nil_of_length_pos
        rw [List.length_take_of_le few]
        exact pos
      · rw [upcoming,window]
        exact stream

theorem buffer_advance (b : BufReader ρ) (n : Nat) :
    buffer { b with start := b.start + n } = b.buffer.drop n := by
  simp only [buffer,List.drop_drop]

/-- The window without its front. -/
theorem Valid.advance (valid : b.Valid) {n : Nat} (le : n ≤ b.buffer.length) :
    Valid { b with start := b.start + n } := by
  have length := valid.length_buffer
  have start := valid.le
  refine ⟨?_,valid.bound,valid.small⟩
  simp only
  omega

/-- What is returned of a scan, with the length of the caller's buffer before and after. -/
def untilResult (startLen len : Nat) : Ending ε → Except ε (Option Nat)
  | .found => .ok (some (len - startLen))
  | .ended => if len = startLen then .ok none else .ok (some (len - startLen))
  | .failed e => .error e

/-- The loop is a scan of what is upcoming, by induction on the rounds; a fill that is not the last
shortens the script. -/
theorem readUntilLoop_scans (follows : R.Follows script) (startLen : Nat) (byte : UInt8)
    {rounds : Nat} (buf : List UInt8) (valid : b.Valid) (large : 0 < b.capacity)
    (enough : (script b.reader).length < rounds) :
    ∃ next, readUntilLoop R startLen byte rounds buf b =
        some (untilResult startLen (buf ++ (scan byte (upcoming script b)).piece).length
          (scan byte (upcoming script b)).ending,buf ++ (scan byte (upcoming script b)).piece,next) ∧
      next.Valid ∧ next.capacity = b.capacity ∧ upcoming script next = (scan byte (upcoming script b)).rest := by
  induction rounds generalizing b buf with
  | zero => omega
  | succ rounds ih =>
    rw [readUntilLoop]
    cases first : b.buffer.idxOf? byte with
    | some i =>
      obtain ⟨scanned,lt⟩ := Delimited.scan_append_of_idxOf first (script b.reader)
      have range : Slice.range b.buffer 0 (i + 1) = some (b.buffer.take (i + 1)) := if_pos ⟨by omega,lt⟩
      rw [upcoming,scanned]
      simp only [range,Option.bind_some,consume_eq valid lt,if_true]
      refine ⟨_,rfl,valid.advance lt,rfl,?_⟩
      rw [upcoming,buffer_advance]
    | none =>
      have absent : byte ∉ b.buffer := List.idxOf?_eq_none_iff.mp first
      have range : Slice.range b.buffer 0 b.buffer.length = some b.buffer := by
        rw [Slice.range,if_pos ⟨Nat.zero_le _,Nat.le_refl _⟩,List.take_length,List.drop_zero]
      have scanned := Delimited.scan_append_of_not_mem absent (script b.reader)
      have empty : buffer { b with start := b.start + b.buffer.length } = [] := by
        rw [buffer_advance,List.drop_length]
      obtain ⟨result,next,called,valid',capacity,refills⟩ :=
        fill_refills follows (valid.advance (Nat.le_refl _)) empty large
      rw [upcoming,scanned]
      simp only [range,Option.bind_some,consume_eq valid (Nat.le_refl _),Bool.false_eq_true,
        if_false,called]
      cases refills with
      | failed empty' stream =>
        simp only at stream
        rw [stream]
        refine ⟨next,?_,valid',capacity,?_⟩
        · simp only [scan,List.append_nil,untilResult]
        · rw [upcoming,empty']
          rfl
      | eof empty' before after =>
        simp only at before
        rw [before]
        refine ⟨next,?_,valid',capacity,?_⟩
        · simp only [scan,List.append_nil,untilResult,if_true]
          split
          all_goals rfl
        · rw [upcoming,empty',after]
          rfl
      | more pos some stream =>
        simp only at stream
        have shorter : (script next.reader).length < (script b.reader).length := by
          have := List.length_pos_iff.mpr some
          rw [← stream,upcoming,List.length_append,List.length_map]
          omega
        obtain ⟨final,ran,valid'',capacity',left⟩ :=
          ih (buf ++ b.buffer) valid' (by rw [capacity]; exact large) (by omega)
        rw [← stream]
        refine ⟨final,?_,valid'',capacity'.trans capacity,left⟩
        simp only [if_neg (Nat.ne_of_gt pos),ran,List.append_assoc]

/-- The stream before the buffered reader, if the script of the reader has no errors. -/
def stream (held : ρ → List UInt8) (b : BufReader ρ) : List UInt8 := b.buffer ++ held b.reader

theorem upcoming_stream (held : ρ → List UInt8) (b : BufReader ρ) :
    upcoming (fun r => (held r).map .inl : ρ → List (UInt8 ⊕ ε)) b = (stream held b).map .inl := by
  rw [upcoming,stream,List.map_append]

theorem stream_of_upcoming {held : ρ → List UInt8} {rest : List UInt8}
    (is : upcoming (fun r => (held r).map .inl : ρ → List (UInt8 ⊕ ε)) b = rest.map .inl) :
    stream held b = rest := by
  rw [upcoming_stream] at is
  exact (List.map_inj_right fun _ _ => Sum.inl.inj).mp is

/-- What is returned of a scan of a stream without errors. -/
theorem untilResult_of_pieces {s : List UInt8} {byte : UInt8} (startLen : Nat) :
    untilResult startLen (startLen + (scan byte (s.map .inl : List (UInt8 ⊕ ε))).piece.length)
        (scan byte (s.map .inl : List (UInt8 ⊕ ε))).ending =
      .ok (if s = [] then none
        else some (scan byte (s.map .inl : List (UInt8 ⊕ ε))).piece.length) := by
  obtain ⟨rest,_,split,ending,_⟩ := Delimited.scan_pieces (ε := ε) (d := byte) s
  rcases ending with found | ⟨ended,rfl⟩
  · obtain ⟨before,is,_⟩ := Delimited.scan_found found
    have some : s ≠ [] := by
      rw [split,is]
      simp
    rw [found,if_neg some,untilResult,Nat.add_sub_cancel_left]
  · rw [List.append_nil] at split
    rw [ended,untilResult,Nat.add_sub_cancel_left,← split]
    by_cases empty : s = []
    · subst empty
      exact if_pos rfl
    · have pos := List.length_pos_iff.mpr empty
      rw [if_neg empty,if_neg (by omega)]

/-- From every reachable state `read_until` appends the shortest front part of the stream that ends
with the delimiter, or all of it, however the stream is cut, and leaves the rest. -/
theorem readUntil_reads_piece {K : Seek ρ ε} {held : ρ → List UInt8}
    (follows : R.Follows fun r => (held r).map .inl) (reachable : Reachable R K b)
    (large : 1 ≤ b.capacity) (byte : UInt8) (buf : List UInt8) {rounds : Nat}
    (enough : (held b.reader).length < rounds) :
    ∃ line next, readUntil R rounds byte buf b =
        some (.ok (if stream held b = [] then none else some line.length),buf ++ line,next) ∧
      Delimited.IsPiece byte (stream held b) line (stream held next) ∧
      next.Valid ∧ next.capacity = b.capacity := by
  have valid := reachable.valid (follows_delivers follows)
  obtain ⟨next,ran,valid',capacity,left⟩ := readUntilLoop_scans follows buf.length byte buf
    valid large (by rw [List.length_map]; exact enough)
  rw [upcoming_stream held b] at ran left
  obtain ⟨rest,is,_⟩ := Delimited.scan_pieces (ε := ε) (d := byte) (stream held b)
  have after := stream_of_upcoming (left.trans is)
  refine ⟨(scan byte ((stream held b).map .inl : List (UInt8 ⊕ ε))).piece,next,?_,?_,valid',capacity⟩
  · rw [readUntil,ran,List.length_append,untilResult_of_pieces]
  · rw [after]
    exact Delimited.scan_isPiece is

end Follows

theorem cursor_follows {content : List UInt8} (small : content.length < 2 ^ 64) :
    (Cursor.reads content).Follows fun r => (content.drop r.pos.toNat).map .inl where
  ok ran := by
    obtain ⟨few,stream⟩ := (cursor_delivers small).ok ran
    exact ⟨few,by rw [← List.map_append,stream]⟩
  eof {r r' buf new} ran := by
    rw [List.map_eq_nil_iff,List.drop_eq_nil_iff]
    exact ((cursor_seekable small).none ran).2
  error ran := absurd (Prod.mk.inj ran).1 nofun

/-- A delimiter in the third fill of a buffer of two bytes. -/
theorem readUntil_reads_piece_cursor : ∃ b line next,
    fromParts (⟨0,[1,0,1,1]⟩ : Cursor) ⟨[],2,Nat.zero_le _,by decide⟩ 0 = some b ∧
    readUntil (Cursor.reads [1,2,3,9,4,5]) 7 9 [0] b = some (.ok (some 4),[0] ++ line,next) ∧
    Delimited.IsPiece 9 [1,2,3,9,4,5] line (stream (fun r => [1,2,3,9,4,5].drop r.pos.toNat) next) := by
  obtain ⟨b,made⟩ : ∃ b,
      fromParts (⟨0,[1,0,1,1]⟩ : Cursor) ⟨[],2,Nat.zero_le _,by decide⟩ 0 = some b := ⟨_,rfl⟩
  have start : b.capacity = 2 ∧ b.reader.pos = 0 ∧ b.buffer = [] ∧
      (readUntil (Cursor.reads [1,2,3,9,4,5]) 7 9 [0] b).map (fun (_,buf,_) => buf) =
        some [0,1,2,3,9] := by
    obtain rfl := Option.some.inj made
    decide +kernel
  obtain ⟨capacity,pos,empty,result⟩ := start
  have whole : stream (fun r => [1,2,3,9,4,5].drop r.pos.toNat) b = [1,2,3,9,4,5] := by
    rw [stream,empty,pos]
    rfl
  have follows : (Cursor.reads [1,2,3,9,4,5]).Follows fun r =>
      ([1,2,3,9,4,5].drop r.pos.toNat).map .inl := cursor_follows (by decide)
  have reachable : Reachable (Cursor.reads [1,2,3,9,4,5]) (Cursor.seeks [1,2,3,9,4,5]) b := .made made
  have enough : (([1,2,3,9,4,5] : List UInt8).drop b.reader.pos.toNat).length < 7 := by
    rw [pos]
    decide
  obtain ⟨line,next,ran,piece,_⟩ :=
    readUntil_reads_piece follows reachable (by omega) 9 [0] enough
  rw [whole] at ran piece
  rw [ran] at result
  obtain rfl : line = [1,2,3,9] := List.append_cancel_left (Option.some.inj result)
  exact ⟨b,_,next,made,ran,piece⟩

end BufReader
end XxCore.Io
