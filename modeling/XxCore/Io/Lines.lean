import XxCore.Io.ReadLine

/-! `Lines` (`async_std/io/read.rs`), the iterator over the lines of a buffered reader. -/
namespace XxCore.Io

open Delimited (pieces)

variable {ρ ε : Type}

/-- `Lines<R>`. -/
structure Lines (ρ : Type) where
  reader : BufReader ρ

namespace Lines

/-- `next`; nothing is returned if `read_line` does not. -/
def next (R : Read ρ ε) (E : ErrorKinds ε) (rounds : Nat) (lines : Lines ρ) :
    Option (Option (Except ε (List UInt8)) × Lines ρ) :=
  (lines.reader.readLine R E rounds []).bind fun
    | (.unwound,_,_) => none
    -- `transpose`
    | (.returned (.ok none),_,reader) => some (none,⟨reader⟩)
    | (.returned (.error e),_,reader) => some (some (.error e),⟨reader⟩)
    | (.returned (.ok (some _)),line,reader) => some (some (.ok line),⟨reader⟩)

/-- The items that `next` returns before `None`, if it returns `None` within `calls`. -/
def collect (R : Read ρ ε) (E : ErrorKinds ε) (rounds : Nat) :
    (calls : Nat) → Lines ρ → Option (List (Except ε (List UInt8)) × Lines ρ)
  | 0,_ => none
  | calls + 1,lines => (lines.next R E rounds).bind fun
    | (none,lines) => some ([],lines)
    | (some item,lines) =>
      (collect R E rounds calls lines).map fun (items,lines) => (item :: items,lines)

/-- What is returned for a segment of the stream. -/
def item (E : ErrorKinds ε) (segment : List UInt8) : Except ε (List UInt8) :=
  if Utf8 segment then .ok (stripLineEnding segment) else .error E.invalidUtf8

/-- How a call of `next` goes on the stream `s`, and what it leaves of it. -/
inductive Steps (E : ErrorKinds ε) (s : List UInt8) :
    Option (Except ε (List UInt8)) → List UInt8 → Prop where
  | ended (empty : s = []) : Steps E s none []
  | line {segment rest : List UInt8} (cut : pieces 10 s = segment :: pieces 10 rest)
      (shorter : rest.length < s.length) : Steps E s (some (item E segment)) rest

section Stream

variable {R : Read ρ ε} {E : ErrorKinds ε} {held : ρ → List UInt8} {lines : Lines ρ} {rounds : Nat}

theorem next_steps (follows : R.Follows fun r => (held r).map .inl) (valid : lines.reader.Valid)
    (large : 1 ≤ lines.reader.capacity) (enough : (lines.reader.stream held).length < rounds) :
    ∃ result after, lines.next R E rounds = some (result,after) ∧ after.reader.Valid ∧
      after.reader.capacity = lines.reader.capacity ∧
      Steps E (lines.reader.stream held) result (after.reader.stream held) := by
  have within : ((held lines.reader.reader).map .inl : List (UInt8 ⊕ ε)).length < rounds := by
    rw [BufReader.stream,List.length_append] at enough
    rw [List.length_map]
    omega
  obtain ⟨exit,line,reader,ran,read,valid',capacity,left⟩ :=
    BufReader.readLine_lineRead (E := E) (s := []) follows valid within
  have next : BufReader.nextLine (fun r => (held r).map .inl : ρ → List (UInt8 ⊕ ε)) lines.reader =
      Delimited.scan 10 ((lines.reader.stream held).map .inl) := by
    rw [BufReader.nextLine,if_neg (by omega),BufReader.upcoming_stream]
  obtain ⟨rest,is,split,ending,cut⟩ :=
    Delimited.scan_pieces (ε := ε) (d := 10) (lines.reader.stream held)
  rw [next] at read left
  have after := BufReader.stream_of_upcoming (left.trans is)
  generalize Delimited.scan 10 ((lines.reader.stream held).map .inl : List (UInt8 ⊕ ε)) = scanned
    at read split ending cut
  -- a segment that is passed is not empty
  have passed (some_ : scanned.piece ≠ []) :
      pieces 10 (lines.reader.stream held) = scanned.piece :: pieces 10 (reader.stream held) ∧
        (reader.stream held).length < (lines.reader.stream held).length := by
    have pos := List.length_pos_iff.mpr some_
    have length := congrArg List.length split
    rw [List.length_append] at length
    rw [after]
    refine ⟨cut fun empty => ?_,by omega⟩
    rw [empty,List.length_nil] at length
    omega
  rw [Lines.next,ran]
  cases read with
  | some delivered =>
    obtain ⟨cut,shorter⟩ := passed delivered.some
    refine ⟨_,⟨reader⟩,rfl,valid',capacity,?_⟩
    have ok : Except.ok (stripLineEnding ([] ++ scanned.piece)) = item E scanned.piece := by
      rw [item,if_pos delivered.valid,List.nil_append]
    rw [ok]
    exact .line cut shorter
  | none _ ended empty =>
    refine ⟨_,⟨reader⟩,rfl,valid',capacity,?_⟩
    have last : rest = [] := by
      rcases ending with found | ⟨_,last⟩
      · rw [ended] at found
        contradiction
      · exact last
    rw [empty,last] at split
    rw [after,last]
    exact .ended split
  | invalid _ invalid =>
    have some_ : scanned.piece ≠ [] := by
      intro empty
      rw [empty] at invalid
      exact invalid (by decide +kernel)
    obtain ⟨cut,shorter⟩ := passed some_
    refine ⟨_,⟨reader⟩,rfl,valid',capacity,?_⟩
    have error : Except.error E.invalidUtf8 = item E scanned.piece := by
      rw [item,if_neg invalid]
    rw [error]
    exact .line cut shorter
  | failed _ failed =>
    rw [failed] at ending
    rcases ending with found | ⟨ended,_⟩
    all_goals contradiction

/-- The lines of every stream without errors are its segments, one by one and each without its line
ending; neither the capacity of the buffer nor the sizes of the chunks have a part in it. By
induction on the calls, each of which shortens the stream. -/
theorem collect_segments (follows : R.Follows fun r => (held r).map .inl)
    (valid : lines.reader.Valid) (large : 1 ≤ lines.reader.capacity)
    (enough : (lines.reader.stream held).length < rounds) {calls : Nat}
    (often : (lines.reader.stream held).length < calls) :
    ∃ after, lines.collect R E rounds calls =
        some ((pieces 10 (lines.reader.stream held)).map (item E),after) ∧
      after.reader.stream held = [] ∧
      Delimited.IsCut 10 (lines.reader.stream held) (pieces 10 (lines.reader.stream held)) := by
  induction calls generalizing lines with
  | zero => omega
  | succ calls ih =>
    obtain ⟨result,after,called,valid',capacity,steps⟩ := next_steps (E := E) follows valid large enough
    rw [collect,called,Option.bind_some]
    generalize is : lines.reader.stream held = s at steps enough often
    generalize left : after.reader.stream held = rest at steps
    have cut := Delimited.pieces_isCut (d := (10 : UInt8)) s
    cases steps with
    | ended empty =>
      subst empty
      exact ⟨after,rfl,left,cut⟩
    | line first shorter =>
      subst left
      obtain ⟨final,ran,ended,_⟩ := ih valid' (by rw [capacity]; exact large)
        (Nat.lt_trans shorter enough) (by omega)
      refine ⟨final,?_,ended,cut⟩
      rw [first,List.map_cons]
      simp only [ran,Option.map_some]

end Stream

/-- Two line endings and an `é` cut by a buffer of one byte, and a segment between the lines that is
not UTF-8. -/
theorem collect_segments_chunks : ∃ reader lines after,
    BufReader.withCapacity (⟨[97,13,10,255,10,0xc3,0xa9],[]⟩ : Chunks) 1 1 = some reader ∧
    lines = Lines.mk reader ∧ lines.collect Chunks.reads faults 8 8 =
      some ([[97,13,10],[255,10],[0xc3,0xa9]].map (item faults),after) ∧
    lines.reader.stream Chunks.held = [97,13,10,255,10,0xc3,0xa9] := by
  obtain ⟨reader,made⟩ : ∃ reader, BufReader.withCapacity
      (⟨[97,13,10,255,10,0xc3,0xa9],[]⟩ : Chunks) 1 1 = some reader := ⟨_,rfl⟩
  obtain ⟨valid,is⟩ := BufReader.withCapacity_eq_some made
  generalize same : Lines.mk reader = lines
  obtain rfl : lines.reader = reader := by rw [← same]
  have stream : lines.reader.stream Chunks.held = [97,13,10,255,10,0xc3,0xa9] := by
    rw [is]
    rfl
  have large : 1 ≤ lines.reader.capacity := by
    rw [is]
    exact Nat.le_refl 1
  have length : (lines.reader.stream Chunks.held).length < 8 := by
    rw [stream]
    decide
  have cut : pieces (10 : UInt8) [97,13,10,255,10,0xc3,0xa9] = [[97,13,10],[255,10],[0xc3,0xa9]] := by
    decide
  obtain ⟨after,ran,_⟩ := collect_segments (E := faults) chunks_follow valid large length length
  rw [stream,cut] at ran
  exact ⟨_,lines,after,made,rfl,ran,stream⟩

end Lines
end XxCore.Io
