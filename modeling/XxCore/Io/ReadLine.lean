import XxCore.Io.AppendToString
import XxCore.Io.ReadUntil

/-! `BufRead::read_line` (`async_std/io/read.rs`). The line ending is taken off the end of the whole
string, also when no line was appended to it, or only a line feed behind a carriage return. -/
namespace XxCore.Io

open Delimited (Ending Scan scan)

variable {ρ ε : Type}

/-- A line feed at the end of a string is popped, and a carriage return before it. -/
def stripLineEnding (buf : List UInt8) : List UInt8 :=
  if buf.getLast? = some 10 then
    let buf := buf.dropLast
    if buf.getLast? = some 13 then buf.dropLast else buf
  else buf

namespace BufReader

/-- The closure of `read_line`. -/
def untilNewline (R : Read ρ ε) (rounds : Nat) (b : BufReader ρ) (vec : List UInt8) :
    Option (Exit ε (Option Nat) × List UInt8 × BufReader ρ) :=
  (readUntil R rounds 10 vec b).map fun (result,vec,b) => (.returned result,vec,b)

/-- `read_line`. -/
def readLine (R : Read ρ ε) (E : ErrorKinds ε) (rounds : Nat) (buf : List UInt8) (b : BufReader ρ) :
    Option (Exit ε (Option Nat) × List UInt8 × BufReader ρ) :=
  (appendToString E buf (untilNewline R rounds b)).map fun
    | (.unwound,buf,b) => (.unwound,buf,b)
    | (.returned result,buf,b) => (.returned result,stripLineEnding buf,b)

end BufReader

theorem stripLineEnding_of_last {buf : List UInt8} (last : buf.getLast? ≠ some 10) :
    stripLineEnding buf = buf := if_neg last

/-- A string with a line feed at its end is cut. -/
theorem stripLineEnding_eq_self_iff {buf : List UInt8} :
    stripLineEnding buf = buf ↔ buf.getLast? ≠ some 10 := by
  refine ⟨fun same last => ?_,stripLineEnding_of_last⟩
  have some : buf ≠ [] := by
    rintro rfl
    contradiction
  have pos := List.length_pos_iff.mpr some
  have length := congrArg List.length same
  rw [stripLineEnding,if_pos last] at length
  simp only at length
  split at length
  all_goals
    simp only [List.length_dropLast] at length
    omega

/-- The ending of a line is taken off as if it stood alone, but for a line feed that makes a line
ending with the string before it. -/
theorem stripLineEnding_append_iff {s line : List UInt8} (some_ : line ≠ []) :
    stripLineEnding (s ++ line) = s ++ stripLineEnding line ↔
      ¬ (line = [10] ∧ s.getLast? = some 13) := by
  obtain ⟨before,x,rfl⟩ : ∃ before x, line = before ++ [x] :=
    ⟨line.dropLast,line.getLast some_,(List.dropLast_concat_getLast some_).symm⟩
  rw [stripLineEnding,stripLineEnding,← List.append_assoc,List.getLast?_concat,List.getLast?_concat,
    List.dropLast_concat,List.dropLast_concat]
  by_cases feed : x = 10
  · subst feed
    simp only [if_true]
    by_cases alone : before = []
    · subst alone
      simp only [List.append_nil,List.nil_append,List.getLast?_nil,reduceCtorEq,if_false,true_and]
      by_cases return_ : s.getLast? = some 13
      · rw [if_pos return_]
        refine iff_of_false (fun same => ?_) (not_not_intro return_)
        have pos : s ≠ [] := by
          rintro rfl
          contradiction
        have pos := List.length_pos_iff.mpr pos
        have length := congrArg List.length same
        rw [List.length_dropLast] at length
        omega
      · rw [if_neg return_]
        exact iff_of_true rfl return_
    · have last : (s ++ before).getLast? = before.getLast? := by
        rw [List.getLast?_append,List.getLast?_eq_some_getLast alone,Option.some_or]
      refine iff_of_true ?_ fun both => alone (List.append_left_eq_self.mp both.1)
      rw [last]
      split
      · rw [List.dropLast_append_of_ne_nil alone]
      · rfl
  · have other : ¬ (some x = some (10 : UInt8)) := fun same => feed (Option.some.inj same)
    rw [if_neg other,if_neg other,List.append_assoc]
    refine iff_of_true rfl fun both => ?_
    obtain rfl : before = [] := by
      have length := congrArg List.length both.1
      rw [List.length_append,List.length_singleton,List.length_singleton] at length
      exact List.length_eq_zero_iff.mp (by omega)
    exact feed (List.cons.inj both.1).1

namespace BufReader

variable {R : Read ρ ε} {E : ErrorKinds ε} {script : ρ → List (UInt8 ⊕ ε)} {b : BufReader ρ}
  {s : List UInt8} {rounds : Nat}

/-- What `read_line` is to do to the string, where `line` is the next line of the stream. -/
structure ReadsLine (s line : List UInt8) (exit : Exit ε (Option Nat)) (buf : List UInt8) : Prop where
  none : exit = .returned (.ok none) → buf = s
  error : ∀ e, exit = .returned (.error e) → buf = s
  some : ∀ n, exit = .returned (.ok (some n)) → n = line.length ∧ buf = s ++ stripLineEnding line

/-- The part of the stream up to the next line feed, the next error or the end; a buffer without
capacity does not get to it. -/
def nextLine (script : ρ → List (UInt8 ⊕ ε)) (b : BufReader ρ) : Scan UInt8 ε :=
  if b.capacity = 0 then ⟨[],.ended,upcoming script b⟩ else scan 10 (upcoming script b)

/-- A line is delivered: there is one, its end was found or that of the stream, and it is UTF-8. -/
structure Delivered (line : Scan UInt8 ε) : Prop where
  some : line.piece ≠ []
  ends : line.ending = .found ∨ line.ending = .ended
  valid : Utf8 line.piece

theorem nextLine_found (found : (nextLine script b).ending = .found) :
    (nextLine script b).piece ≠ [] := by
  rw [nextLine] at found ⊢
  split at found
  next => contradiction
  next large =>
    obtain ⟨before,is,_⟩ := Delimited.scan_found found
    rw [if_neg large,is]
    simp

/-- The string has no line feed at its end that could be taken for that of a line that was not
delivered, and no carriage return that could be taken for a part of the ending of one that was. -/
structure Undisturbed (s : List UInt8) (line : Scan UInt8 ε) : Prop where
  missing : ¬ Delivered line → s.getLast? ≠ some 10
  delivered : Delivered line → ¬ (line.piece = [10] ∧ s.getLast? = some 13)

/-- A buffer without capacity is always at its end. -/
theorem readUntil_of_no_capacity (valid : b.Valid) (small : b.capacity = 0) (byte : UInt8)
    (buf : List UInt8) : readUntil R (rounds + 1) byte buf b = some (.ok none,buf,b) := by
  have length : b.data.length = 0 := small
  have bound := valid.bound
  have le := valid.le
  have start : b.start = 0 := by omega
  have empty : b.buffer = [] := List.length_eq_zero_iff.mp (by rw [valid.length_buffer]; omega)
  have filled : fill R b = some (.ok 0,b) := by
    rw [fill,small,fillAmount,if_pos (Nat.zero_le _),start]
    simp [Io.add]
  have stays : b.consume 0 = some b := by
    rw [consume_eq valid (Nat.zero_le _)]
    rfl
  have range : Slice.range ([] : List UInt8) 0 0 = some [] := rfl
  simp only [readUntil,readUntilLoop,empty,List.idxOf?_nil,List.length_nil,range,Option.bind_some,
    stays,Bool.false_eq_true,if_false,filled,List.append_nil,if_true]

theorem readUntil_nextLine (follows : R.Follows script) (valid : b.Valid)
    (enough : (script b.reader).length < rounds) (buf : List UInt8) :
    ∃ next, readUntil R rounds 10 buf b =
        some (untilResult buf.length (buf ++ (nextLine script b).piece).length
          (nextLine script b).ending,buf ++ (nextLine script b).piece,next) ∧
      next.Valid ∧ next.capacity = b.capacity ∧ upcoming script next = (nextLine script b).rest := by
  rw [nextLine]
  split
  next small =>
    obtain ⟨rounds,rfl⟩ : ∃ more, rounds = more + 1 := ⟨rounds - 1,by omega⟩
    refine ⟨b,?_,valid,rfl,rfl⟩
    rw [readUntil_of_no_capacity valid small]
    simp only [List.append_nil,untilResult,if_true]
  next large => exact readUntilLoop_scans follows _ _ _ valid (Nat.pos_of_ne_zero large) enough

theorem untilResult_eq_some {line : Scan UInt8 ε} {n start : Nat}
    (found_some : line.ending = .found → line.piece ≠ [])
    (is : untilResult start (start + line.piece.length) line.ending = .ok (some n)) :
    line.piece ≠ [] ∧ (line.ending = .found ∨ line.ending = .ended) ∧ n = line.piece.length := by
  rcases ending : line.ending with _ | _ | e
  · rw [ending,untilResult,Nat.add_sub_cancel_left] at is
    exact ⟨found_some ending,.inl rfl,(Option.some.inj (Except.ok.inj is)).symm⟩
  · rw [ending,untilResult,Nat.add_sub_cancel_left] at is
    split at is
    next => cases Except.ok.inj is
    next some =>
      refine ⟨?_,.inr rfl,(Option.some.inj (Except.ok.inj is)).symm⟩
      intro nil
      rw [nil] at some
      exact some rfl
  · rw [ending] at is
    contradiction

theorem untilResult_of_delivered {line : Scan UInt8 ε} (delivered : Delivered line) (start : Nat) :
    untilResult start (start + line.piece.length) line.ending = .ok (some line.piece.length) := by
  rcases delivered.ends with found | ended
  · rw [found,untilResult,Nat.add_sub_cancel_left]
  · have pos := List.length_pos_iff.mpr delivered.some
    rw [ended,untilResult,Nat.add_sub_cancel_left,if_neg (by omega)]

/-- How `read_line` ends: the line is there, or the string as it was, and is stripped then. -/
inductive LineRead (E : ErrorKinds ε) (s : List UInt8) (line : Scan UInt8 ε) :
    Exit ε (Option Nat) → List UInt8 → Prop where
  | some (delivered : Delivered line) : LineRead E s line
      (.returned (.ok (some line.piece.length))) (stripLineEnding (s ++ line.piece))
  | none (missing : ¬ Delivered line) (ended : line.ending = .ended) (empty : line.piece = []) :
      LineRead E s line (.returned (.ok none)) (stripLineEnding s)
  | invalid (missing : ¬ Delivered line) (invalid : ¬ Utf8 line.piece) :
      LineRead E s line (.returned (.error E.invalidUtf8)) (stripLineEnding s)
  | failed {e : ε} (missing : ¬ Delivered line) (failed : line.ending = .failed e) :
      LineRead E s line (.returned (.error e)) (stripLineEnding s)

theorem readLine_lineRead (follows : R.Follows script) (valid : b.Valid)
    (enough : (script b.reader).length < rounds) :
    ∃ exit buf next, readLine R E rounds s b = some (exit,buf,next) ∧
      LineRead E s (nextLine script b) exit buf ∧ next.Valid ∧ next.capacity = b.capacity ∧
      upcoming script next = (nextLine script b).rest := by
  obtain ⟨next,ran,valid',capacity,left⟩ := readUntil_nextLine follows valid enough s
  have found_some : (nextLine script b).ending = .found → (nextLine script b).piece ≠ [] :=
    nextLine_found
  generalize nextLine script b = line at ran left found_some
  have called : untilNewline R rounds b s = some (.returned (untilResult s.length
      (s.length + line.piece.length) line.ending),s ++ line.piece,next) := by
    rw [untilNewline,ran,List.length_append]
    rfl
  obtain ⟨exit,buf,appended,guarded⟩ := appendToString_guarded (E := E) called rfl
  rw [readLine,appended]
  generalize is : untilResult s.length (s.length + line.piece.length) line.ending = result at guarded
  have content : bytes buf = buf := rfl
  have held : bytes s = s := rfl
  rw [content,held] at guarded
  generalize inner : Exit.returned result = outer at guarded
  cases guarded with
  | @kept n valid'' =>
    obtain rfl := Exit.returned.inj inner
    obtain ⟨some,ends,rfl⟩ := untilResult_eq_some found_some is
    exact ⟨_,_,next,rfl,.some ⟨some,ends,valid''⟩,valid',capacity,left⟩
  | invalid invalid =>
    exact ⟨_,_,next,rfl,.invalid (fun delivered => invalid delivered.valid) invalid,valid',capacity,left⟩
  | other other =>
    subst inner
    have missing : ¬ Delivered line := by
      intro delivered
      rw [untilResult_of_delivered delivered] at is
      exact other _ (congrArg Exit.returned is.symm)
    rcases ending : line.ending with _ | _ | e
    · rw [ending,untilResult] at is
      exact absurd (congrArg Exit.returned is.symm) (other _)
    · have empty : line.piece = [] := by
        rw [ending,untilResult] at is
        split at is
        · exact List.length_eq_zero_iff.mp (by omega)
        · exact absurd (congrArg Exit.returned is.symm) (other _)
      rw [ending,empty,untilResult,List.length_nil,Nat.add_zero,if_pos rfl] at is
      subst is
      exact ⟨_,_,next,rfl,.none missing ending empty,valid',capacity,left⟩
    · rw [ending,untilResult] at is
      subst is
      exact ⟨_,_,next,rfl,.failed missing ending,valid',capacity,left⟩

/-- From every state of the buffer and for every stream with its errors, `read_line` leaves the
string as it should exactly if the string does not end in a part of a line ending that is taken for
that of the line. -/
theorem readLine_reads_iff (follows : R.Follows script) (valid : b.Valid)
    (enough : (script b.reader).length < rounds) :
    ∃ exit buf next, readLine R E rounds s b = some (exit,buf,next) ∧
      (ReadsLine s (nextLine script b).piece exit buf ↔ Undisturbed s (nextLine script b)) := by
  obtain ⟨exit,buf,next,ran,read,_⟩ := readLine_lineRead (E := E) (s := s) follows valid enough
  refine ⟨exit,buf,next,ran,?_⟩
  generalize nextLine script b = line at read
  cases read with
  | some delivered =>
    have strip := stripLineEnding_append_iff (s := s) delivered.some
    constructor
    · intro reads
      refine ⟨fun missing => absurd delivered missing,fun _ => strip.mp (reads.some _ rfl).2⟩
    · intro undisturbed
      refine ⟨nofun,nofun,fun n is => ⟨?_,strip.mpr (undisturbed.delivered delivered)⟩⟩
      exact (Option.some.inj (Except.ok.inj (Exit.returned.inj is))).symm
  | none missing _ _ =>
    constructor
    · intro reads
      exact ⟨fun _ => stripLineEnding_eq_self_iff.mp (reads.none rfl),fun delivered =>
        absurd delivered missing⟩
    · intro undisturbed
      exact ⟨fun _ => stripLineEnding_of_last (undisturbed.missing missing),nofun,nofun⟩
  | invalid missing _ | failed missing _ =>
    constructor
    · intro reads
      exact ⟨fun _ => stripLineEnding_eq_self_iff.mp (reads.error _ rfl),fun delivered =>
        absurd delivered missing⟩
    · intro undisturbed
      exact ⟨nofun,fun _ _ => stripLineEnding_of_last (undisturbed.missing missing),nofun⟩

end BufReader

theorem Player.leading_drop (s : List (UInt8 ⊕ PlayerError)) (n : Nat) :
    (leading s n).map .inl ++ s.drop (leading s n).length = s := by
  fun_induction leading with
  | case1 b s n ih => rw [List.map_cons,List.length_cons,List.cons_append,List.drop_succ_cons,ih]
  | case2 => rfl

theorem player_follows : Player.reads.Follows Player.script where
  ok {p p' buf new n} ran := by
    simp only [Player.reads] at ran
    split at ran
    · cases (Prod.mk.inj ran).1
    · obtain ⟨is,rest⟩ := Prod.mk.inj ran
      obtain ⟨rfl,rfl⟩ := Prod.mk.inj rest
      obtain rfl := Except.ok.inj is
      refine ⟨Player.length_leading _ _,?_⟩
      rw [Slice.take_splice_zero (Nat.le_refl _),List.take_length]
      exact Player.leading_drop _ _
  eof {p p' buf new} ran := by
    simp only [Player.reads] at ran
    split at ran
    · cases (Prod.mk.inj ran).1
    · rename_i other
      have none := List.length_eq_zero_iff.mp (Except.ok.inj (Prod.mk.inj ran).1)
      rcases script : p.script with _ | ⟨x | e,s⟩
      · exact .inr rfl
      · rw [script] at none
        cases buf with
        | nil => exact .inl rfl
        | cons => contradiction
      · exact absurd script (other e s)
  error {p p' buf new e} ran := by
    simp only [Player.reads] at ran
    split at ran
    · rename_i script
      obtain ⟨is,rest⟩ := Prod.mk.inj ran
      obtain ⟨_,rfl⟩ := Prod.mk.inj rest
      obtain rfl := Except.error.inj is
      exact script
    · cases (Prod.mk.inj ran).1

namespace BufReader

/-- A line whose ending is cut by the buffer of one byte. -/
theorem readLine_reads_player : ∃ b exit buf next,
    withCapacity (⟨[.inl 98,.inl 13,.inl 10,.inl 99],[],false⟩ : Player) 1 1 = some b ∧
    readLine Player.reads faults 9 [97] b = some (exit,buf,next) ∧ exit.value = some (some 3) ∧
    ReadsLine [97] (nextLine Player.script b).piece exit buf := by
  obtain ⟨b,made⟩ : ∃ b,
      withCapacity (⟨[.inl 98,.inl 13,.inl 10,.inl 99],[],false⟩ : Player) 1 1 = some b := ⟨_,rfl⟩
  obtain ⟨valid,is⟩ := withCapacity_eq_some made
  have enough : (Player.script b.reader).length < 9 := by
    rw [is]
    decide
  obtain ⟨exit,buf,next,ran,reads⟩ := readLine_reads_iff (E := faults) (s := [97])
    player_follows valid enough
  have undisturbed : Undisturbed [97] (nextLine Player.script b) :=
    ⟨fun _ => by decide,fun _ both => absurd both.2 (by decide)⟩
  have value : (readLine Player.reads faults 9 [97] b).map (fun (exit,_) => exit.value) =
      some (some (some 3)) := by
    rw [is]
    decide +kernel
  rw [ran] at value
  exact ⟨b,exit,buf,next,made,ran,Option.some.inj value,reads.mpr undisturbed⟩

/-- At the end of the stream the line feed of the string itself is taken off. -/
theorem readLine_not_always_reads : ¬ ∀ (s buf : List UInt8) (b next : BufReader Player)
    (rounds : Nat) (exit : Exit PlayerError (Option Nat)),
    b.Valid → readLine Player.reads faults rounds s b = some (exit,buf,next) →
    ReadsLine s (nextLine Player.script b).piece exit buf := by
  intro always
  obtain ⟨b,made⟩ : ∃ b, withCapacity (⟨[],[],false⟩ : Player) 1 1 = some b := ⟨_,rfl⟩
  obtain ⟨valid,is⟩ := withCapacity_eq_some made
  have result : (readLine Player.reads faults 9 [97,10] b).map (fun (exit,buf,_) => (exit.value,buf)) =
      some (some none,[97]) := by
    rw [is]
    decide +kernel
  obtain ⟨⟨exit,buf,next⟩,ran,is⟩ := Option.map_eq_some_iff.mp result
  obtain ⟨value,content⟩ := Prod.mk.inj is
  have kept := (always _ _ _ _ _ _ valid ran).none (Exit.of_value value)
  rw [kept] at content
  contradiction

end BufReader
end XxCore.Io
