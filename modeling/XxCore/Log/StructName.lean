import Mathlib.Algebra.Group.Int.Defs
import Mathlib.Algebra.Group.Nat.Defs
import Mathlib.Data.List.Basic
import XxCore.Lib.Slice
import XxCore.Log.TypeName

/-! `get_struct_name` of `log/internal.rs`. Positions count characters here. A panic is `none`: of the
counter, which is an `i32`, of a slice and of the two `unwrap`s. -/
namespace XxCore.Log

open Nesting

structure Scan where
  start : Option Nat
  angleBrackets : Int
  segment : List Char

/-- A value that an `i32` has. -/
def i32 (value : Int) : Option Int :=
  if -2 ^ 31 ≤ value ∧ value < 2 ^ 31 then some value else none

/-- What the loop does at `<`. -/
def Scan.atOpen (fullName : List Char) (index : Nat) (s : Scan) : Option Scan := do
  let segment ← if s.angleBrackets = 0 then
      s.start.bind fun start => Slice.range fullName start index
    else some s.segment
  let angleBrackets ← i32 (s.angleBrackets + 1)
  return { s with segment, angleBrackets }

/-- What the loop does at `>`. -/
def Scan.atClose (s : Scan) : Option Scan := do
  let angleBrackets ← i32 (s.angleBrackets - 1)
  return { s with angleBrackets, start := if angleBrackets = 0 then none else s.start }

/-- The body of the loop. -/
def Scan.char (fullName : List Char) (index : Nat) (ch : Char) (s : Scan) : Option Scan := do
  let s := { s with start := some (s.start.getD index) }
  let s ← if ch = '<' then s.atOpen fullName index else some s
  if ch = '>' then s.atClose else some s

/-- The loop from a position on. -/
def Scan.chars (fullName : List Char) (index : Nat) (s : Scan) : List Char → Option Scan
  | [] => some s
  | ch :: rest => (s.char fullName index ch).bind fun s => s.chars fullName (index + 1) rest

def Scan.init (fullName : List Char) : Scan := ⟨none,0,fullName⟩

/-- `split("::")`. -/
def splitPath : List Char → List (List Char)
  | [] => [[]]
  | ':' :: ':' :: rest => [] :: splitPath rest
  | ch :: rest => (splitPath rest).modifyHead (ch :: ·)

def getStructName (fullName : List Char) : Option (List Char) :=
  ((Scan.init fullName).chars fullName 0 fullName).bind fun s => (splitPath s.segment).getLast?

section Split

variable {name text : List Char}

theorem splitPath_ne_nil (text : List Char) : splitPath text ≠ [] := by
  induction text using splitPath.induct with
  | case1 => simp [splitPath]
  | case2 => simp [splitPath]
  | case3 ch rest apart ih =>
    rw [splitPath]
    · simpa using ih
    · exact apart

theorem splitPath_cons {ch : Char} {rest : List Char} (apart : ch ≠ ':' ∨ rest.head? ≠ some ':') :
    splitPath (ch :: rest) = (splitPath rest).modifyHead (ch :: ·) := by
  rw [splitPath]
  rintro tail rfl rfl
  rcases apart with other | other
  · exact other rfl
  · exact other rfl

/-- The text before a separator does not end in the middle of one. -/
theorem splitPath_append (text rest : List Char) (clean : text.getLast? ≠ some ':') :
    splitPath (text ++ ':' :: ':' :: rest) = splitPath text ++ splitPath rest := by
  induction text using splitPath.induct with
  | case1 => rfl
  | case2 tail ih =>
    cases tail with
    | nil => exact absurd rfl clean
    | cons ch tail =>
      have clean : (ch :: tail).getLast? ≠ some ':' := by
        rwa [List.getLast?_cons_cons,List.getLast?_cons_cons] at clean
      exact congrArg ([] :: ·) (ih clean)
  | case3 ch tail apart ih =>
    have apart : ch ≠ ':' ∨ tail.head? ≠ some ':' := by
      by_cases colon : ch = ':'
      · right
        intro begins
        obtain ⟨more,is⟩ := List.head?_eq_some_iff.mp begins
        exact apart more colon is
      · exact .inl colon
    cases tail with
    | nil =>
      have other : ch ≠ ':' := fun is => clean (by rw [is]; rfl)
      rw [splitPath_cons (.inl other)]
      change splitPath (ch :: ':' :: ':' :: rest) = _
      rw [splitPath_cons (.inl other),splitPath]
      rfl
    | cons next tail =>
      have clean : (next :: tail).getLast? ≠ some ':' := by rwa [List.getLast?_cons_cons] at clean
      rw [List.cons_append,splitPath_cons (by exact apart),ih clean,splitPath_cons apart]
      obtain ⟨part,parts,is⟩ := List.exists_cons_of_ne_nil (splitPath_ne_nil (next :: tail))
      rw [is]
      rfl

theorem splitPath_colonless (colonless : ':' ∉ name) : splitPath name = [name] := by
  induction name with
  | nil => rfl
  | cons ch rest ih =>
    have other : ch ≠ ':' := Ne.symm (List.ne_of_not_mem_cons colonless)
    rw [splitPath_cons (.inl other),ih (List.not_mem_of_not_mem_cons colonless)]
    rfl

theorem last_segment (colonless : ':' ∉ name) (clean : text.getLast? ≠ some ':') :
    (splitPath (text ++ ':' :: ':' :: name)).getLast? = some name := by
  rw [splitPath_append text name clean,splitPath_colonless colonless,List.getLast?_concat]

end Split

/-! The loop as it goes over a name whose brackets match: the text since `start` instead of the
position. -/

structure Piece where
  text : List Char
  depth : Nat
  segment : List Char

namespace Piece

def char (p : Piece) (ch : Char) : Option Piece :=
  match turn ch,p.depth with
  | .opens,d =>
    if d + 1 < 2 ^ 31 then some ⟨p.text ++ [ch],d + 1,if d = 0 then p.text else p.segment⟩ else none
  | .closes,0 => none
  | .closes,d + 1 => some ⟨if d = 0 then [] else p.text ++ [ch],d,p.segment⟩
  | .other,d => some ⟨p.text ++ [ch],d,p.segment⟩

def run (p : Piece) : List Char → Option Piece
  | [] => some p
  | ch :: rest => (p.char ch).bind fun p => p.run rest

/-- The same state of the loop. -/
structure Reads (fullName : List Char) (index : Nat) (s : Scan) (p : Piece) : Prop where
  angleBrackets : s.angleBrackets = p.depth
  segment : s.segment = p.segment
  depth : p.depth < 2 ^ 31
  start : s.start.getD index ≤ index
  text : p.text = (fullName.take index).drop (s.start.getD index)

variable {fullName : List Char} {index : Nat} {s : Scan} {p q : Piece} {ch : Char}

theorem reads_init (fullName : List Char) :
    Reads fullName 0 (Scan.init fullName) ⟨[],0,fullName⟩ where
  angleBrackets := rfl
  segment := rfl
  depth := Nat.two_pow_pos 31
  start := Nat.le_refl 0
  text := rfl

theorem i32_of_depth {d : Nat} (lt : d < 2 ^ 31) : i32 d = some (d : Int) :=
  if_pos (by omega)

section Step

theorem turn_opens : turn ch = .opens ↔ ch = '<' := by
  rw [turn]
  split
  next is => exact iff_of_true rfl is
  next other =>
    refine iff_of_false ?_ other
    split
    all_goals simp

theorem turn_closes : turn ch = .closes ↔ ch = '>' := by
  rw [turn]
  split
  next is => exact iff_of_false (by simp) (by rw [is]; decide)
  next => split <;> simp_all

/-- `get_or_insert`. -/
def started (s : Scan) (index : Nat) : Scan := { s with start := some (s.start.getD index) }

theorem char_open (s : Scan) : s.char fullName index '<' = (started s index).atOpen fullName index := by
  rw [Scan.char]
  exact Option.bind_fun_some _

theorem char_close (s : Scan) : s.char fullName index '>' = (started s index).atClose := rfl

theorem char_other (s : Scan) (other : turn ch = .other) :
    s.char fullName index ch = some (started s index) := by
  have no_open : ch ≠ '<' := fun is => by rw [turn_opens.mpr is] at other; contradiction
  have no_close : ch ≠ '>' := fun is => by rw [turn_closes.mpr is] at other; contradiction
  rw [Scan.char,if_neg no_open,Option.bind_eq_bind,Option.bind_some]
  exact if_neg no_close

/-- The text grows by the character at the position. -/
theorem Reads.text_append (reads : Reads fullName index s p) (at_index : fullName[index]? = some ch) :
    (fullName.take (index + 1)).drop (s.start.getD index) = p.text ++ [ch] := by
  obtain ⟨lt,is⟩ := List.getElem?_eq_some_iff.mp at_index
  have start := reads.start
  rw [List.take_add_one,at_index,Option.toList_some,List.drop_append_of_le_length,← reads.text]
  rw [List.length_take]
  omega

theorem Reads.range (reads : Reads fullName index s p) (at_index : fullName[index]? = some ch) :
    Slice.range fullName (s.start.getD index) index = some p.text := by
  obtain ⟨lt,_⟩ := List.getElem?_eq_some_iff.mp at_index
  rw [Slice.range,if_pos ⟨reads.start,Nat.le_of_lt lt⟩,← reads.text]

/-- What the body of the loop does where the brackets match so far. -/
theorem Reads.char (reads : Reads fullName index s p) (at_index : fullName[index]? = some ch)
    (stepped : p.char ch = some q) :
    ∃ s', s.char fullName index ch = some s' ∧ Reads fullName (index + 1) s' q := by
  have grown := reads.text_append at_index
  have range := reads.range at_index
  have count := reads.angleBrackets
  have start := Nat.le_succ_of_le reads.start
  cases which : turn ch with
  | opens =>
    obtain rfl := turn_opens.mp which
    simp only [Piece.char,which,Option.ite_none_right_eq_some] at stepped
    obtain ⟨room,is⟩ := stepped
    obtain rfl := Option.some.inj is
    have counted : i32 (s.angleBrackets + 1) = some ((p.depth + 1 : Nat) : Int) := by
      rw [count]
      exact i32_of_depth room
    refine ⟨⟨some (s.start.getD index),((p.depth + 1 : Nat) : Int),
      if p.depth = 0 then p.text else p.segment⟩,?_,rfl,rfl,room,start,grown.symm⟩
    rw [char_open,Scan.atOpen]
    have same : (s.angleBrackets = 0) = (p.depth = 0) := by
      rw [count]
      exact propext Int.natCast_eq_zero
    simp only [started,counted,same,reads.segment,Option.bind_some,range]
    split
    all_goals rfl
  | closes =>
    obtain rfl := turn_closes.mp which
    cases level : p.depth with
    | zero => simp [Piece.char,which,level] at stepped
    | succ d =>
      simp only [Piece.char,which,level] at stepped
      obtain rfl := Option.some.inj stepped
      have lower : d < 2 ^ 31 := by
        have := reads.depth
        omega
      have counted : i32 (s.angleBrackets - 1) = some (d : Int) := by
        rw [count,level]
        exact (congrArg i32 (by omega)).trans (i32_of_depth lower)
      rw [char_close,Scan.atClose]
      simp only [started,counted]
      refine ⟨_,rfl,rfl,reads.segment,lower,?_,?_⟩
      all_goals
        simp only [Int.natCast_eq_zero]
        split
      · exact Nat.le_refl (index + 1)
      · exact start
      · exact (List.drop_eq_nil_of_le (List.length_take_le _ _)).symm
      · exact grown.symm
  | other =>
    simp only [Piece.char,which] at stepped
    obtain rfl := Option.some.inj stepped
    exact ⟨_,char_other s which,count,reads.segment,reads.depth,start,grown.symm⟩

/-- Where the brackets stop matching, the counter leaves its range or goes below zero. -/
theorem Reads.char_none (reads : Reads fullName index s p) (at_index : fullName[index]? = some ch)
    (stuck : p.char ch = none) {s' : Scan} (stepped : s.char fullName index ch = some s') :
    s'.angleBrackets < 0 := by
  have count := reads.angleBrackets
  cases which : turn ch with
  | opens =>
    obtain rfl := turn_opens.mp which
    simp only [Piece.char,which,ite_eq_right_iff] at stuck
    have full : i32 (s.angleBrackets + 1) = none := by
      apply if_neg
      have depth := reads.depth
      have room : ¬ p.depth + 1 < 2 ^ 31 := fun room => by simpa using stuck room
      omega
    rw [char_open,Scan.atOpen] at stepped
    simp only [started,full,Option.bind_eq_bind,Option.bind_none,Option.bind_fun_none,
      ite_self] at stepped
    contradiction
  | closes =>
    obtain rfl := turn_closes.mp which
    cases level : p.depth with
    | zero =>
      have counted : i32 (s.angleBrackets - 1) = some (-1) := by
        rw [count,level]
        rfl
      rw [char_close,Scan.atClose] at stepped
      simp only [started,counted] at stepped
      obtain rfl := Option.some.inj stepped
      exact Int.negSucc_lt_zero 0
    | succ d => simp [Piece.char,which,level] at stuck
  | other => simp [Piece.char,which] at stuck

end Step

section Run

/-- The loop over a part of the name whose brackets match. -/
theorem Reads.chars {word : List Char} (done rest : List Char)
    (whole : fullName = done ++ word ++ rest) (reads : Reads fullName done.length s p)
    (ran : p.run word = some q) :
    ∃ s', s.chars fullName done.length word = some s' ∧
      Reads fullName (done ++ word).length s' q := by
  induction word generalizing done s p with
  | nil =>
    obtain rfl := Option.some.inj ran
    exact ⟨s,rfl,by rwa [List.append_nil]⟩
  | cons ch word ih =>
    obtain ⟨p',stepped,ran⟩ := Option.bind_eq_some_iff.mp ran
    have at_index : fullName[done.length]? = some ch := by
      rw [whole]
      simp
    obtain ⟨s',step,reads⟩ := reads.char at_index stepped
    have length : (done ++ [ch]).length = done.length + 1 := List.length_append
    rw [← length] at reads
    obtain ⟨s'',steps,reads⟩ := ih _ (by rw [whole]; simp) reads ran
    rw [length] at steps
    refine ⟨s'',?_,by simpa using reads⟩
    rw [Scan.chars,step,Option.bind_some,steps]

/-- Where the brackets do not match, some part of the name brings the counter out of its range or
below zero. -/
theorem Reads.chars_none {word : List Char} (done rest : List Char)
    (whole : fullName = done ++ word ++ rest) (reads : Reads fullName done.length s p)
    (stuck : p.run word = none) :
    ∃ before, before <+: word ∧ ∀ s', s.chars fullName done.length before = some s' →
      s'.angleBrackets < 0 := by
  induction word generalizing done s p with
  | nil => contradiction
  | cons ch word ih =>
    have at_index : fullName[done.length]? = some ch := by
      rw [whole]
      simp
    cases stepped : p.char ch with
    | none =>
      refine ⟨[ch],⟨word,rfl⟩,fun s' steps => ?_⟩
      obtain ⟨_,step,is⟩ := Option.bind_eq_some_iff.mp steps
      obtain rfl := Option.some.inj is
      exact reads.char_none at_index stepped step
    | some p' =>
      rw [run,stepped,Option.bind_some] at stuck
      obtain ⟨s',step,reads⟩ := reads.char at_index stepped
      have length : (done ++ [ch]).length = done.length + 1 := List.length_append
      rw [← length] at reads
      obtain ⟨before,⟨after,is⟩,below⟩ := ih _ (by rw [whole]; simp) reads stuck
      refine ⟨ch :: before,⟨after,by rw [List.cons_append,is]⟩,fun s'' steps => ?_⟩
      rw [Scan.chars,step,Option.bind_some,← length] at steps
      exact below s'' steps

/-- The depth is the level. -/
theorem depth_run (p : Piece) (word : List Char) :
    (p.run word).map depth = level turn (2 ^ 31) p.depth word := by
  induction word generalizing p with
  | nil => rfl
  | cons ch word ih =>
    rw [run]
    cases which : turn ch with
    | opens =>
      rw [level_opens which]
      simp only [Piece.char,which]
      split
      · exact ih _
      · rfl
    | closes =>
      cases depth : p.depth with
      | zero =>
        rw [level_closes_zero which]
        simp only [Piece.char,which,depth]
        rfl
      | succ d =>
        rw [level_closes which]
        simp only [Piece.char,which,depth]
        exact ih _
    | other =>
      rw [level_other which]
      simp only [Piece.char,which]
      exact ih _

theorem run_append (p : Piece) (word rest : List Char) :
    p.run (word ++ rest) = (p.run word).bind fun p => p.run rest := by
  induction word generalizing p with
  | nil => rfl
  | cons ch word ih =>
    rw [List.cons_append,run,run,Option.bind_assoc]
    exact congrArg _ (funext fun p => ih p)

/-- Inside of brackets the text grows and the segment stays. -/
theorem run_inside {d e : Nat} {word : List Char} (depth : p.depth = d + 1)
    (reached : level turn (2 ^ 31 - 1) d word = some e) :
    p.run word = some ⟨p.text ++ word,e + 1,p.segment⟩ := by
  induction word generalizing p d with
  | nil =>
    obtain rfl := Option.some.inj reached
    rw [List.append_nil,← depth]
    rfl
  | cons ch word ih =>
    rw [run]
    cases which : turn ch with
    | opens =>
      rw [level_opens which,Option.ite_none_right_eq_some] at reached
      obtain ⟨room,reached⟩ := reached
      have enough : d + 1 + 1 < 2 ^ 31 := by omega
      simp only [Piece.char,which,depth,if_pos enough,Option.bind_some]
      rw [ih rfl reached]
      simp
    | closes =>
      cases d with
      | zero =>
        rw [level_closes_zero which] at reached
        contradiction
      | succ d =>
        rw [level_closes which] at reached
        simp only [Piece.char,which,depth,Option.bind_some]
        rw [ih rfl reached]
        simp
    | other =>
      rw [level_other which] at reached
      simp only [Piece.char,which,Option.bind_some]
      rw [ih (p := ⟨p.text ++ [ch],p.depth,p.segment⟩) depth reached]
      simp

/-- Text without brackets. -/
theorem run_plain {word : List Char} (plain : ∀ ch ∈ word, turn ch = .other) :
    p.run word = some ⟨p.text ++ word,p.depth,p.segment⟩ := by
  induction word generalizing p with
  | nil =>
    rw [List.append_nil]
    rfl
  | cons ch word ih =>
    rw [run]
    simp only [Piece.char,plain ch List.mem_cons_self,Option.bind_some]
    rw [ih fun a has => plain a (List.mem_cons_of_mem ch has)]
    simp

/-- A pair of brackets at the outermost level makes the text before it the segment. -/
theorem run_brackets {n : Nat} {word : List Char} (outside : p.depth = 0)
    (nested : Nested turn n word) (room : n + 1 < 2 ^ 31) :
    p.run ('<' :: (word ++ ['>'])) = some ⟨[],0,p.text⟩ := by
  have opened : p.char '<' = some ⟨p.text ++ ['<'],1,p.text⟩ := by
    have which : turn '<' = .opens := rfl
    simp [Piece.char,which,outside]
  have reached := nested (2 ^ 31 - 1) 0 (by omega)
  rw [if_pos (by omega)] at reached
  rw [run,opened,Option.bind_some,run_append,run_inside rfl reached]
  rfl

end Run

section Path

/-- At the outermost level of a path, with the last segment that had arguments. -/
structure Outer (p : Piece) (generic : Option Ident) : Prop where
  depth : p.depth = 0
  clean : p.text.getLast? ≠ some ':'
  segment : ∀ name ∈ generic, (splitPath p.segment).getLast? = some name.chars

/-- A name with its arguments. -/
theorem Outer.name {generic : Option Ident} (outer : Outer p generic) (name : Ident) (args : Items)
    {front : List Char} (plain : ∀ ch ∈ front, turn ch = .other)
    (last : (splitPath (p.text ++ front)).getLast? = some name.chars)
    (clean : (p.text ++ front).getLast? ≠ some ':') (arrowless : args.arrows = 0)
    (room : args.anglesDepth < 2 ^ 31) :
    ∃ q, p.run (front ++ args.angles) = some q ∧
      Outer q (if args.isNil then generic else some name) := by
  rw [run_append,run_plain plain,Option.bind_some]
  cases args with
  | nil => exact ⟨_,rfl,outer.depth,clean,outer.segment⟩
  | cons item items =>
    obtain ⟨itemless,restless⟩ := Nat.add_eq_zero_iff.mp arrowless
    have nested := (item.nested_print itemless).append (items.nested_more restless)
    refine ⟨_,run_brackets outer.depth nested room,rfl,by simp,fun other is => ?_⟩
    obtain rfl := Option.some.inj is
    exact last

theorem getLast?_name (text : List Char) (name : Ident) :
    (text ++ name.chars).getLast? ≠ some ':' := by
  intro last
  obtain ⟨ch,is⟩ := Option.isSome_iff_exists.mp (List.getLast?_isSome.mpr name.nonempty)
  rw [List.getLast?_append,is,Option.some_or] at last
  obtain rfl := Option.some.inj last
  exact name.colonless (List.mem_of_getLast? is)

theorem plain_separated (name : Ident) : ∀ ch ∈ ':' :: ':' :: name.chars, turn ch = .other := by
  intro ch has
  rcases List.mem_cons.mp has with rfl | has
  · rfl
  rcases List.mem_cons.mp has with rfl | has
  · rfl
  · exact name.plain ch has

/-- A name behind `::`. -/
theorem Outer.separated {generic : Option Ident} (outer : Outer p generic) (name : Ident)
    (args : Items) (arrowless : args.arrows = 0) (room : args.anglesDepth < 2 ^ 31) :
    ∃ q, p.run (':' :: ':' :: (name.chars ++ args.angles)) = some q ∧
      Outer q (if args.isNil then generic else some name) := by
  refine outer.name name args (plain_separated name) (last_segment name.colonless outer.clean) ?_
    arrowless room
  have clean := getLast?_name (p.text ++ [':',':']) name
  rwa [List.append_assoc] at clean

/-- The loop over the outermost path, by its segments. -/
theorem outer_path (p : Piece) (begins : p.text = []) (outside : p.depth = 0) : ∀ path : Path,
    path.arrows = 0 → path.depth < 2 ^ 31 →
      ∃ q, p.run path.print = some q ∧ Outer q path.lastGeneric := by
  intro path arrowless room
  cases path with
  | first name args =>
    have outer : Outer p none := ⟨outside,by rw [begins]; simp,by simp⟩
    refine outer.name name args name.plain ?_ (getLast?_name p.text name) arrowless room
    rw [begins,List.nil_append,splitPath_colonless name.colonless]
    rfl
  | inherent self name args =>
    obtain ⟨selfless,argless⟩ := Nat.add_eq_zero_iff.mp arrowless
    have bracketed := run_brackets outside (self.nested_print selfless)
      (Nat.lt_of_le_of_lt (Nat.le_max_left _ _) room)
    have outer : Outer ⟨[],0,p.text⟩ none := ⟨rfl,by simp,by simp⟩
    obtain ⟨q,ran,named⟩ := outer.separated name args argless
      (Nat.lt_of_le_of_lt (Nat.le_max_right _ _) room)
    refine ⟨q,?_,named⟩
    rw [Path.print,run_append,bracketed,Option.bind_some,ran]
  | qualified self trait name args =>
    obtain ⟨both,argless⟩ := Nat.add_eq_zero_iff.mp arrowless
    obtain ⟨selfless,traitless⟩ := Nat.add_eq_zero_iff.mp both
    have as : Nested turn 0 [' ','a','s',' '] := nested_of_other (by simp [turn])
    have within := (self.nested_print selfless).append (as.append (trait.nested_print traitless))
    rw [Nat.zero_max] at within
    have bracketed := run_brackets outside within
      (Nat.lt_of_le_of_lt (Nat.le_max_left _ _) room)
    have outer : Outer ⟨[],0,p.text⟩ none := ⟨rfl,by simp,by simp⟩
    obtain ⟨q,ran,named⟩ := outer.separated name args argless
      (Nat.lt_of_le_of_lt (Nat.le_max_right _ _) room)
    refine ⟨q,?_,named⟩
    rw [Path.print,run_append]
    exact (congrArg (Option.bind · _) bracketed).trans ran
  | segment path name args =>
    obtain ⟨pathless,argless⟩ := Nat.add_eq_zero_iff.mp arrowless
    obtain ⟨middle,first,outer⟩ := outer_path p begins outside path pathless
      (Nat.lt_of_le_of_lt (Nat.le_max_left _ _) room)
    obtain ⟨q,ran,named⟩ := outer.separated name args argless
      (Nat.lt_of_le_of_lt (Nat.le_max_right _ _) room)
    refine ⟨q,?_,named⟩
    rw [Path.print,run_append,first,Option.bind_some,ran]

end Path

end Piece

open Piece

/-- The counter never goes below zero, nothing panics, and for a path with generic arguments the
result is the last segment of the outermost path without its arguments. -/
structure Meets (t : Ty) : Prop where
  counts : ∀ before, before <+: t.print →
    ∃ s, (Scan.init t.print).chars t.print 0 before = some s ∧ 0 ≤ s.angleBrackets
  returns : (getStructName t.print).isSome
  named : ∀ path, t = .path path → path.lastGeneric.isSome →
    getStructName t.print = some path.last.chars

section Meets

variable {t : Ty} {q : Piece}

theorem getStructName_of_run (ran : run ⟨[],0,t.print⟩ t.print = some q) :
    getStructName t.print = (splitPath q.segment).getLast? := by
  obtain ⟨s,steps,reads⟩ := (reads_init t.print).chars [] [] (List.append_nil _).symm ran
  rw [getStructName,show (Scan.init t.print).chars t.print 0 t.print = some s from steps,
    Option.bind_some,reads.segment]

/-- The counter stays in its range and at zero or above if and only if the brackets match. -/
theorem counts_iff :
    (∀ before, before <+: t.print →
        ∃ s, (Scan.init t.print).chars t.print 0 before = some s ∧ 0 ≤ s.angleBrackets) ↔
      ∃ q, run ⟨[],0,t.print⟩ t.print = some q := by
  constructor
  · intro counts
    by_contra none
    obtain ⟨before,part,below⟩ := (reads_init t.print).chars_none [] []
      (List.append_nil _).symm (Option.eq_none_iff_forall_ne_some.mpr fun q ran => none ⟨q,ran⟩)
    obtain ⟨s,steps,positive⟩ := counts before part
    have negative := below s steps
    omega
  · rintro ⟨q,ran⟩ before ⟨after,is⟩
    rw [← is,run_append] at ran
    obtain ⟨p,ran,_⟩ := Option.bind_eq_some_iff.mp ran
    rw [is] at ran
    obtain ⟨s,steps,reads⟩ := (reads_init t.print).chars [] after is.symm ran
    exact ⟨s,steps,by rw [reads.angleBrackets]; omega⟩

/-- The brackets of a name match if and only if it has no arrow, up to the depth that the counter
can follow. -/
theorem run_iff :
    (∃ q, run ⟨[],0,t.print⟩ t.print = some q) ↔ t.arrows = 0 ∧ t.depth < 2 ^ 31 := by
  have level : (run ⟨[],0,t.print⟩ t.print).map depth = Nesting.level turn (2 ^ 31) 0 t.print :=
    depth_run ⟨[],0,t.print⟩ t.print
  constructor
  · rintro ⟨q,ran⟩
    rw [ran] at level
    have sum := level_net level.symm
    rw [t.net_print] at sum
    have arrowless : t.arrows = 0 := by omega
    have nested := t.nested_print arrowless (2 ^ 31) 0 (Nat.two_pow_pos 31)
    refine ⟨arrowless,?_⟩
    by_contra deep
    rw [if_neg (by omega)] at nested
    exact Option.some_ne_none _ (level.trans nested)
  · rintro ⟨arrowless,shallow⟩
    have nested := t.nested_print arrowless (2 ^ 31) 0 (Nat.two_pow_pos 31)
    rw [if_pos (by omega)] at nested
    obtain ⟨q,ran,_⟩ := Option.map_eq_some_iff.mp (level.trans nested)
    exact ⟨q,ran⟩

theorem getStructName_path (path : Path) (arrowless : path.arrows = 0) (shallow : path.depth < 2 ^ 31)
    {name : Ident} (generic : path.lastGeneric = some name) :
    getStructName path.print = some name.chars := by
  obtain ⟨q,ran,outer⟩ := outer_path ⟨[],0,path.print⟩ rfl rfl path arrowless shallow
  rw [show path.print = (Ty.path path).print from rfl] at ran ⊢
  rw [getStructName_of_run ran]
  exact outer.segment name generic

/-- The `>` of an arrow counts as a bracket that closes, and what follows the last bracket at the
outermost level is never taken up. So the name is right if and only if there is no arrow, the
brackets are no deeper than the counter goes, and the last segment with arguments has the name of
the last segment. -/
theorem getStructName_meets_iff (t : Ty) :
    Meets t ↔ t.arrows = 0 ∧ t.depth < 2 ^ 31 ∧ ∀ path, t = .path path →
      ∀ name, path.lastGeneric = some name → name.chars = path.last.chars := by
  constructor
  · intro holds
    obtain ⟨arrowless,shallow⟩ := run_iff.mp (counts_iff.mp holds.counts)
    refine ⟨arrowless,shallow,fun path is name generic => ?_⟩
    have named := holds.named path is (Option.isSome_iff_exists.mpr ⟨name,generic⟩)
    subst is
    rw [Ty.print,getStructName_path path arrowless shallow generic] at named
    exact Option.some.inj named
  · rintro ⟨arrowless,shallow,same⟩
    have matched := run_iff.mpr ⟨arrowless,shallow⟩
    refine ⟨counts_iff.mpr matched,?_,fun path is generic => ?_⟩
    · obtain ⟨q,ran⟩ := matched
      rw [getStructName_of_run ran,List.getLast?_isSome]
      exact splitPath_ne_nil q.segment
    · obtain ⟨name,generic⟩ := Option.isSome_iff_exists.mp generic
      rw [← same path is name generic]
      subst is
      exact getStructName_path path arrowless shallow generic

/-- A name of one letter. -/
def letter (ch : Char) (plain : turn ch = .other) (colonless : ch ≠ ':') : Ident where
  chars := [ch]
  plain := by simpa using plain
  nonempty := by simp
  colonless := by simpa using colonless.symm

/-- `f::S<fn(g::A) -> g::B, g::C<D>>`. -/
def callback : Ty :=
  let f := letter 'f' rfl (by decide)
  let g := letter 'g' rfl (by decide)
  let segment (ch : Char) (plain : turn ch = .other) (colonless : ch ≠ ':') (args : Items) : Ty :=
    .path (.segment (.first g .nil) (letter ch plain colonless) args)
  let head : Plain := ⟨['f','n'],by simp [turn]⟩
  let result := segment 'B' rfl (by decide) .nil
  let function := Ty.fnTo head (.cons (segment 'A' rfl (by decide) .nil) .nil) result
  let item := Ty.path (.first (letter 'D' rfl (by decide)) .nil)
  let generic := segment 'C' rfl (by decide) (.cons item .nil)
  .path (.segment (.first f .nil) (letter 'S' rfl (by decide)) (.cons function (.cons generic .nil)))

theorem callback_not_meets :
    callback.print = "f::S<fn(g::A) -> g::B, g::C<D>>".toList ∧
      getStructName callback.print = some ['C'] ∧ ¬ Meets callback := by
  refine ⟨by decide,by decide,fun holds => ?_⟩
  have named : getStructName callback.print = some ['S'] := holds.named _ rfl rfl
  exact absurd named (by decide)

end Meets

end XxCore.Log
