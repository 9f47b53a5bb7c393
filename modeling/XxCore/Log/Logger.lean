import Mathlib.Data.List.Induction
import XxCore.Lib.Delimited
import XxCore.Lib.Format

/-! The logger of `log/logger.rs`, which writes a prefix before each line of a record. A text is given
as its bytes; `\n` is 10. -/
namespace XxCore.Log

open Format

inductive Level where
  | error | warn | info | debug | trace
  deriving DecidableEq, Repr

structure Record where
  level : Level
  target : List Char

/-- `ansi_color!` -/
def ansiColor (color : Nat) : List Char := "\x1b[1;48;5;".toList ++ (toString color).toList ++ ['m']

def ansiBold : List Char := "\x1b[1m".toList

def ansiReset : List Char := "\x1b[0m".toList

/-- `{: >width}` -/
def padLeft (width : Nat) (text : List Char) : List Char :=
  List.replicate (width - text.length) ' ' ++ text

def Record.withColor (record : Record) (color : List Char) : List UInt8 :=
  (color ++ "| ".toList ++ padLeft 24 record.target ++ " |".toList ++ ansiReset ++
    [' ']).flatMap String.utf8EncodeChar

/-- What `write_prefix` writes. -/
def Record.front (record : Record) : List UInt8 :=
  match record.level with
  | .error => record.withColor (ansiColor 1)
  | .warn => record.withColor (ansiColor 11)
  | .info => record.withColor (ansiColor 10)
  | .debug => record.withColor (ansiColor 14)
  | .trace => record.withColor ansiBold

/-- The buffered error output. -/
structure Output (σ : Type) where
  writeAll : List UInt8 → σ → Bool × σ
  flush : σ → σ

structure Adapter (σ : Type) where
  output : σ
  wrotePrefix : Bool

variable {σ : Type}

namespace Adapter

variable (O : Output σ) (record : Record)

def writeAll (data : List UInt8) (a : Adapter σ) : Bool × Adapter σ :=
  let (ok,output) := O.writeAll data a.output
  (ok,{ a with output })

/-- `write_prefix` -/
def writeFront (a : Adapter σ) : Bool × Adapter σ :=
  if a.wrotePrefix then (true,a)
  else
    let (ok,output) := O.writeAll record.front a.output
    (ok,{ output, wrotePrefix := true })

/-- Text behind the prefix. -/
def writePart (data : List UInt8) (a : Adapter σ) : Bool × Adapter σ :=
  match a.writeFront O record with
  | (true,a) => a.writeAll O data
  | (false,a) => (false,a)

/-- The loop of `write_str`. -/
def writeLines : List (List UInt8) → Adapter σ → Bool × Adapter σ
  | [],a => (true,a)
  | line :: lines,a =>
    match a.writePart O record line with
    | (true,a) =>
      writeLines lines (if line.getLast? = some 10 then { a with wrotePrefix := false } else a)
    | (false,a) => (false,a)

def writeStr (data : List UInt8) (a : Adapter σ) : Bool × Adapter σ :=
  if 10 ∉ data then a.writePart O record data
  else a.writeLines O record (Delimited.pieces 10 data)

end Adapter

/-- `Logger::log` -/
def log (O : Output σ) (record : Record) (args : Arguments UInt8) (output : σ) : Option σ :=
  let adapter : Adapter σ := ⟨output,false⟩
  (args.run (fun data a => some (a.writeStr O record data)) adapter).map fun (_,adapter) =>
    let adapter := if adapter.wrotePrefix then (adapter.writeAll O [10]).2 else adapter
    O.flush adapter.output

/-- Records, one after the other: the output is locked for each as a whole. -/
def logs (O : Output σ) : List (Record × Arguments UInt8) → σ → Option σ
  | [],output => some output
  | (record,args) :: records,output => (log O record args output).bind (logs O records)

/-- The output takes bytes in order, and a part of them where it fails. -/
structure Output.Logged (O : Output σ) (taken : σ → List UInt8) : Prop where
  ok : ∀ {data s s'}, O.writeAll data s = (true,s') → taken s' = taken s ++ data
  failed : ∀ {data s s'}, O.writeAll data s = (false,s') → ∃ k, taken s' = taken s ++ data.take k
  flush : ∀ s, taken (O.flush s) = taken s

/-- A newline, unless the text ends with one and no empty string was written after it. -/
def ending (args : Arguments UInt8) : List UInt8 :=
  if args.text.getLast?.all (· = 10) ∧ args.pieces.getLast? ≠ some [] then [] else [10]

/-- The lines of a record. -/
def Record.lines (record : Record) (args : Arguments UInt8) : List UInt8 :=
  (Delimited.pieces 10 (args.text ++ ending args)).flatMap (record.front ++ ·)

/-! What a text adds to the output, if nothing fails, and whether the next one goes on in its line. -/

section Emit

variable (front : List UInt8)

def emit : Bool → List UInt8 → List UInt8 × Bool
  | wrote,[] => ([],wrote)
  | wrote,b :: rest =>
    ((if wrote then [] else front) ++ b :: (emit (b != 10) rest).1,(emit (b != 10) rest).2)

/-- One string; the prefix is written also before an empty one. -/
def emitStr (wrote : Bool) (data : List UInt8) : List UInt8 × Bool :=
  if data = [] then (if wrote then [] else front,true) else emit front wrote data

def emits : Bool → List (List UInt8) → List UInt8 × Bool
  | wrote,[] => ([],wrote)
  | wrote,data :: pieces =>
    ((emitStr front wrote data).1 ++ (emits (emitStr front wrote data).2 pieces).1,
      (emits (emitStr front wrote data).2 pieces).2)

variable {front} {wrote : Bool} {data more : List UInt8} {pieces : List (List UInt8)}

theorem emit_append : emit front wrote (data ++ more) =
    ((emit front wrote data).1 ++ (emit front (emit front wrote data).2 more).1,
      (emit front (emit front wrote data).2 more).2) := by
  induction data generalizing wrote with
  | nil => rfl
  | cons b rest ih => simp [emit,ih]

theorem emits_append {more : List (List UInt8)} : emits front wrote (pieces ++ more) =
    ((emits front wrote pieces).1 ++ (emits front (emits front wrote pieces).2 more).1,
      (emits front (emits front wrote pieces).2 more).2) := by
  induction pieces generalizing wrote with
  | nil => rfl
  | cons data pieces ih => simp [emits,ih]

/-- Text within a line. -/
theorem emit_part (some_ : data ≠ []) (none : 10 ∉ data) :
    emit front wrote data = ((if wrote then [] else front) ++ data,true) := by
  induction data generalizing wrote with
  | nil => contradiction
  | cons b rest ih =>
    have ne : b ≠ 10 := Ne.symm (List.ne_of_not_mem_cons none)
    cases rest with
    | nil => simp [emit,ne]
    | cons c rest =>
      rw [emit,ih (by simp) (List.not_mem_of_not_mem_cons none)]
      simp [ne]

/-- Text up to the end of a line. -/
theorem emit_line (none : 10 ∉ data) :
    emit front wrote (data ++ [10]) = ((if wrote then [] else front) ++ (data ++ [10]),false) := by
  by_cases empty : data = []
  · simp [empty,emit]
  · rw [emit_append,emit_part empty none]
    simp [emit]

theorem emit_lines (text : List UInt8) :
    (emit front false text).1 = (Delimited.pieces 10 text).flatMap (front ++ ·) := by
  have cut := Delimited.pieces_isCut (d := 10) text
  generalize Delimited.pieces 10 text = lines at cut
  induction cut with
  | nil => rfl
  | last some_ none => simp [emit_part some_ none]
  | cons none _ ih =>
    rw [emit_append,emit_line none,ih]
    simp

theorem emit_snd : (emit front wrote data).2 = data.getLast?.elim wrote (· != 10) := by
  induction data generalizing wrote with
  | nil => rfl
  | cons b rest ih =>
    rw [emit,ih]
    cases rest with
    | nil => rfl
    | cons c rest => simp [List.getLast?_cons]

/-- Where a line begins, the prefix comes first. -/
theorem emit_front (some_ : data ≠ []) : emit front false data =
    (front ++ (emit front true data).1,(emit front true data).2) := by
  cases data with
  | nil => contradiction
  | cons b rest => simp [emit]

/-- Strings add what their text does, and a prefix if the last one is empty where a line begins. By
induction from the back: what the last string does depends on what the ones before it have left. -/
theorem emits_eq : emits front false pieces =
    if (emit front false pieces.flatten).2 = false ∧ pieces.getLast? = some [] then
      ((emit front false pieces.flatten).1 ++ front,true)
    else emit front false pieces.flatten := by
  induction pieces using List.reverseRecOn with
  | nil => rfl
  | append_singleton pieces data ih =>
    rw [emits_append,ih,List.flatten_append,List.flatten_singleton,List.getLast?_concat]
    by_cases empty : data = []
    · subst empty
      rw [List.append_nil]
      generalize emit front false pieces.flatten = emitted
      rcases emitted with ⟨text,flag⟩
      cases flag
      all_goals
        by_cases dangling : pieces.getLast? = some []
        all_goals simp [emits,emitStr,dangling]
    · have last : ¬ ((emit front false (pieces.flatten ++ data)).2 = false ∧
          some data = some []) := by simp [empty]
      rw [if_neg last,emit_append]
      simp only [emits,emitStr,if_neg empty,List.append_nil]
      split
      next dangling => simp only [dangling.1,emit_front empty,List.append_assoc]
      next => rfl

/-- With the newline that `log` writes at the end, these are the lines of the record. -/
theorem emits_lines (record : Record) (args : Arguments UInt8) :
    (emits record.front false args.pieces).1 ++
        (if (emits record.front false args.pieces).2 then [10] else []) = record.lines args := by
  rw [Record.lines,← emit_lines,emits_eq,ending,emit_append,← Arguments.text]
  have flag : (emit record.front false args.text).2 = args.text.getLast?.elim false (· != 10) :=
    emit_snd
  cases last : args.text.getLast? with
  | none =>
    rw [last] at flag
    by_cases empty : args.pieces.getLast? = some []
    all_goals simp [flag,empty,emit]
  | some b =>
    rw [last] at flag
    by_cases newline : b = 10
    · by_cases empty : args.pieces.getLast? = some []
      all_goals simp [flag,newline,empty,emit]
    · simp [flag,newline,emit]

end Emit

section Log

variable {O : Output σ} {taken : σ → List UInt8} {record : Record} {data : List UInt8}
  {a a' : Adapter σ}

/-- No call of the output fails. -/
def Output.Total (O : Output σ) : Prop := ∀ data s, (O.writeAll data s).1 = true

/-- What a step with the adapter does: it adds all that it should, or a part of that if a call of the
output fails. -/
inductive Adds (O : Output σ) (taken : σ → List UInt8) (s : σ) (added : List UInt8 × Bool) :
    Bool × Adapter σ → Prop where
  | ok {a : Adapter σ} (log : taken a.output = taken s ++ added.1) (flag : a.wrotePrefix = added.2) :
      Adds O taken s added (true,a)
  | failed {a : Adapter σ} (part : List UInt8) (front : part <+: added.1)
      (log : taken a.output = taken s ++ part) (call : ¬ O.Total) : Adds O taken s added (false,a)

theorem Adds.all {s : σ} {added : List UInt8 × Bool} (adds : Adds O taken s added (true,a)) :
    taken a.output = taken s ++ added.1 ∧ a.wrotePrefix = added.2 := by
  cases adds with
  | ok log flag => exact ⟨log,flag⟩

theorem Adds.front {s : σ} {added : List UInt8 × Bool} (adds : Adds O taken s added (false,a)) :
    ¬ O.Total ∧ ∃ part, part <+: added.1 ∧ taken a.output = taken s ++ part := by
  cases adds with
  | failed part front log call => exact ⟨call,part,front,log⟩

/-- Two steps, the second one only if the first has not failed. -/
theorem Adds.andThen {s : σ} {first second : List UInt8 × Bool} {ran : Bool × Adapter σ}
    {next : Adapter σ → Bool × Adapter σ} (adds : Adds O taken s first ran)
    (rest : ∀ b, b.wrotePrefix = first.2 → Adds O taken b.output second (next b)) :
    Adds O taken s (first.1 ++ second.1,second.2) (if ran.1 then next ran.2 else (false,ran.2)) := by
  cases adds with
  | @ok b log flag =>
    have adds := rest b flag
    simp only [if_true]
    generalize next b = ran at adds
    cases adds with
    | ok log' flag' => exact .ok (by rw [log',log,List.append_assoc]) flag'
    | failed part front log' call =>
      refine .failed (first.1 ++ part) ((List.prefix_append_right_inj _).mpr front) ?_ call
      rw [log',log,List.append_assoc]
  | failed part front log call =>
    exact .failed part (front.trans (List.prefix_append first.1 second.1)) log call

theorem output_adds (logged : O.Logged taken) (s : σ) (flag : Bool) :
    Adds O taken s (data,flag) ((O.writeAll data s).1,⟨(O.writeAll data s).2,flag⟩) := by
  rcases ran : O.writeAll data s with ⟨ok,s'⟩
  cases ok with
  | true => exact .ok (logged.ok ran) rfl
  | false =>
    obtain ⟨k,log⟩ := logged.failed ran
    refine .failed _ (List.take_prefix k data) log fun total => ?_
    have ok := total data s
    rw [ran] at ok
    contradiction

theorem writeFront_adds (logged : O.Logged taken) (a : Adapter σ) :
    Adds O taken a.output (if a.wrotePrefix then [] else record.front,true)
      (a.writeFront O record) := by
  rw [Adapter.writeFront]
  cases wrote : a.wrotePrefix with
  | true => exact .ok (by simp) wrote
  | false => exact output_adds logged a.output true

theorem writePart_adds (logged : O.Logged taken) (a : Adapter σ) :
    Adds O taken a.output ((if a.wrotePrefix then [] else record.front) ++ data,true)
      (a.writePart O record data) := by
  have both : a.writePart O record data = if (a.writeFront O record).1 then
      (a.writeFront O record).2.writeAll O data else (false,(a.writeFront O record).2) := by
    rw [Adapter.writePart]
    rcases a.writeFront O record with ⟨ok,b⟩
    cases ok
    all_goals rfl
  have rest (b : Adapter σ) (flag : b.wrotePrefix = true) :
      Adds O taken b.output (data,true) (b.writeAll O data) := by
    rw [Adapter.writeAll,← flag]
    exact output_adds logged b.output b.wrotePrefix
  rw [both]
  exact (writeFront_adds logged a).andThen rest

theorem writeLines_adds (logged : O.Logged taken) {text : List UInt8} {lines : List (List UInt8)}
    (cut : Delimited.IsCut 10 text lines) (a : Adapter σ) :
    Adds O taken a.output (emit record.front a.wrotePrefix text) (a.writeLines O record lines) := by
  induction cut generalizing a with
  | nil => exact .ok (by simp [emit]) rfl
  | @last text some_ none =>
    have adds : Adds O taken a.output (_,true) (a.writePart O record text) := writePart_adds logged a
    have within : text.getLast? ≠ some 10 := fun is => none (List.mem_of_getLast? is)
    rw [emit_part some_ none,Adapter.writeLines]
    generalize a.writePart O record text = ran at adds
    rcases ran with ⟨ok,b⟩
    cases ok with
    | true => simpa only [if_neg within,Adapter.writeLines] using adds
    | false => exact adds
  | @cons before text lines none _ ih =>
    have adds : Adds O taken a.output (_,true) (a.writePart O record (before ++ [10])) :=
      writePart_adds logged a
    have ends : (before ++ [10]).getLast? = some 10 := List.getLast?_concat
    have rest (b : Adapter σ) (_ : b.wrotePrefix = true) :
        Adds O taken b.output (emit record.front false text)
          (Adapter.writeLines O record lines { b with wrotePrefix := false }) :=
      ih { b with wrotePrefix := false }
    have all := adds.andThen rest
    rw [emit_append,emit_line none,Adapter.writeLines]
    generalize a.writePart O record (before ++ [10]) = ran at all
    rcases ran with ⟨ok,b⟩
    cases ok with
    | true =>
      simp only [if_pos ends]
      exact all
    | false => exact all

theorem writeStr_adds (logged : O.Logged taken) (data : List UInt8) (a : Adapter σ) :
    Adds O taken a.output (emitStr record.front a.wrotePrefix data) (a.writeStr O record data) := by
  rw [Adapter.writeStr,emitStr]
  by_cases empty : data = []
  · subst empty
    have adds : Adds O taken a.output (_,true) (a.writePart O record []) := writePart_adds logged a
    simpa using adds
  · rw [if_neg empty]
    split
    next none =>
      rw [emit_part empty none]
      exact writePart_adds logged a
    next => exact writeLines_adds logged (Delimited.pieces_isCut data) a

/-- What the adapter has written, and whether the next string goes on there. -/
structure Written (taken : σ → List UInt8) (record : Record) (s : σ) (past : List (List UInt8))
    (a : Adapter σ) : Prop where
  log : taken a.output = taken s ++ (emits record.front false past).1
  flag : a.wrotePrefix = (emits record.front false past).2

theorem Written.add {s : σ} {past : List (List UInt8)} (written : Written taken record s past a)
    {ran : Bool × Adapter σ} (adds : Adds O taken a.output (emitStr record.front a.wrotePrefix data) ran) :
    Adds O taken s (emits record.front false (past ++ [data])) ran := by
  rw [written.flag] at adds
  rw [emits_append]
  simp only [emits,List.append_nil]
  cases adds with
  | ok log flag => exact .ok (by rw [log,written.log,List.append_assoc]) flag
  | failed part front log call =>
    exact .failed _ ((List.prefix_append_right_inj _).mpr front)
      (by rw [log,written.log,List.append_assoc]) call

/-- The strings of a record. -/
theorem writes_adds (record : Record) (logged : O.Logged taken) (pieces : List (List UInt8)) (s : σ) :
    ∃ ok a, writes (fun data a => some (a.writeStr O record data)) pieces (⟨s,false⟩ : Adapter σ) =
      some (ok,a) ∧ Adds O taken s (emits record.front false pieces) (ok,a) := by
  have start : Written taken record s [] (⟨s,false⟩ : Adapter σ) := ⟨by simp [emits],rfl⟩
  have keeps (past : List (List UInt8)) (data : List UInt8) (a b : Adapter σ)
      (written : Written taken record s past a)
      (ran : some (a.writeStr O record data) = some (true,b)) :
      Written taken record s (past ++ [data]) b := by
    have adds := written.add (writeStr_adds logged data a)
    rw [Option.some.inj ran] at adds
    obtain ⟨log,flag⟩ := adds.all
    exact ⟨log,flag⟩
  have returns (data : List UInt8) (a : Adapter σ) :
      ∃ ok b, some (a.writeStr O record data) = some (ok,b) := ⟨_,_,rfl⟩
  obtain ⟨ok,a,ran⟩ := writes_returns returns pieces (⟨s,false⟩ : Adapter σ)
  refine ⟨ok,a,ran,?_⟩
  cases ok with
  | true =>
    have written := writes_history (Written taken record s) keeps ran start
    exact .ok written.log written.flag
  | false =>
    obtain ⟨before,data,after,middle,rfl,done,failed⟩ := writes_false ran
    have written := writes_history (Written taken record s) keeps done start
    rw [List.nil_append] at written
    have adds := written.add (writeStr_adds logged data middle)
    rw [Option.some.inj failed] at adds
    obtain ⟨call,part,front,log⟩ := adds.front
    refine .failed part (front.trans ?_) log call
    have split : emits record.front false (before ++ [data] ++ after) = _ := emits_append
    rw [show before ++ data :: after = before ++ [data] ++ after by simp,split]
    exact List.prefix_append _ _

/-- The end of `log`. -/
theorem finish_adds (logged : O.Logged taken) (a : Adapter σ) :
    ∃ tail, tail <+: [10] ∧ (O.Total → tail = if a.wrotePrefix then [10] else []) ∧
      taken (O.flush (if a.wrotePrefix then (a.writeAll O [10]).2 else a).output) =
        taken a.output ++ tail := by
  rw [logged.flush]
  cases flag : a.wrotePrefix with
  | false => exact ⟨[],List.nil_prefix,fun _ => rfl,(List.append_nil _).symm⟩
  | true =>
    rcases ran : O.writeAll [10] a.output with ⟨ok,s⟩
    simp only [if_true,Adapter.writeAll,ran]
    cases ok with
    | true => exact ⟨[10],List.prefix_rfl,fun _ => rfl,logged.ok ran⟩
    | false =>
      obtain ⟨k,log⟩ := logged.failed ran
      refine ⟨_,List.take_prefix k _,fun total => ?_,log⟩
      have ok := total [10] a.output
      rw [ran] at ok
      contradiction

/-- A record that is logged adds its lines, or a part of them and perhaps a newline if the output
fails. -/
theorem log_adds (record : Record) (logged : O.Logged taken) {args : Arguments UInt8}
    (propagates : args.Propagates) (s : σ) : ∃ s', log O record args s = some s' ∧
      (O.Total → taken s' = taken s ++ record.lines args) ∧
      ∃ part tail, part <+: record.lines args ∧ tail <+: [10] ∧
        taken s' = taken s ++ (part ++ tail) := by
  obtain ⟨ok,a,ran,adds⟩ := writes_adds record logged args.pieces s
  obtain ⟨tail,newline,total,log'⟩ := finish_adds logged a
  have lines := emits_lines record args
  rw [log,Arguments.run_eq propagates,ran]
  refine ⟨_,rfl,?_⟩
  cases ok with
  | true =>
    obtain ⟨log,flag⟩ := adds.all
    rw [← flag] at lines
    refine ⟨fun all => ?_,(emits record.front false args.pieces).1,tail,?_,newline,?_⟩
    · exact log'.trans (by rw [log,total all,List.append_assoc,lines])
    · rw [← lines]
      exact List.prefix_append _ _
    · exact log'.trans (by rw [log,List.append_assoc])
  | false =>
    obtain ⟨call,part,front,log⟩ := adds.front
    refine ⟨fun all => absurd all call,part,tail,front.trans ?_,newline,?_⟩
    · rw [← lines]
      exact List.prefix_append _ _
    · exact log'.trans (by rw [log,List.append_assoc])

end Log

/-- Records come out as whole lines, in order, each of them behind the prefix of its record. That
does not depend on the pieces in which their texts are written, except for an empty piece at the end
of a text that ends with a newline, which begins a line of its own. If the output fails, then each
record has added a part of its lines, and perhaps a newline. -/
theorem log_lines {O : Output σ} {taken : σ → List UInt8} (logged : O.Logged taken)
    {records : List (Record × Arguments UInt8)}
    (propagates : ∀ r ∈ records, r.2.Propagates) (s : σ) :
    ∃ s', logs O records s = some s' ∧
      (O.Total → taken s' = taken s ++ records.flatMap fun r => r.1.lines r.2) ∧
      ∃ parts : List (List UInt8), taken s' = taken s ++ parts.flatten ∧
        List.Forall₂ (fun (r : Record × Arguments UInt8) added => ∃ part tail,
          part <+: r.1.lines r.2 ∧ tail <+: [10] ∧ added = part ++ tail) records parts := by
  induction records generalizing s with
  | nil => exact ⟨s,rfl,fun _ => by simp,[],by simp,.nil⟩
  | cons r records ih =>
    obtain ⟨s',ran,total,part,tail,front,newline,added⟩ :=
      log_adds r.1 logged (propagates r (by simp)) s
    obtain ⟨s'',more,total',parts,log,each⟩ := ih (fun r mem => propagates r (by simp [mem])) s'
    refine ⟨s'',?_,fun all => ?_,(part ++ tail) :: parts,?_,.cons ⟨part,tail,front,newline,rfl⟩ each⟩
    · rw [logs,ran]
      exact more
    · rw [total' all,total all,List.flatMap_cons,List.append_assoc]
    · rw [log,added,List.flatten_cons,List.append_assoc]

/-- An output that takes everything. -/
def memory : Output (List UInt8) := ⟨fun data s => (true,s ++ data),id⟩

theorem memory_logged : memory.Logged id where
  ok ran := (Prod.mk.inj ran).2.symm
  failed ran := absurd (Prod.mk.inj ran).1 (by simp)
  flush _ := rfl

/-- Two lines in pieces, of which one goes over the end of the first line. -/
def twoLines : Arguments UInt8 := .write [97] fun ok =>
  if ok then .write [98,10,99] .done else .done false

theorem log_lines_two :
    logs memory [(⟨.info,['x']⟩,twoLines),(⟨.trace,['y']⟩,.done true)] [] =
      some ((⟨.info,['x']⟩ : Record).front ++ [97,98,10] ++
        (⟨.info,['x']⟩ : Record).front ++ [99,10]) := by
  have propagates : ∀ r ∈ [((⟨.info,['x']⟩ : Record),twoLines),(⟨.trace,['y']⟩,.done true)],
      r.2.Propagates := by
    simp only [List.mem_cons,List.not_mem_nil,or_false,forall_eq_or_imp,forall_eq]
    exact ⟨⟨rfl,rfl,trivial⟩,trivial⟩
  obtain ⟨s',ran,total,_⟩ := log_lines memory_logged propagates []
  have is : s' = _ := total fun _ _ => rfl
  rw [ran,is]
  rfl

end XxCore.Log
