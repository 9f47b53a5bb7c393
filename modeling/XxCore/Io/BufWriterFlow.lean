import XxCore.Io.BufWriterSteps
import XxCore.Lib.Transition

/-! Nothing is lost or repeated. Whatever the writer accepts and whichever calls fail, the bytes
that it has got and the window behind them make up the bytes that the buffer has accepted. -/
namespace XxCore.Io

variable {ω ρ ε : Type}

/-- The writer accepts a front part of what it is given; a failing call accepts nothing. -/
structure Write.Accepts (W : Write ω ε) (accepted : ω → List UInt8) : Prop where
  ok : ∀ {w w' buf n}, W.write w buf = (.ok n,w') →
    n ≤ buf.length ∧ accepted w' = accepted w ++ buf.take n
  error : ∀ {w w' buf e}, W.write w buf = (.error e,w') → accepted w' = accepted w
  flush : ∀ {w w' result}, W.flush w = (result,w') → accepted w' = accepted w

/-- The reader puts what it has read at the front of the slice; a failing call reads nothing. -/
structure Read.Supplies (R : Read ρ ε) (supplied : ρ → List UInt8) : Prop where
  ok : ∀ {r r' buf new n}, R.read r buf = (.ok n,new,r') →
    n ≤ buf.length ∧ supplied r' = supplied r ++ new.take n
  error : ∀ {r r' buf new e}, R.read r buf = (.error e,new,r') → supplied r' = supplied r

theorem Write.Accepts.bounded {W : Write ω ε} {accepted : ω → List UInt8}
    (accepts : W.Accepts accepted) : W.Bounded := by
  intro w buf n count
  rcases ran : W.write w buf with ⟨result,w'⟩
  rw [ran] at count
  obtain rfl : result = .ok n := count
  exact (accepts.ok ran).1

theorem Write.Accepts.write {W : Write ω ε} {accepted : ω → List UInt8} {w w' : ω}
    {buf : List UInt8} {result : Except ε Nat} (accepts : W.Accepts accepted)
    (ran : W.write w buf = (result,w')) : accepted w' = accepted w ++ handled result buf := by
  cases result with
  | error e => rw [accepts.error ran,handled_error,List.append_nil]
  | ok n => exact (accepts.ok ran).2

theorem Read.Supplies.bounded {R : Read ρ ε} {supplied : ρ → List UInt8}
    (supplies : R.Supplies supplied) : R.Bounded := by
  intro r buf n count
  rcases ran : R.read r buf with ⟨result,new,r'⟩
  rw [ran] at count
  obtain rfl : result = .ok n := count
  exact (supplies.ok ran).1

theorem Read.Supplies.read {R : Read ρ ε} {supplied : ρ → List UInt8} {r r' : ρ}
    {buf new : List UInt8} {result : Except ε Nat} (supplies : R.Supplies supplied)
    (ran : R.read r buf = (result,new,r')) : supplied r' = supplied r ++ handled result new := by
  cases result with
  | error e => rw [supplies.error ran,handled_error,List.append_nil]
  | ok n => exact (supplies.ok ran).2

namespace BufWriter

/-- What the writer has got, and the window behind it. -/
def account (accepted : ω → List UInt8) (b : BufWriter ω) : List UInt8 :=
  accepted b.writer ++ b.pending

/-- A method has added `new` to the account of a buffer that stays valid. -/
structure Adds (accepted : ω → List UInt8) (b next : BufWriter ω) (new : List UInt8) : Prop where
  valid : next.Valid
  capacity : next.capacity = b.capacity
  account : account accepted next = BufWriter.account accepted b ++ new

section Accounting

variable {W : Write ω ε} {E : Errors ε} {R : Read ρ ε} {accepted : ω → List UInt8}
  {supplied : ρ → List UInt8} {b middle next : BufWriter ω}

theorem Adds.after {new more : List UInt8} (adds : Adds accepted b middle new)
    (adds' : Adds accepted middle next more) : Adds accepted b next (new ++ more) := by
  refine ⟨adds'.valid,adds'.capacity.trans adds.capacity,?_⟩
  rw [adds'.account,adds.account,List.append_assoc]

theorem Extended.adds {new : List UInt8} (extended : Extended b next new) :
    Adds accepted b next new := by
  refine ⟨extended.valid,extended.capacity,?_⟩
  rw [BufWriter.account,BufWriter.account,extended.writer,extended.pending,List.append_assoc]

/-- The writer gets bytes that do not come from the window, which is empty. -/
theorem Valid.adds (valid : b.Valid) (empty : b.pending = []) {writer : ω} {new : List UInt8}
    (got : accepted writer = accepted b.writer ++ new) :
    Adds accepted b { b with writer } new := by
  refine ⟨⟨valid.le,valid.bound,valid.small⟩,rfl,?_⟩
  simp only [BufWriter.account,got,pending_writer,empty,List.append_nil]

/-- A flush moves bytes from the window to the writer, in order and each once. -/
theorem Flushes.adds {result : Except ε Unit} (flushes : Flushes W E b result next)
    (accepts : W.Accepts accepted) (valid : b.Valid) : Adds accepted b next [] := by
  induction flushes with
  | done empty =>
    refine ⟨valid.discard,rfl,?_⟩
    rw [BufWriter.account,BufWriter.account,pending_discard,empty]
    simp only [discard,List.append_nil]
  | failed _ ran | zero _ ran =>
    refine ⟨⟨valid.le,valid.bound,valid.small⟩,rfl,?_⟩
    have got := accepts.write ran
    simp only [handled,List.take_zero,List.append_nil] at got
    simp only [BufWriter.account,got,pending_writer,List.append_nil]
  | @more w n b result next ran le rest ih =>
    have moved : Adds accepted b { b with start := b.start + n, writer := w } [] := by
      refine ⟨valid.advance le w,rfl,?_⟩
      rw [BufWriter.account,BufWriter.account,pending_advance,(accepts.ok ran).2,
        List.append_assoc,List.take_append_drop,List.append_nil]
    exact moved.after (ih (valid.advance le w))

theorem Flushed.adds {result : Except ε Unit} (flushed : Flushed W E b result next)
    (accepts : W.Accepts accepted) (valid : b.Valid) : Adds accepted b next [] := by
  cases flushed with
  | failed flushes => exact flushes.adds accepts valid
  | down flushes ran =>
    have emptied := flushes.adds accepts valid
    have got := (accepts.flush ran).trans (List.append_nil _).symm
    exact emptied.after (emptied.valid.adds (flushes.empty valid) got)

theorem Writes.adds {buf : List UInt8} {result : Except ε Nat} (writes : Writes W E b buf result next)
    (accepts : W.Accepts accepted) (valid : b.Valid) : Adds accepted b next (handled result buf) := by
  cases writes with
  | buffered _ extended => exact extended.adds
  | failed flushes => exact flushes.adds accepts valid
  | direct flushes ran =>
    have emptied := flushes.adds accepts valid
    exact emptied.after (emptied.valid.adds (flushes.empty valid) (accepts.write ran))
  | flushed flushes _ extended => exact (flushes.adds accepts valid).after extended.adds

/-- What piping adds is what the reader has supplied. -/
theorem Pipes.adds {reader r : ρ} {result : Except ε Nat}
    (pipes : Pipes W E R b reader result r next) (accepts : W.Accepts accepted)
    (supplies : R.Supplies supplied) (valid : b.Valid) :
    ∃ new, supplied r = supplied reader ++ new ∧ Adds accepted b next new := by
  cases pipes with
  | failed flushed =>
    exact ⟨[],(List.append_nil _).symm,flushed.adds accepts valid⟩
  | flushed flushed piped =>
    cases piped with
    | ran ran extended =>
      exact ⟨_,supplies.read ran,(flushed.adds accepts valid).after extended.adds⟩
  | read piped =>
    cases piped with
    | ran ran extended => exact ⟨_,supplies.read ran,extended.adds⟩

/-- Every round of `pipe_from` adds what it has read, also the last one before an error. -/
theorem pipeFrom_adds {rounds total : Nat} {reader r : ρ} {result : Except ε Nat}
    (accepts : W.Accepts accepted) (supplies : R.Supplies supplied) (valid : b.Valid)
    (ran : pipeFrom W E R rounds total b reader = some (result,r,next)) :
    ∃ new, supplied r = supplied reader ++ new ∧ Adds accepted b next new := by
  induction rounds generalizing total b reader with
  | zero => simp [pipeFrom] at ran
  | succ rounds ih =>
    obtain ⟨once,r',middle,called,pipes⟩ :=
      pipeFromOnce_pipes (E := E) accepts.bounded supplies.bounded valid reader
    obtain ⟨new,got,adds⟩ := pipes.adds accepts supplies valid
    rw [pipeFrom,called,Option.bind_some] at ran
    cases once with
    | error e =>
      simp only at ran
      split at ran
      all_goals
        obtain ⟨_,rest⟩ := Prod.mk.inj (Option.some.inj ran)
        obtain ⟨rfl,rfl⟩ := Prod.mk.inj rest
        exact ⟨new,got,adds⟩
    | ok n =>
      simp only at ran
      split at ran
      · obtain ⟨_,rest⟩ := Prod.mk.inj (Option.some.inj ran)
        obtain ⟨rfl,rfl⟩ := Prod.mk.inj rest
        exact ⟨new,got,adds⟩
      · obtain ⟨total',_,ran⟩ := Option.bind_eq_some_iff.mp ran
        obtain ⟨more,got',adds'⟩ := ih adds.valid ran
        refine ⟨new ++ more,?_,adds.after adds'⟩
        rw [got',got,List.append_assoc]

end Accounting

/-- A reader that is piped into the buffer. -/
structure Source (ε : Type) where
  ρ : Type
  read : Read ρ ε
  supplied : ρ → List UInt8
  supplies : read.Supplies supplied
  reader : ρ

/-- What the reader has supplied since it was passed to a method. -/
def Source.since (source : Source ε) (reader : source.ρ) : List UInt8 :=
  (source.supplied reader).drop (source.supplied source.reader).length

inductive Call (ε : Type) where
  | write (buf : List UInt8)
  | flush
  | pipeFromOnce (source : Source ε)
  | pipeFrom (source : Source ε) (rounds : Nat)

/-- The buffered writer, with the bytes that it has accepted. -/
structure Flow (ω : Type) where
  buf : BufWriter ω
  taken : List UInt8

def step (W : Write ω ε) (E : Errors ε) (c : Flow ω) : Call ε → Option (Flow ω)
  | .write buf => (write W E c.buf buf).map fun (result,b) => ⟨b,c.taken ++ handled result buf⟩
  | .flush => (flush W E c.buf).map fun (_,b) => ⟨b,c.taken⟩
  | .pipeFromOnce source => (pipeFromOnce W E source.read c.buf source.reader).map fun (_,r,b) =>
      ⟨b,c.taken ++ source.since r⟩
  | .pipeFrom source rounds =>
    (pipeFrom W E source.read rounds 0 c.buf source.reader).map fun (_,r,b) =>
      ⟨b,c.taken ++ source.since r⟩

theorem Source.since_eq {source : Source ε} {reader : source.ρ} {new : List UInt8}
    (got : source.supplied reader = source.supplied source.reader ++ new) :
    source.since reader = new := by
  rw [since,got,List.drop_left]

/-- `before` was accepted by the writer when it was wrapped. -/
structure Balanced (accepted : ω → List UInt8) (before : List UInt8) (size : Nat) (c : Flow ω) :
    Prop where
  valid : c.buf.Valid
  capacity : c.buf.capacity = size
  account : accepted c.buf.writer ++ c.buf.pending = before ++ c.taken

theorem Balanced.adds {accepted : ω → List UInt8} {before new : List UInt8} {size : Nat} {c : Flow ω}
    {b : BufWriter ω} (balanced : Balanced accepted before size c)
    (adds : Adds accepted c.buf b new) : Balanced accepted before size ⟨b,c.taken ++ new⟩ := by
  refine ⟨adds.valid,adds.capacity.trans balanced.capacity,?_⟩
  have account := adds.account
  rw [BufWriter.account,BufWriter.account,balanced.account,List.append_assoc] at account
  exact account

theorem Balanced.step {W : Write ω ε} {E : Errors ε} {accepted : ω → List UInt8}
    {before : List UInt8} {size : Nat} {c next : Flow ω} {call : Call ε}
    (balanced : Balanced accepted before size c) (accepts : W.Accepts accepted)
    (stepped : BufWriter.step W E c call = some next) : Balanced accepted before size next := by
  have valid := balanced.valid
  cases call with
  | write buf =>
    obtain ⟨⟨result,b⟩,called,rfl⟩ := Option.map_eq_some_iff.mp stepped
    obtain ⟨result',b',called',writes⟩ := write_writes (E := E) accepts.bounded valid buf
    obtain ⟨rfl,rfl⟩ := Prod.mk.inj (Option.some.inj (called'.symm.trans called))
    exact balanced.adds (writes.adds accepts valid)
  | flush =>
    obtain ⟨⟨result,b⟩,called,rfl⟩ := Option.map_eq_some_iff.mp stepped
    obtain ⟨result',b',called',flushed⟩ := flush_flushed (E := E) accepts.bounded valid
    obtain ⟨rfl,rfl⟩ := Prod.mk.inj (Option.some.inj (called'.symm.trans called))
    simpa only [List.append_nil] using balanced.adds (flushed.adds accepts valid)
  | pipeFromOnce source =>
    obtain ⟨⟨result,r,b⟩,called,rfl⟩ := Option.map_eq_some_iff.mp stepped
    obtain ⟨result',r',b',called',pipes⟩ := pipeFromOnce_pipes (E := E) accepts.bounded
      source.supplies.bounded valid source.reader
    obtain ⟨rfl,rest⟩ := Prod.mk.inj (Option.some.inj (called'.symm.trans called))
    obtain ⟨rfl,rfl⟩ := Prod.mk.inj rest
    obtain ⟨new,got,adds⟩ := pipes.adds accepts source.supplies valid
    simp only [Source.since_eq got]
    exact balanced.adds adds
  | pipeFrom source rounds =>
    obtain ⟨⟨result,r,b⟩,called,rfl⟩ := Option.map_eq_some_iff.mp stepped
    obtain ⟨new,got,adds⟩ := pipeFrom_adds accepts source.supplies valid called
    simp only [Source.since_eq got]
    exact balanced.adds adds

/-- In every run from `with_capacity`, whatever the calls return, the writer has got the bytes that
were accepted but those in the window; a flush that returns `Ok` leaves none there, and no write,
flush or single read panics. -/
theorem writes_account {W : Write ω ε} {E : Errors ε} {accepted : ω → List UInt8}
    (accepts : W.Accepts accepted) {w : ω} {requested allocated : Nat} {b : BufWriter ω}
    (made : withCapacity w requested allocated = some b) {calls : List (Call ε)} {c : Flow ω}
    (path : Transition.Path (step W E) Transition.anyStep ⟨b,[]⟩ calls c) :
    Balanced accepted (accepted w) allocated c ∧
      (∀ b, flush W E c.buf = some (.ok (),b) → b.pending = []) ∧
      ∀ call, (∀ source rounds, call ≠ .pipeFrom source rounds) → (step W E c call).isSome := by
  obtain ⟨valid,rfl⟩ := withCapacity_eq_some made
  have balanced : Balanced accepted (accepted w) allocated c := by
    apply path.invariant (Balanced accepted (accepted w) allocated)
    · intro c call next balanced _ stepped
      exact balanced.step accepts stepped
    · exact ⟨valid,List.length_replicate,by simp [pending]⟩
  have valid := balanced.valid
  refine ⟨balanced,fun b called => ?_,fun call single => ?_⟩
  · obtain ⟨result',b',called',flushed⟩ := flush_flushed (E := E) accepts.bounded valid
    obtain ⟨rfl,rfl⟩ := Prod.mk.inj (Option.some.inj (called'.symm.trans called))
    exact (flushed.kept valid).2.2 rfl
  · cases call with
    | write buf =>
      obtain ⟨result,b,called,_⟩ := write_writes (E := E) accepts.bounded valid buf
      simp only [step,called,Option.map_some,Option.isSome_some]
    | flush =>
      obtain ⟨result,b,called,_⟩ := flush_flushed (E := E) accepts.bounded valid
      simp only [step,called,Option.map_some,Option.isSome_some]
    | pipeFromOnce source =>
      obtain ⟨result,r,b,called,_⟩ := pipeFromOnce_pipes (E := E) accepts.bounded
        source.supplies.bounded valid source.reader
      simp only [step,called,Option.map_some,Option.isSome_some]
    | pipeFrom source rounds => exact absurd rfl (single source rounds)

/-- A writer that accepts as much as its script says, fails where that says so, and accepts
everything after it. -/
structure Sink where
  got : List UInt8
  script : List (Option Nat)

def Sink.writes : Write Sink Unit where
  write s buf :=
    match s.script with
    | [] => (.ok buf.length,⟨s.got ++ buf,[]⟩)
    | none :: script => (.error (),⟨s.got,script⟩)
    | some most :: script => (.ok (min most buf.length),⟨s.got ++ buf.take most,script⟩)
  flush s := (.ok (),s)

theorem sink_accepts : Sink.writes.Accepts Sink.got where
  ok {w w' buf n} ran := by
    simp only [Sink.writes] at ran
    split at ran
    · obtain ⟨is,rfl⟩ := Prod.mk.inj ran
      obtain rfl := Except.ok.inj is
      exact ⟨Nat.le_refl _,by rw [List.take_length]⟩
    · exact absurd (Prod.mk.inj ran).1 nofun
    · obtain ⟨is,rfl⟩ := Prod.mk.inj ran
      obtain rfl := Except.ok.inj is
      exact ⟨Nat.min_le_right _ _,by rw [← List.take_take,List.take_length]⟩
  error {w w' buf e} ran := by
    simp only [Sink.writes] at ran
    split at ran
    · exact absurd (Prod.mk.inj ran).1 nofun
    · obtain ⟨_,rfl⟩ := Prod.mk.inj ran
      rfl
    · exact absurd (Prod.mk.inj ran).1 nofun
  flush ran := by
    obtain ⟨_,rfl⟩ := Prod.mk.inj ran
    rfl

theorem cursor_supplies {content : List UInt8} (small : content.length < 2 ^ 64) :
    (Cursor.reads content).Supplies fun r => content.take r.pos.toNat := by
  refine ⟨fun ran => ?_,nofun⟩
  obtain ⟨few,bytes,advance,_⟩ := Cursor.read_eq small ran
  refine ⟨few,?_⟩
  rw [advance,bytes,List.take_add]

/-- A reader of three bytes. -/
def threeBytes : Source Unit :=
  ⟨Cursor,Cursor.reads [7,8,9],_,cursor_supplies (by decide),⟨0,[1]⟩⟩

def interruptible : Errors Unit := ⟨(),fun _ => true⟩

/-- A write that is cut short, a pipe and a write whose flushes fail midway, a write around the
buffer, and a pipe that ends with the reader. -/
def flowCalls : List (Call Unit) :=
  [.write [1,2,3],.write [4,5],.pipeFromOnce threeBytes,.write [6],.write [1,2,3,4,5],
    .pipeFrom threeBytes 9,.flush]

theorem writes_account_sink : ∃ b c,
    withCapacity (⟨[],[some 1,none,some 2,none,some 1,some 3]⟩ : Sink) 4 4 = some b ∧
    Transition.run (step Sink.writes interruptible) flowCalls ⟨b,[]⟩ = some c ∧
    c.taken = [1,2,3,4,1,2,3,7,8,9] ∧ c.buf.writer.got ++ c.buf.pending = c.taken := by
  obtain ⟨b,made⟩ : ∃ b,
      withCapacity (⟨[],[some 1,none,some 2,none,some 1,some 3]⟩ : Sink) 4 4 = some b := ⟨_,rfl⟩
  have flown : (Transition.run (step Sink.writes interruptible) flowCalls ⟨b,[]⟩).map Flow.taken =
      some [1,2,3,4,1,2,3,7,8,9] := by
    obtain rfl := Option.some.inj made
    decide +kernel
  obtain ⟨c,executed,taken⟩ := Option.map_eq_some_iff.mp flown
  have path := Transition.run_path (fun _ _ _ => trivial) executed
  exact ⟨b,c,made,executed,taken,(writes_account sink_accepts made path).1.account⟩

end BufWriter
end XxCore.Io
