import XxCore.Io.BufReaderSteps
import XxCore.Lib.Transition

/-! Forward reading. Whatever chunks the reader delivers and however the buffer is filled, the
bytes handed out, the window and what the reader still holds make up the stream. -/
namespace XxCore.Io

variable {ρ ε : Type}

/-- The reader delivers what it holds, in chunks of any size; an error consumes nothing. -/
structure Read.Delivers (R : Read ρ ε) (held : ρ → List UInt8) : Prop where
  ok : ∀ {r r' buf new n}, R.read r buf = (.ok n,new,r') →
    n ≤ buf.length ∧ new.take n ++ held r' = held r
  error : ∀ {r r' buf new e}, R.read r buf = (.error e,new,r') → held r' = held r

theorem Read.Delivers.bounded {R : Read ρ ε} {held : ρ → List UInt8} (delivers : R.Delivers held) :
    R.Bounded := by
  intro r buf n count
  rcases ran : R.read r buf with ⟨result,new,r'⟩
  rw [ran] at count
  obtain rfl : result = .ok n := count
  exact (delivers.ok ran).1

namespace BufReader

/-- A range of the buffer that is filled after the window extends it. -/
theorem Filled.extends {R : Read ρ ε} {held : ρ → List UInt8} {b next : BufReader ρ} {hi : Nat}
    {result : Except ε Nat} (filled : Filled R b b.stop hi result next)
    (delivers : R.Delivers held) (valid : b.Valid) (le : b.stop ≤ hi) (bound : hi ≤ b.data.length) :
    next.Valid ∧ next.buffer ++ held next.reader = b.buffer ++ held b.reader := by
  have start := valid.le
  refine ⟨⟨?_,filled.bound valid le bound,by rw [filled.length le bound]; exact valid.small⟩,?_⟩
  · cases filled with
    | error | zero => exact start
    | more => exact Nat.le_trans start (Nat.le_add_right _ _)
  · cases filled with
    | error ran =>
      simp only [buffer,delivers.error ran]
      rw [Slice.take_splice (Nat.le_refl _) valid.bound]
    | zero ran =>
      have stream := (delivers.ok ran).2
      simp only [buffer,← stream,List.take_zero,List.nil_append]
      rw [Slice.take_splice (Nat.le_refl _) valid.bound]
    | more ran pos few =>
      simp only [buffer,← (delivers.ok ran).2,← List.append_assoc]
      rw [Slice.drop_take_splice_add start few valid.bound]

/-- An empty window that is filled from the beginning of the buffer. -/
theorem Filled.front {R : Read ρ ε} {held : ρ → List UInt8} {b next : BufReader ρ} {hi : Nat}
    {result : Except ε Nat} (filled : Filled R b 0 hi result next) (delivers : R.Delivers held)
    (valid : b.Valid) (empty : b.buffer = []) (bound : hi ≤ b.data.length) :
    (rewindIfRead (result,next)).2.Valid ∧ (rewindIfRead (result,next)).2.buffer ++
      held (rewindIfRead (result,next)).2.reader = held b.reader := by
  have stop := filled.bound valid (Nat.zero_le _) bound
  have small : next.data.length ≤ isizeMax := by
    rw [filled.length (Nat.zero_le _) bound]
    exact valid.small
  have stays := valid.stays_empty empty
  cases filled with
  | error ran => exact ⟨⟨valid.le,stop,small⟩,by simp [rewindIfRead,buffer,stays,delivers.error ran]⟩
  | zero ran =>
    have stream := (delivers.ok ran).2
    exact ⟨⟨valid.le,stop,small⟩,by simpa [rewindIfRead,buffer,stays] using stream⟩
  | more ran pos few =>
    have stream := (delivers.ok ran).2
    simp only [rewindIfRead,if_neg (Nat.ne_of_gt pos)]
    refine ⟨⟨Nat.zero_le _,stop,small⟩,?_⟩
    rw [← stream]
    simp only [buffer,Nat.zero_add,List.drop_zero]
    rw [Slice.take_splice_zero few]

theorem Taken.stream {b next : BufReader ρ} {buf new : List UInt8} {n : Nat}
    (taken : Taken b buf n new next) (valid : b.Valid) :
    next.Valid ∧ next.reader = b.reader ∧ new.take n ++ next.buffer = b.buffer := by
  have length := valid.length_buffer
  have le := valid.le
  have count := taken.count
  obtain rfl := taken.next
  refine ⟨⟨by simp only; omega,valid.bound,valid.small⟩,rfl,?_⟩
  rw [taken.bytes]
  simp only [buffer,← List.drop_drop]
  exact List.take_append_drop n _

/-- The buffered reader, with the bytes that it has handed out. -/
structure Forward (ρ : Type) where
  buf : BufReader ρ
  handed : List UInt8

inductive Call where
  | read (buf : List UInt8)
  | fillAmount (amount : Nat)
  | fill
  | consume (count : Nat)
  | moveDataToBeginning

/-- What a read has put into the caller's slice. -/
def bytesRead (result : Except ε Nat) (buf : List UInt8) : List UInt8 :=
  match result with
  | .ok n => buf.take n
  | .error _ => []

def step (R : Read ρ ε) (c : Forward ρ) : Call → Option (Forward ρ)
  | .read buf =>
    (read R c.buf buf).map fun (result,buf,b) => ⟨b,c.handed ++ bytesRead result buf⟩
  | .fillAmount amount => (fillAmount R c.buf amount).map fun next => ⟨next.2,c.handed⟩
  | .fill => (fill R c.buf).map fun next => ⟨next.2,c.handed⟩
  | .consume count =>
    (c.buf.consume count).map fun b => ⟨b,c.handed ++ c.buf.buffer.take count⟩
  | .moveDataToBeginning => c.buf.moveDataToBeginning.map fun b => ⟨b,c.handed⟩

/-- What the methods assert of their arguments. -/
def InBounds (c : Forward ρ) : Call → Prop
  | .fillAmount amount => amount ≤ c.buf.capacity
  | .consume count => count ≤ c.buf.buffer.length
  | _ => True

structure Transparent (held : ρ → List UInt8) (stream : List UInt8) (size : Nat) (c : Forward ρ) :
    Prop where
  valid : c.buf.Valid
  capacity : c.buf.capacity = size
  stream : c.handed ++ c.buf.buffer ++ held c.buf.reader = stream

theorem Fills.stream {R : Read ρ ε} {held : ρ → List UInt8} {b next : BufReader ρ} {amount : Nat}
    {result : Except ε Nat} (fills : Fills R b amount result next) (delivers : R.Delivers held)
    (valid : b.Valid) : next.Valid ∧ next.capacity = b.capacity ∧
      next.buffer ++ held next.reader = b.buffer ++ held b.reader := by
  have length := valid.length_buffer
  have stop := valid.bound
  cases fills with
  | enough => exact ⟨valid,rfl,rfl⟩
  | append le bound filled =>
    obtain ⟨valid',stream⟩ := filled.extends delivers valid le bound
    exact ⟨valid',filled.length le bound,stream⟩
  | wrap empty bound filled =>
    have none : b.buffer = [] := List.length_eq_zero_iff.mp (by omega)
    obtain ⟨valid',stream⟩ := filled.front delivers valid none bound
    refine ⟨valid',?_,by rw [stream,none,List.nil_append]⟩
    rw [capacity,rewindIfRead_data]
    exact filled.length (Nat.zero_le _) bound
  | compact some le bound filled =>
    have size : b.moved.data.length = b.data.length := Slice.length_splice (by omega)
    rw [← size] at bound
    obtain ⟨valid',stream⟩ := Filled.extends filled delivers (moved_valid valid) le bound
    rw [moved_buffer] at stream
    exact ⟨valid',(filled.length le bound).trans size,stream⟩

theorem Reads.stream {R : Read ρ ε} {held : ρ → List UInt8} {b next : BufReader ρ}
    {buf new : List UInt8} {result : Except ε Nat} (reads : Reads R b buf result new next)
    (delivers : R.Delivers held) (valid : b.Valid) : next.Valid ∧ next.capacity = b.capacity ∧
      bytesRead result new ++ next.buffer ++ held next.reader = b.buffer ++ held b.reader := by
  cases reads with
  | buffered _ taken =>
    obtain ⟨valid',reader,stream⟩ := taken.stream valid
    refine ⟨valid',?_,by rw [bytesRead,stream,reader]⟩
    rw [taken.next]
    rfl
  | direct empty _ ran =>
    refine ⟨⟨valid.le,valid.bound,valid.small⟩,rfl,?_⟩
    simp only [buffer] at empty ⊢
    rw [empty,List.append_nil,List.nil_append]
    cases result with
    | error => exact delivers.error ran
    | ok => exact (delivers.ok ran).2
  | failed empty filled =>
    obtain ⟨valid',stream⟩ := filled.front delivers valid empty (Nat.le_refl _)
    refine ⟨valid',filled.length (Nat.zero_le _) (Nat.le_refl _),?_⟩
    rw [bytesRead,List.nil_append,empty,List.nil_append]
    exact stream
  | eof empty _ filled =>
    obtain ⟨valid',stream⟩ := filled.front delivers valid empty (Nat.le_refl _)
    refine ⟨valid',filled.length (Nat.zero_le _) (Nat.le_refl _),?_⟩
    rw [bytesRead,List.take_zero,List.nil_append,empty,List.nil_append]
    exact stream
  | filled empty pos filled taken =>
    obtain ⟨valid',stream⟩ := filled.front delivers valid empty (Nat.le_refl _)
    simp only [rewindIfRead,if_neg (Nat.ne_of_gt pos)] at valid' stream
    obtain ⟨valid'',reader,taken'⟩ := taken.stream valid'
    refine ⟨valid'',?_,by rw [bytesRead,taken',reader,stream,empty,List.nil_append]⟩
    rw [taken.next]
    exact filled.length (Nat.zero_le _) (Nat.le_refl _)

theorem Transparent.step {R : Read ρ ε} {held : ρ → List UInt8} {s : List UInt8} {size : Nat}
    {c : Forward ρ} {call : Call} (transparent : Transparent held s size c)
    (delivers : R.Delivers held) (bounds : InBounds c call) :
    ∃ next, BufReader.step R c call = some next ∧ Transparent held s size next := by
  have valid := transparent.valid
  have capacity := transparent.capacity
  have whole := transparent.stream
  have length := valid.length_buffer
  have fills (amount : Nat) (bounds : amount ≤ c.buf.capacity) : ∃ result next,
      fillAmount R c.buf amount = some (result,next) ∧
        Transparent held s size ⟨next,c.handed⟩ := by
    obtain ⟨result,next,call,fills⟩ := fillAmount_fills delivers.bounded valid bounds
    obtain ⟨valid',capacity',stream'⟩ := fills.stream delivers valid
    refine ⟨result,next,call,valid',capacity'.trans capacity,?_⟩
    rw [List.append_assoc,stream',← List.append_assoc,whole]
  cases call with
  | read buf =>
    obtain ⟨result,new,next,call,reads⟩ := read_reads delivers.bounded valid buf
    obtain ⟨valid',capacity',stream'⟩ := reads.stream delivers valid
    refine ⟨_,by rw [BufReader.step,call]; rfl,valid',capacity'.trans capacity,?_⟩
    rw [← whole,List.append_assoc c.handed c.buf.buffer,← stream']
    simp only [List.append_assoc]
  | fillAmount amount =>
    obtain ⟨result,next,call,transparent⟩ := fills amount bounds
    exact ⟨_,by rw [BufReader.step,call]; rfl,transparent⟩
  | fill =>
    obtain ⟨result,next,call,transparent⟩ := fills _ (Nat.le_refl _)
    exact ⟨_,by rw [BufReader.step,fill,call]; rfl,transparent⟩
  | consume count =>
    have bounds : count ≤ c.buf.buffer.length := bounds
    have le := valid.le
    refine ⟨⟨{ c.buf with start := c.buf.start + count },c.handed ++ c.buf.buffer.take count⟩,?_,
      ⟨?_,valid.bound,valid.small⟩,capacity,?_⟩
    · rw [BufReader.step,consume_eq valid bounds]
      rfl
    · simp only
      omega
    · rw [← whole,List.append_assoc c.handed]
      congr 2
      simp only [buffer,← List.drop_drop]
      exact List.take_append_drop count _
  | moveDataToBeginning =>
    have size : c.buf.moved.data.length = c.buf.data.length := Slice.length_splice (by
      have stop := valid.bound
      omega)
    refine ⟨⟨c.buf.moved,c.handed⟩,?_,moved_valid valid,size.trans capacity,?_⟩
    · rw [BufReader.step,moveDataToBeginning_eq valid]
      rfl
    · simp only [moved_buffer]
      exact whole

/-- In every run from `with_capacity`, no byte of the stream is lost, repeated or reordered, and no
call within its bounds panics. -/
theorem reads_forward {R : Read ρ ε} {held : ρ → List UInt8} (delivers : R.Delivers held) {r : ρ}
    {requested allocated : Nat} {b : BufReader ρ} (made : withCapacity r requested allocated = some b)
    {calls : List Call} {c : Forward ρ}
    (path : Transition.Path (step R) InBounds ⟨b,[]⟩ calls c) :
    Transparent held (held r) allocated c ∧
      ∀ call, InBounds c call → ∃ next, step R c call = some next := by
  obtain ⟨valid,rfl⟩ := withCapacity_eq_some made
  have transparent : Transparent held (held r) allocated c := by
    apply path.invariant (Transparent held (held r) allocated)
    · intro c call next transparent bounds stepped
      obtain ⟨next',stepped',transparent'⟩ := transparent.step delivers bounds
      obtain rfl := Option.some.inj (stepped.symm.trans stepped')
      exact transparent'
    · exact ⟨valid,List.length_replicate,by simp [buffer]⟩
  refine ⟨transparent,fun call bounds => ?_⟩
  obtain ⟨next,stepped,_⟩ := transparent.step delivers bounds
  exact ⟨next,stepped⟩

instance (c : Forward ρ) : (call : Call) → Decidable (InBounds c call)
  | .fillAmount _ => inferInstanceAs (Decidable (_ ≤ _))
  | .consume _ => inferInstanceAs (Decidable (_ ≤ _))
  | .read _ | .fill | .moveDataToBeginning => inferInstanceAs (Decidable True)

theorem cursor_delivers {content : List UInt8} (small : content.length < 2 ^ 64) :
    (Cursor.reads content).Delivers fun r => content.drop r.pos.toNat := by
  refine ⟨fun ran => ?_,nofun⟩
  obtain ⟨few,bytes,advance,_⟩ := Cursor.read_eq small ran
  refine ⟨few,?_⟩
  rw [bytes,advance,← List.drop_drop]
  exact List.take_append_drop _ _

/-- A fill that appends, one that moves the data first, a read around the buffer, and a fill of the
empty buffer. -/
def forwardCalls : List Call :=
  [.fillAmount 4,.read [0,0],.fill,.consume 3,.read [0,0,0,0,0],.moveDataToBeginning,.fill,.read [0,0]]

theorem reads_forward_cursor : ∃ b c, withCapacity (⟨0,[2,1]⟩ : Cursor) 4 4 = some b ∧
    Transition.run (step (Cursor.reads [1,2,3,4,5,6,7,8])) forwardCalls ⟨b,[]⟩ = some c ∧
    c.handed = [1,2,3,4,5,6,7] ∧ c.handed ++ c.buf.buffer ++
      [1,2,3,4,5,6,7,8].drop c.buf.reader.pos.toNat = [1,2,3,4,5,6,7,8] := by
  obtain ⟨b,made⟩ : ∃ b, withCapacity (⟨0,[2,1]⟩ : Cursor) 4 4 = some b := ⟨_,rfl⟩
  obtain ⟨c,checked,executed,handed⟩ : ∃ c, Transition.run
      (fun c l => if decide (InBounds c l) then step (Cursor.reads [1,2,3,4,5,6,7,8]) c l else none)
        forwardCalls ⟨b,[]⟩ = some c ∧
      Transition.run (step (Cursor.reads [1,2,3,4,5,6,7,8])) forwardCalls ⟨b,[]⟩ = some c ∧
      c.handed = [1,2,3,4,5,6,7] := by
    obtain rfl := Option.some.inj made
    exact ⟨_,rfl,rfl,rfl⟩
  refine ⟨b,c,made,executed,handed,?_⟩
  have path := Transition.run_path_checked _ (fun _ _ => of_decide_eq_true) checked
  exact (reads_forward (cursor_delivers (by decide)) made path).1.stream

end BufReader
end XxCore.Io
