import XxCore.Io.Interrupt
import XxCore.Lib.Pump

/-! The provided methods of `Read` and `Write` (`async_std/io/read.rs` and `write.rs`) that go on
until a buffer is dealt with. -/
namespace XxCore.Io

open Stream'

variable {ρ ω ε : Type}

/-- `Read`, as far as its provided methods call it. A call that panics gives nothing. -/
structure Reader (ρ ε : Type) where
  read : ρ → List UInt8 → Option (Except ε Nat × List UInt8 × ρ)
  readVectored : ρ → List (List UInt8) → Option (Except ε Nat × List (List UInt8) × ρ)
  length_read : ∀ {r r' buf new result}, read r buf = some (result,new,r') →
    new.length = buf.length
  lengths_readVectored : ∀ {r r' bufs new result}, readVectored r bufs = some (result,new,r') →
    new.map List.length = bufs.map List.length

/-- `Write`, as far as its provided methods call it. -/
structure Writer (ω ε : Type) where
  write : ω → List UInt8 → Option (Except ε Nat × ω)
  writeVectored : ω → List (List UInt8) → Option (Except ε Nat × ω)

/-- A writer, as a reader that leaves the slices as they are. -/
def Writer.transfers (W : Writer ω ε) : Reader ω ε where
  read w buf := (W.write w buf).map fun (result,w) => (result,buf,w)
  readVectored w bufs := (W.writeVectored w bufs).map fun (result,w) => (result,bufs,w)
  length_read ran := by
    obtain ⟨_,_,is⟩ := Option.map_eq_some_iff.mp ran
    obtain ⟨rfl,_⟩ := Prod.mk.inj (Prod.mk.inj is).2
    rfl
  lengths_readVectored ran := by
    obtain ⟨_,_,is⟩ := Option.map_eq_some_iff.mp ran
    obtain ⟨rfl,_⟩ := Prod.mk.inj (Prod.mk.inj is).2
    rfl

/-- `buf[..read]` and `buf[read..]`. -/
structure Cut where
  passed : List UInt8
  left : List UInt8

/-- The buffer. -/
def Cut.content (cut : Cut) : List UInt8 := cut.passed ++ cut.left

/-- The loop of `try_read_fully` and `try_write_all`. -/
def Reader.scalar (R : Reader ρ ε) (E : ErrorKinds ε) : Pump ρ ε UInt8 Cut where
  call r cut := (R.read r cut.left).map fun (result,left,r) => (result,{ cut with left },r)
  advance cut n := (lengthCheck cut.left n).map fun n =>
    ⟨cut.passed ++ cut.left.take n,cut.left.drop n⟩
  done cut := cut.left.isEmpty
  stops := E.isInterrupted
  passed := Cut.passed
  left := Cut.left
  call_keeps called := by
    obtain ⟨_,ran,is⟩ := Option.map_eq_some_iff.mp called
    obtain ⟨rfl,_⟩ := Prod.mk.inj (Prod.mk.inj is).2
    exact ⟨rfl,R.length_read ran⟩
  advance_moves moved := by
    obtain ⟨n,checked,rfl⟩ := Option.map_eq_some_iff.mp moved
    rw [lengthCheck,Option.ite_none_right_eq_some] at checked
    obtain ⟨few,is⟩ := checked
    obtain rfl := Option.some.inj is
    exact ⟨few,rfl,rfl⟩
  done_left := List.isEmpty_iff.mp

/-- The body of `try_read_fully` and `try_write_all`. -/
def Reader.transferAll (R : Reader ρ ε) (E : ErrorKinds ε) (interrupted : ρ → Bool)
    (buf : List UInt8) (r : ρ) : Option (Except ε Nat × List UInt8 × ρ) :=
  -- `read_into!` and `write_from!`
  if buf.isEmpty then some (.ok 0,buf,r)
  else ((R.scalar E).loop 0 ⟨[],buf⟩ r).map fun
    | (.error e,cut,r) => (.error e,cut.content,r)
    | (.ok read,cut,r) => (checkInterruptIfZero E interrupted r read,cut.content,r)

/-- `try_read_fully`. -/
def Reader.tryReadFully (R : Reader ρ ε) (E : ErrorKinds ε) (interrupted : ρ → Bool)
    (buf : List UInt8) (r : ρ) : Option (Except ε Nat × List UInt8 × ρ) :=
  R.transferAll E interrupted buf r

/-- `read_fully`. -/
def Reader.readFully (R : Reader ρ ε) (E : ErrorKinds ε) (interrupted : ρ → Bool)
    (buf : List UInt8) (r : ρ) : Option (Except ε Nat × List UInt8 × ρ) :=
  if buf.isEmpty then some (.ok 0,buf,r)
  else (R.tryReadFully E interrupted buf r).bind fun
    | (.error e,buf,r) => some (.error e,buf,r)
    | (.ok read,buf,r) => (lengthCheck buf read).map fun read =>
      if read ≠ buf.length then (.error (shortIoErrorUnlessInterrupt E interrupted r),buf,r)
      else (.ok read,buf,r)

/-- `try_write_all`. -/
def Writer.tryWriteAll (W : Writer ω ε) (E : ErrorKinds ε) (interrupted : ω → Bool)
    (buf : List UInt8) (w : ω) : Option (Except ε Nat × ω) :=
  (W.transfers.transferAll E interrupted buf w).map fun (result,_,w) => (result,w)

/-- `write_all`. -/
def Writer.writeAll (W : Writer ω ε) (E : ErrorKinds ε) (interrupted : ω → Bool)
    (buf : List UInt8) (w : ω) : Option (Except ε Nat × ω) :=
  if buf.isEmpty then some (.ok 0,w)
  else (W.tryWriteAll E interrupted buf w).bind fun
    | (.error e,w) => some (.error e,w)
    | (.ok wrote,w) => (lengthCheck buf wrote).map fun wrote =>
      if wrote < buf.length then (.error (shortIoErrorUnlessInterrupt E interrupted w),w)
      else (.ok wrote,w)

/-- The reader holds a stream, which may be infinite, and gives it without errors and in parts of any
size; it gives nothing only at the end of it or for an empty slice. -/
def Reader.Holds (R : Reader ρ ε) (held : ρ → Seq UInt8) (good : ρ → Prop) : Prop :=
  ∀ r buf, good r → ∃ n new r', R.read r buf = some (.ok n,new,r') ∧ good r' ∧ n ≤ buf.length ∧
    held r = (Seq.ofList (new.take n)).append (held r') ∧ (n = 0 → buf = [] ∨ held r = .nil)

/-- The writer has room for a number of bytes, which may be infinite, and takes them without errors
and in parts of any size. -/
def Writer.Takes (W : Writer ω ε) (taken : ω → List UInt8) (room : ω → ℕ∞) : Prop :=
  ∀ w buf, ∃ (n : Nat) (w' : ω), W.write w buf = some (.ok n,w') ∧ n ≤ buf.length ∧
    taken w' = taken w ++ buf.take n ∧ room w = n + room w' ∧ (n = 0 → buf = [] ∨ room w = 0)

section Scalar

variable {R : Reader ρ ε} {W : Writer ω ε} {E : ErrorKinds ε} {interrupted : ρ → Bool}

/-- A round of the loop is a read of what is left. -/
theorem scalar_call {r r' : ρ} {cut cut' : Cut} {answer : Except ε Nat}
    (called : (R.scalar E).call r cut = some (answer,cut',r')) :
    ∃ new, R.read r cut.left = some (answer,new,r') ∧ cut' = ⟨cut.passed,new⟩ := by
  obtain ⟨⟨_,new,_⟩,ran,is⟩ := Option.map_eq_some_iff.mp called
  obtain ⟨rfl,rest⟩ := Prod.mk.inj is
  obtain ⟨rfl,rfl⟩ := Prod.mk.inj rest
  exact ⟨new,ran,rfl⟩

theorem scalar_advance {cut : Cut} {n : Nat} (few : n ≤ cut.left.length) :
    (R.scalar E).advance cut n = some ⟨cut.passed ++ cut.left.take n,cut.left.drop n⟩ := by
  simp only [Reader.scalar,lengthCheck,if_pos few,Option.map_some]

/-- A reader that answers gives a loop that does. -/
theorem scalar_sound {good : ρ → Prop}
    (sound : ∀ r buf, good r → ∃ answer new r', R.read r buf = some (answer,new,r') ∧ good r' ∧
      ∀ n, answer = .ok n → n ≤ buf.length) : (R.scalar E).Sound good where
  call {r cut} start _ := by
    obtain ⟨answer,new,r',ran,good',few⟩ := sound r cut.left start
    refine ⟨answer,⟨cut.passed,new⟩,r',?_,good',few⟩
    simp only [Reader.scalar,ran,Option.map_some]
  advance few := ⟨_,scalar_advance few⟩

theorem scalar_draws {held : ρ → Seq UInt8} {good : ρ → Prop} (holds : R.Holds held good) :
    (R.scalar E).Sound good ∧ (R.scalar E).Draws held good := by
  constructor
  · apply scalar_sound
    intro r buf start
    obtain ⟨n,new,r',ran,good',few,_⟩ := holds r buf start
    refine ⟨_,new,r',ran,good',fun m is => ?_⟩
    obtain rfl := Except.ok.inj is
    exact few
  · constructor
    intro r r' cut cut' answer start called
    obtain ⟨n,new,r'',ran,good',_,stream,none⟩ := holds r cut.left start
    obtain ⟨_,ran',rfl⟩ := scalar_call called
    obtain ⟨rfl,is⟩ := Prod.mk.inj (Option.some.inj (ran.symm.trans ran'))
    obtain ⟨rfl,rfl⟩ := Prod.mk.inj is
    exact ⟨good',n,rfl,stream,none⟩

theorem scalar_gives {taken : ω → List UInt8} {room : ω → ℕ∞} (takes : W.Takes taken room) :
    (W.transfers.scalar E).Sound (fun _ => True) ∧ (W.transfers.scalar E).Gives taken room := by
  constructor
  · apply scalar_sound
    intro w buf _
    obtain ⟨n,w',ran,few,_⟩ := takes w buf
    refine ⟨.ok n,buf,w',?_,trivial,fun m is => ?_⟩
    · simp only [Writer.transfers,ran,Option.map_some]
    · obtain rfl := Except.ok.inj is
      exact few
  · constructor
    intro w w' cut cut' answer called
    obtain ⟨n,w'',ran,_,log,space,none⟩ := takes w cut.left
    have read : W.transfers.read w cut.left = some (.ok n,cut.left,w'') := by
      simp only [Writer.transfers,ran,Option.map_some]
    obtain ⟨_,ran',rfl⟩ := scalar_call called
    obtain ⟨rfl,is⟩ := Prod.mk.inj (Option.some.inj (read.symm.trans ran'))
    obtain ⟨rfl,rfl⟩ := Prod.mk.inj is
    exact ⟨rfl,n,rfl,log,space,none⟩

/-- What is returned of a run of the loop, and of the buffer. -/
theorem transferAll_run {buf buf' : List UInt8} {r r' : ρ} {result : Except ε Nat} (some_ : buf ≠ [])
    (ran : R.transferAll E interrupted buf r = some (result,buf',r')) :
    ∃ n stop cut, (R.scalar E).Run ⟨[],buf⟩ r n stop cut r' ∧ buf' = cut.content ∧
      result = (match stop with
        | .failed e => .error e
        | _ => checkInterruptIfZero E interrupted r' n) := by
  have more : ¬ buf.isEmpty = true := fun empty => some_ (List.isEmpty_iff.mp empty)
  rw [Reader.transferAll,if_neg more] at ran
  obtain ⟨⟨returned,cut,r''⟩,looped,is⟩ := Option.map_eq_some_iff.mp ran
  obtain ⟨n,stop,run,rfl⟩ := Pump.loop_run looped
  rw [Nat.zero_add] at is
  cases stop
  all_goals
    obtain ⟨rfl,rest⟩ := Prod.mk.inj is
    obtain ⟨rfl,rfl⟩ := Prod.mk.inj rest
    exact ⟨n,_,cut,run,rfl,rfl⟩

variable (interrupted) in
theorem transferAll_sound {good : ρ → Prop} (sound : (R.scalar E).Sound good) {r : ρ} (start : good r)
    (buf : List UInt8) :
    ∃ result buf' r', R.transferAll E interrupted buf r = some (result,buf',r') ∧ good r' := by
  rw [Reader.transferAll]
  split
  · exact ⟨_,_,_,rfl,start⟩
  · obtain ⟨result,cut,r',looped,good'⟩ := sound.loop start 0
    rw [looped]
    cases result
    all_goals exact ⟨_,_,_,rfl,good'⟩

variable (interrupted) in
/-- As much of the stream is read as there is and as fits, however it is given; if there is nothing,
the interrupt is looked at. -/
theorem tryReadFully_holds {held : ρ → Seq UInt8} {good : ρ → Prop} (holds : R.Holds held good)
    {r : ρ} (start : good r) {buf : List UInt8} (some_ : buf ≠ []) :
    ∃ buf' r', R.tryReadFully E interrupted buf r =
        some (checkInterruptIfZero E interrupted r' ((held r).take buf.length).length,buf',r') ∧
      good r' ∧ held r' = (held r).drop ((held r).take buf.length).length ∧
      buf'.length = buf.length ∧ ∃ rest, buf' = (held r).take buf.length ++ rest := by
  obtain ⟨sound,draws⟩ := scalar_draws (E := E) holds
  obtain ⟨result,buf',r',ran,good'⟩ := transferAll_sound interrupted sound start buf
  obtain ⟨n,stop,cut,run,rfl,is⟩ := transferAll_run some_ ran
  obtain ⟨_,count,passed,rest,size,stopped⟩ := draws.run start run
  have passed : cut.passed = (held r).take buf.length := passed
  have size : cut.left.length = buf.length - n := size
  have count : n = ((held r).take buf.length).length := count
  have few : ((held r).take buf.length).length ≤ buf.length := Seq.length_take_le
  have result_ : result = checkInterruptIfZero E interrupted r' n := by
    rcases stopped with rfl | rfl
    all_goals exact is
  refine ⟨cut.content,r',?_,good',?_,?_,cut.left,?_⟩
  · rw [← count,← result_]
    exact ran
  · rw [← count]
    exact rest
  · rw [Cut.content,List.length_append,size,passed]
    omega
  · rw [Cut.content,passed]

end Scalar
end XxCore.Io
