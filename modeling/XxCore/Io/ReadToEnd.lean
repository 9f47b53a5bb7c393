import XxCore.Io.BufReader
import XxCore.Io.BufWriterFlow
import XxCore.Io.Interrupt

/-! `Read::read_to_end` (`async_std/io/read.rs`). The vector is extended with zeros to its capacity,
read into, grown through a probe of 32 bytes, and cut back at the end; an error of a read into the
vector leaves the extension behind. -/
namespace XxCore.Io

variable {ρ ε : Type}

/-- The capacity that a vector gets that has to grow, from its capacity and the one it needs. -/
structure Allocator where
  grown : Nat → Nat → Nat
  enough : ∀ capacity required, required ≤ grown capacity required

namespace Vec

/-- `reserve`, which panics if the capacity overflows. -/
def reserve (A : Allocator) (v : Vec) (additional : Nat) : Option Vec :=
  let required := v.bytes.length + additional
  if required ≤ v.capacity then some v
  else if bounded : A.grown v.capacity required ≤ isizeMax then
    some ⟨v.bytes,A.grown v.capacity required,
      Nat.le_trans (Nat.le_add_right _ _) (A.enough _ _),bounded⟩
  else none

/-- `resize(capacity, 0)`. -/
def fillZero (v : Vec) : Vec :=
  ⟨v.bytes ++ List.replicate (v.capacity - v.bytes.length) 0,v.capacity,
    by have := v.fits; simp only [List.length_append,List.length_replicate]; omega,v.bounded⟩

/-- `extend_from_slice`. -/
def extendFromSlice (A : Allocator) (v : Vec) (slice : List UInt8) : Option Vec :=
  if fits : (v.bytes ++ slice).length ≤ v.capacity then
    some ⟨v.bytes ++ slice,v.capacity,fits,v.bounded⟩
  else if bounded : A.grown v.capacity (v.bytes ++ slice).length ≤ isizeMax then
    some ⟨v.bytes ++ slice,A.grown v.capacity (v.bytes ++ slice).length,A.enough _ _,bounded⟩
  else none

def truncate (v : Vec) (len : Nat) : Vec :=
  ⟨v.bytes.take len,v.capacity,Nat.le_trans (List.length_take_le' _ _) v.fits,v.bounded⟩

@[simp] theorem fillZero_bytes (v : Vec) :
    v.fillZero.bytes = v.bytes ++ List.replicate (v.capacity - v.bytes.length) 0 := rfl

@[simp] theorem truncate_bytes (v : Vec) (len : Nat) : (v.truncate len).bytes = v.bytes.take len := rfl

theorem length_splice_read (R : Read ρ ε) (v : Vec) (len : Nat) (r : ρ) :
    (Slice.splice v.bytes len (R.read r (v.bytes.drop len)).2.1).length = v.bytes.length := by
  have length := R.length_read r (v.bytes.drop len)
  simp only [Slice.splice,List.length_append,List.length_take,List.length_drop] at length ⊢
  omega

/-- A read into the bytes from `len` on. -/
def readFrom (R : Read ρ ε) (v : Vec) (len : Nat) (r : ρ) : Except ε Nat × Vec × ρ :=
  ((R.read r (v.bytes.drop len)).1,
    ⟨Slice.splice v.bytes len (R.read r (v.bytes.drop len)).2.1,v.capacity,
      by rw [length_splice_read]; exact v.fits,v.bounded⟩,
    (R.read r (v.bytes.drop len)).2.2)

end Vec

namespace ReadToEnd

/-- Why the loop stops: a `break`, an error that is returned from within, or a panic. -/
inductive Stop (ε : Type) where
  | broke (len : Nat)
  | failed (e : ε)
  | unwound

/-- What a pass through the loop gives: the `len` to go on with, or why it stops. -/
abbrev Pass (ρ ε : Type) := (Nat ⊕ Stop ε) × Vec × ρ

/-- The error of a read ends the loop. -/
def stopAt (E : ErrorKinds ε) (len : Nat) (e : ε) : Stop ε :=
  if E.isInterrupted e then .broke len else .failed e

/-- The vector before the read: it has room for one byte at least, and is filled up with zeros. -/
def padded (A : Allocator) (len : Nat) (v : Vec) : Option Vec :=
  (if len = v.capacity then v.reserve A 32 else some v).map Vec.fillZero

/-- The second read of a pass, when the vector is full. -/
def probe (R : Read ρ ε) (E : ErrorKinds ε) (A : Allocator) (len : Nat) (v : Vec) (r : ρ) :
    Pass ρ ε :=
  match R.read r (List.replicate 32 0) with
  | (.error e,_,r) => (.inr (stopAt E len e),v,r)
  | (.ok n,probe,r) =>
    if n = 0 then (.inr (.broke len),v,r)
    else match (Slice.range probe 0 n).bind (v.extendFromSlice A) with
      | none => (.inr .unwound,v,r)
      | some v => (.inl v.bytes.length,v,r)

/-- The body of the loop. -/
def pass (R : Read ρ ε) (E : ErrorKinds ε) (interrupted : ρ → Bool) (A : Allocator) (len : Nat)
    (v : Vec) (r : ρ) : Pass ρ ε :=
  if interrupted r then (.inr (.broke len),v,r)
  else match padded A len v with
    | none => (.inr .unwound,v,r)
    | some v =>
      match v.readFrom R len r with
      | (.error e,v,r) => (.inr (stopAt E len e),v,r)
      | (.ok n,v,r) =>
        if n = 0 then (.inr (.broke len),v,r)
        else match lengthCheck (v.bytes.drop len) n with
          | none => (.inr .unwound,v,r)
          | some n =>
            if len + n < v.capacity then (.inl (len + n),v,r) else probe R E A (len + n) v r

/-- The loop, if it has ended within `rounds`. -/
def loop (R : Read ρ ε) (E : ErrorKinds ε) (interrupted : ρ → Bool) (A : Allocator) :
    (rounds len : Nat) → Vec → ρ → Option (Stop ε × Vec × ρ)
  | 0,_,_,_ => none
  | rounds + 1,len,v,r =>
    match pass R E interrupted A len v r with
    | (.inl len,v,r) => loop R E interrupted A rounds len v r
    | (.inr stop,v,r) => some (stop,v,r)

end ReadToEnd

open ReadToEnd

/-- `read_to_end`, if its loop has ended within `rounds`. -/
def readToEnd (R : Read ρ ε) (E : ErrorKinds ε) (interrupted : ρ → Bool) (A : Allocator)
    (rounds : Nat) (buf : Vec) (r : ρ) : Option (Exit ε Nat × Vec × ρ) :=
  (loop R E interrupted A rounds buf.bytes.length buf r).map fun
    | (.broke len,v,r) =>
      (.returned (checkInterruptIfZero E interrupted r (len - buf.bytes.length)),v.truncate len,r)
    | (.failed e,v,r) => (.returned (.error e),v,r)
    | (.unwound,v,r) => (.unwound,v,r)

namespace ReadToEnd

section Delivered

variable {R : Read ρ ε} {E : ErrorKinds ε} {interrupted : ρ → Bool} {A : Allocator}
  {ledger : List UInt8 → ρ → Prop} {supplied : ρ → List UInt8} {buf v full : Vec} {r r' : ρ}
  {len : Nat}

/-- What is known of the bytes that were delivered and the reader is kept up by each read. -/
def Kept (R : Read ρ ε) (ledger : List UInt8 → ρ → Prop) : Prop :=
  ∀ {r r' slice result new delivered}, R.read r slice = (result,new,r') →
    (∀ n, result = .ok n → n ≤ slice.length) → ledger delivered r →
      ledger (delivered ++ handled result new) r'

/-- The first `len` bytes are those that the caller had, and what was delivered since. -/
structure Holding (ledger : List UInt8 → ρ → Prop) (buf : Vec) (len : Nat) (v : Vec) (r : ρ) :
    Prop where
  le : len ≤ v.bytes.length
  content : ∃ delivered, ledger delivered r ∧ v.bytes.take len = buf.bytes ++ delivered

/-- The read into the vector gets an error that is no interrupt. -/
def FailsHere (R : Read ρ ε) (E : ErrorKinds ε) (interrupted : ρ → Bool) (A : Allocator) (len : Nat)
    (v : Vec) (r : ρ) : Prop :=
  interrupted r = false ∧ ∃ full e, padded A len v = some full ∧
    (R.read r (full.bytes.drop len)).1 = .error e ∧ E.isInterrupted e = false

/-- One of the passes gets there. -/
inductive FillFails (R : Read ρ ε) (E : ErrorKinds ε) (interrupted : ρ → Bool) (A : Allocator) :
    Nat → Vec → ρ → Prop where
  | here {len : Nat} {v : Vec} {r : ρ} (here : FailsHere R E interrupted A len v r) :
      FillFails R E interrupted A len v r
  | later {len len' : Nat} {v v' : Vec} {r r' : ρ}
      (passed : pass R E interrupted A len v r = (.inl len',v',r'))
      (fails : FillFails R E interrupted A len' v' r') : FillFails R E interrupted A len v r

/-- What the vector holds after a pass or the loop, depending on whether a read into it fails. -/
inductive Outcome (E : ErrorKinds ε) (ledger : List UInt8 → ρ → Prop) (buf : Vec) (fails : Prop) :
    Pass ρ ε → Prop where
  | again {len : Nat} {v : Vec} {r : ρ} (holds : Holding ledger buf len v r) (fine : ¬ fails) :
      Outcome E ledger buf fails (.inl len,v,r)
  | broke {len : Nat} {v : Vec} {r : ρ} (holds : Holding ledger buf len v r) (fine : ¬ fails) :
      Outcome E ledger buf fails (.inr (.broke len),v,r)
  | left {len : Nat} {v : Vec} {r : ρ} {e : ε} (holds : Holding ledger buf len v r)
      (longer : len < v.bytes.length) (real : E.isInterrupted e = false) (failing : fails) :
      Outcome E ledger buf fails (.inr (.failed e),v,r)
  | failed {v : Vec} {r : ρ} {e : ε} (holds : Holding ledger buf v.bytes.length v r)
      (real : E.isInterrupted e = false) (fine : ¬ fails) :
      Outcome E ledger buf fails (.inr (.failed e),v,r)
  | unwound {v : Vec} {r : ρ} (front : buf.bytes <+: v.bytes) :
      Outcome E ledger buf fails (.inr .unwound,v,r)

theorem Outcome.congr {fails fails' : Prop} {p : Pass ρ ε} (outcome : Outcome E ledger buf fails p)
    (iff : fails' ↔ fails) : Outcome E ledger buf fails' p := by
  obtain rfl := propext iff
  exact outcome

theorem prefix_of_take {delivered : List UInt8}
    (content : v.bytes.take len = buf.bytes ++ delivered) : buf.bytes <+: v.bytes := by
  apply List.IsPrefix.trans _ (List.take_prefix len v.bytes)
  rw [content]
  exact List.prefix_append _ _

theorem Holding.front (holds : Holding ledger buf len v r) : buf.bytes <+: v.bytes := by
  obtain ⟨delivered,_,content⟩ := holds.content
  exact prefix_of_take content

theorem Holding.counted (holds : Holding ledger buf len v r) : ∃ delivered, ledger delivered r ∧
    v.bytes.take len = buf.bytes ++ delivered ∧ len = buf.bytes.length + delivered.length := by
  obtain ⟨delivered,known,content⟩ := holds.content
  have length := congrArg List.length content
  rw [List.length_take_of_le holds.le,List.length_append] at length
  exact ⟨delivered,known,content,length⟩

/-- There is room behind `len`, and the bytes before it stay. -/
theorem padded_spec (le : len ≤ v.bytes.length) (ran : padded A len v = some full) :
    len < full.bytes.length ∧ full.bytes.length = full.capacity ∧
      full.bytes.take len = v.bytes.take len := by
  have fits := v.fits
  have filled (v : Vec) : v.fillZero.bytes.length = v.fillZero.capacity := by
    have := v.fits
    have capacity : v.fillZero.capacity = v.capacity := rfl
    rw [Vec.fillZero_bytes,List.length_append,List.length_replicate,capacity]
    omega
  obtain ⟨w,grown,rfl⟩ := Option.map_eq_some_iff.mp ran
  have kept : w.bytes = v.bytes ∧ len < w.capacity := by
    split at grown
    · rw [Vec.reserve] at grown
      split at grown
      · omega
      · obtain ⟨_,is⟩ := Option.dite_none_right_eq_some.mp grown
        obtain rfl := Option.some.inj is
        have := A.enough v.capacity (v.bytes.length + 32)
        refine ⟨rfl,?_⟩
        simp only
        omega
    · obtain rfl := Option.some.inj grown
      exact ⟨rfl,by omega⟩
  refine ⟨by rw [filled]; exact kept.2,filled w,?_⟩
  rw [Vec.fillZero_bytes,kept.1,List.take_append_of_le_length le]

/-- A read that has put bytes behind the first `len`. -/
theorem Holding.read {result : Except ε Nat} {new : List UInt8} (holds : Holding ledger buf len v r)
    (kept : Kept R ledger) (ran : R.read r (v.bytes.drop len) = (result,new,r'))
    (fits : ∀ n, result = .ok n → n ≤ (v.bytes.drop len).length)
    (is : full.bytes = Slice.splice v.bytes len new) :
    Holding ledger buf (len + (handled result new).length) full r' := by
  obtain ⟨delivered,known,content⟩ := holds.content
  have le := holds.le
  have length := R.length_read r (v.bytes.drop len)
  rw [ran,List.length_drop] at length
  simp only at length
  have few : (handled result new).length ≤ new.length ∧
      new.take (handled result new).length = handled result new := by
    cases result with
    | error e => exact ⟨Nat.zero_le _,rfl⟩
    | ok n =>
      simp only [handled,List.length_take]
      refine ⟨Nat.min_le_right _ _,?_⟩
      rw [← List.take_take,List.take_length]
  refine ⟨?_,delivered ++ handled result new,kept ran fits known,?_⟩
  · rw [is,Slice.length_splice (by omega)]
    omega
  · rw [is,Slice.take_splice_add few.1 le,content,few.2,List.append_assoc]

theorem probe_outcome {fails : Prop} (fine : ¬ fails) (kept : Kept R ledger)
    (holds : Holding ledger buf v.bytes.length v r) :
    Outcome E ledger buf fails (probe R E A v.bytes.length v r) := by
  obtain ⟨delivered,known,content⟩ := holds.content
  rw [List.take_length] at content
  -- the vector is as it was, and nothing was delivered
  have stays {r' : ρ} (known' : ledger (delivered ++ []) r') :
      Holding ledger buf v.bytes.length v r' :=
    ⟨Nat.le_refl _,delivered ++ [],known',by rw [List.take_length,content,List.append_nil]⟩
  have length := R.length_read r (List.replicate 32 0)
  rw [probe]
  rcases ran : R.read r (List.replicate 32 0) with ⟨e | n,new,r'⟩
  · simp only [stopAt]
    split
    next => exact .broke (stays (kept ran nofun known)) fine
    next real => exact .failed (stays (kept ran nofun known)) (Bool.eq_false_iff.mpr real) fine
  · rw [ran] at length
    simp only
    split
    next zero =>
      subst zero
      have fits (n : Nat) (is : (Except.ok 0 : Except ε Nat) = .ok n) :
          n ≤ (List.replicate 32 (0 : UInt8)).length := by
        obtain rfl := Except.ok.inj is
        exact Nat.zero_le _
      exact .broke (stays (kept ran fits known)) fine
    next =>
      split
      next => exact .unwound holds.front
      next w extended =>
        obtain ⟨slice,range,grown⟩ := Option.bind_eq_some_iff.mp extended
        rw [Slice.range,Option.ite_none_right_eq_some] at range
        obtain ⟨⟨_,few⟩,is⟩ := range
        obtain rfl := Option.some.inj is
        have fits (m : Nat) (is : (Except.ok n : Except ε Nat) = .ok m) :
            m ≤ (List.replicate 32 (0 : UInt8)).length := by
          obtain rfl := Except.ok.inj is
          exact Nat.le_trans few (Nat.le_of_eq length)
        have bytes : w.bytes = v.bytes ++ new.take n := by
          rw [Vec.extendFromSlice,List.drop_zero] at grown
          split at grown
          · obtain rfl := Option.some.inj grown
            rfl
          · obtain ⟨_,is⟩ := Option.dite_none_right_eq_some.mp grown
            obtain rfl := Option.some.inj is
            rfl
        refine .again ⟨Nat.le_refl _,delivered ++ new.take n,kept ran fits known,?_⟩ fine
        rw [List.take_length,bytes,content,List.append_assoc]

theorem pass_outcome (kept : Kept R ledger) (holds : Holding ledger buf len v r) :
    Outcome E ledger buf (FailsHere R E interrupted A len v r)
      (pass R E interrupted A len v r) := by
  rw [pass]
  split
  next running =>
    exact .broke holds fun fails => Bool.false_ne_true (fails.1.symm.trans running)
  next idle =>
    split
    next => exact .unwound holds.front
    next full room =>
      obtain ⟨lt,length,same⟩ := padded_spec holds.le room
      have holds' : Holding ledger buf len full r := by
        refine ⟨Nat.le_of_lt lt,?_⟩
        rw [same]
        exact holds.content
      rcases ran : R.read r (full.bytes.drop len) with ⟨result,new,r'⟩
      -- the only read into the vector at this `len`
      have fails_iff : FailsHere R E interrupted A len v r ↔
          ∃ e, result = .error e ∧ E.isInterrupted e = false := by
        constructor
        · rintro ⟨_,full',e,room',failed,real⟩
          obtain rfl := Option.some.inj (room.symm.trans room')
          rw [ran] at failed
          exact ⟨e,failed,real⟩
        · rintro ⟨e,rfl,real⟩
          exact ⟨Bool.eq_false_iff.mpr idle,full,e,room,congrArg Prod.fst ran,real⟩
      apply Outcome.congr _ fails_iff
      have bytes : (full.readFrom R len r).2.1.bytes = Slice.splice full.bytes len new := by
        simp only [Vec.readFrom,ran]
      have size : (full.readFrom R len r).2.1.bytes.length = full.bytes.length :=
        Vec.length_splice_read R full len r
      have capacity : (full.readFrom R len r).2.1.capacity = full.capacity := rfl
      have is : full.readFrom R len r = (result,(full.readFrom R len r).2.1,r') := by
        refine Prod.ext ?_ (Prod.ext rfl ?_)
        · simp only [Vec.readFrom,ran]
        · simp only [Vec.readFrom,ran]
      generalize (full.readFrom R len r).2.1 = filled at bytes size capacity is
      rw [is]
      cases result with
      | error e =>
        have read : Holding ledger buf len filled r' := holds'.read kept ran nofun bytes
        simp only [stopAt]
        split
        next soft =>
          refine .broke read ?_
          rintro ⟨e',is,real⟩
          obtain rfl := Except.error.inj is
          exact Bool.false_ne_true (real.symm.trans soft)
        next real =>
          have real := Bool.eq_false_iff.mpr real
          exact .left read (by rw [size]; exact lt) real ⟨e,rfl,real⟩
      | ok n =>
        have fine : ¬ ∃ e, (Except.ok n : Except ε Nat) = .error e ∧ E.isInterrupted e = false := by
          rintro ⟨_,is,_⟩
          contradiction
        have newLength := R.length_read r (full.bytes.drop len)
        rw [ran] at newLength
        simp only at newLength
        have read (few : n ≤ (full.bytes.drop len).length) :
            Holding ledger buf (len + n) filled r' := by
          have read := holds'.read kept ran (fun m is => by rw [← Except.ok.inj is]; exact few) bytes
          rwa [handled,List.length_take_of_le (by omega)] at read
        simp only
        split
        next zero =>
          subst zero
          exact .broke (read (Nat.zero_le _)) fine
        next =>
          split
          next =>
            obtain ⟨delivered,_,content⟩ := holds'.content
            have content' : filled.bytes.take len = buf.bytes ++ delivered := by
              rw [bytes,Slice.take_splice (Nat.le_refl _) holds'.le,content]
            exact .unwound (prefix_of_take content')
          next m checked =>
            rw [lengthCheck,Option.ite_none_right_eq_some] at checked
            obtain ⟨few,is⟩ := checked
            obtain rfl := Option.some.inj is
            rw [List.length_drop,size,← List.length_drop] at few
            split
            next => exact .again (read few) fine
            next full_ =>
              have whole : len + n = filled.bytes.length := by
                have := (read few).le
                omega
              have read := read few
              rw [whole] at read ⊢
              exact probe_outcome fine kept read

theorem fillFails_iff_of_again {len' : Nat} {v' : Vec} {r' : ρ}
    (passed : pass R E interrupted A len v r = (.inl len',v',r'))
    (fine : ¬ FailsHere R E interrupted A len v r) :
    FillFails R E interrupted A len v r ↔ FillFails R E interrupted A len' v' r' := by
  constructor
  · intro fails
    cases fails with
    | here here => exact absurd here fine
    | later passed' fails =>
      obtain ⟨same,rest⟩ := Prod.mk.inj (passed.symm.trans passed')
      obtain rfl := Sum.inl.inj same
      obtain ⟨rfl,rfl⟩ := Prod.mk.inj rest
      exact fails
  · exact .later passed

theorem fillFails_iff_of_stop {stop : Stop ε} {v' : Vec} {r' : ρ}
    (passed : pass R E interrupted A len v r = (.inr stop,v',r')) :
    FillFails R E interrupted A len v r ↔ FailsHere R E interrupted A len v r := by
  constructor
  · intro fails
    cases fails with
    | here here => exact here
    | later passed' => exact absurd (Prod.mk.inj (passed.symm.trans passed')).1 nofun
  · exact .here

/-- The passes of a whole run, by induction on the rounds. -/
theorem loop_outcome {rounds : Nat} {stop : Stop ε} {v' : Vec} {r' : ρ}
    (kept : Kept R ledger) (holds : Holding ledger buf len v r)
    (ran : loop R E interrupted A rounds len v r = some (stop,v',r')) :
    Outcome E ledger buf (FillFails R E interrupted A len v r) (.inr stop,v',r') := by
  induction rounds generalizing len v r with
  | zero => simp [loop] at ran
  | succ rounds ih =>
    have outcome : Outcome E ledger buf (FailsHere R E interrupted A len v r)
        (pass R E interrupted A len v r) := pass_outcome kept holds
    rw [loop] at ran
    rcases passed : pass R E interrupted A len v r with ⟨len' | stop',v'',r''⟩
    · rw [passed] at outcome ran
      cases outcome with
      | again holds' fine => exact (ih holds' ran).congr (fillFails_iff_of_again passed fine)
    · rw [passed] at outcome ran
      obtain ⟨rfl,rest⟩ := Prod.mk.inj (Option.some.inj ran)
      obtain ⟨rfl,rfl⟩ := Prod.mk.inj rest
      exact outcome.congr (fillFails_iff_of_stop passed)

theorem start_holding (known : ledger [] r) : Holding ledger buf buf.bytes.length buf r :=
  ⟨Nat.le_refl _,[],known,by rw [List.take_length,List.append_nil]⟩

/-- The reader knows what it has delivered since the beginning of the call. -/
theorem kept_of_supplies (supplies : R.Supplies supplied) (r₀ : ρ) :
    Kept R fun delivered r => supplied r = supplied r₀ ++ delivered := by
  intro r r' slice result new delivered ran _ known
  rw [supplies.read ran,known,List.append_assoc]

/-- What a call that returns is to leave in the vector. -/
structure Leaves (E : ErrorKinds ε) (interrupted : ρ → Bool) (supplied : ρ → List UInt8) (buf : Vec)
    (r : ρ) (result : Except ε Nat) (buf' : Vec) (r' : ρ) : Prop where
  content : ∃ delivered, supplied r' = supplied r ++ delivered ∧ buf'.bytes = buf.bytes ++ delivered
  count : ∀ n, result = .ok n → buf'.bytes.length = buf.bytes.length + n
  interrupt : (∀ e, result = .error e → E.isInterrupted e = true) → supplied r' = supplied r →
    interrupted r' = true → result = .error E.interrupted

/-- After every call that returns, the vector holds what it held and what the reader has delivered,
exactly if no read into it has failed; a failure of the probe does no harm. -/
theorem readToEnd_leaves_iff {rounds : Nat} {result : Except ε Nat} {buf' : Vec} {r' : ρ}
    (supplies : R.Supplies supplied)
    (ran : readToEnd R E interrupted A rounds buf r = some (.returned result,buf',r')) :
    Leaves E interrupted supplied buf r result buf' r' ↔
      ¬ FillFails R E interrupted A buf.bytes.length buf r := by
  obtain ⟨⟨stop,v,r''⟩,looped,is⟩ := Option.map_eq_some_iff.mp ran
  have start : Holding (fun delivered r' => supplied r' = supplied r ++ delivered) buf
      buf.bytes.length buf r := start_holding (List.append_nil _).symm
  have outcome := loop_outcome (kept_of_supplies supplies r) start looped
  cases outcome with
  | @broke len _ _ holds fine =>
    obtain ⟨returned,rest⟩ := Prod.mk.inj is
    obtain ⟨rfl,rfl⟩ := Prod.mk.inj rest
    obtain rfl := Exit.returned.inj returned
    obtain ⟨delivered,got,content,length⟩ := holds.counted
    refine iff_of_true ⟨⟨delivered,got,content⟩,fun n ok => ?_,fun _ nothing cut => ?_⟩ fine
    · rw [checkInterruptIfZero_ok ok,Vec.truncate_bytes,List.length_take_of_le holds.le]
      omega
    · rw [got,List.append_right_eq_self] at nothing
      rw [nothing,List.length_nil] at length
      rw [checkInterruptIfZero_eq,if_pos ⟨by omega,cut⟩]
  | left holds longer real failing =>
    obtain ⟨returned,rest⟩ := Prod.mk.inj is
    obtain ⟨rfl,rfl⟩ := Prod.mk.inj rest
    refine iff_of_false (fun leaves => ?_) (not_not_intro failing)
    obtain ⟨delivered,got,content⟩ := holds.content
    obtain ⟨delivered',got',content'⟩ := leaves.content
    obtain rfl := List.append_cancel_left (got.symm.trans got')
    -- the zeros are still there
    rw [← content'] at content
    have length := congrArg List.length content
    rw [List.length_take_of_le holds.le] at length
    omega
  | failed holds real fine =>
    obtain ⟨returned,rest⟩ := Prod.mk.inj is
    obtain ⟨rfl,rfl⟩ := Prod.mk.inj rest
    obtain rfl := Exit.returned.inj returned
    obtain ⟨delivered,got,content⟩ := holds.content
    rw [List.take_length] at content
    refine iff_of_true ⟨⟨delivered,got,content⟩,nofun,fun soft => ?_⟩ fine
    exact absurd (real.symm.trans (soft _ rfl)) Bool.false_ne_true
  | unwound => exact absurd (Prod.mk.inj is).1 nofun

end Delivered

end ReadToEnd

/-- Whatever the reader does, the vector keeps what it held, and grows by what is returned. -/
theorem readToEnd_appends {R : Read ρ ε} {E : ErrorKinds ε} {interrupted : ρ → Bool} {A : Allocator}
    {rounds : Nat} {buf buf' : Vec} {r r' : ρ} {exit : Exit ε Nat}
    (ran : readToEnd R E interrupted A rounds buf r = some (exit,buf',r')) :
    ∃ appended, buf'.bytes = buf.bytes ++ appended ∧
      ∀ n, exit = .returned (.ok n) → appended.length = n := by
  obtain ⟨⟨stop,v,r''⟩,looped,is⟩ := Option.map_eq_some_iff.mp ran
  have start : Holding (fun _ _ => True) buf buf.bytes.length buf r := start_holding trivial
  have outcome := loop_outcome (fun _ _ _ => trivial) start looped
  cases outcome with
  | broke holds fine =>
    obtain ⟨returned,rest⟩ := Prod.mk.inj is
    obtain ⟨rfl,rfl⟩ := Prod.mk.inj rest
    obtain ⟨delivered,_,content,length⟩ := holds.counted
    refine ⟨delivered,content,fun n ok => ?_⟩
    rw [checkInterruptIfZero_ok (Exit.returned.inj (returned.trans ok))]
    omega
  | left holds _ _ _ | failed holds _ _ =>
    obtain ⟨returned,rest⟩ := Prod.mk.inj is
    obtain ⟨rfl,rfl⟩ := Prod.mk.inj rest
    obtain ⟨appended,content⟩ := holds.front
    refine ⟨appended,content.symm,fun n ok => ?_⟩
    exact absurd (Exit.returned.inj (returned.trans ok)) nofun
  | unwound front =>
    obtain ⟨returned,rest⟩ := Prod.mk.inj is
    obtain ⟨rfl,rfl⟩ := Prod.mk.inj rest
    obtain ⟨appended,content⟩ := front
    exact ⟨appended,content.symm,fun n ok => absurd (returned.trans ok) nofun⟩

/-- The errors of a reader that plays a script, and those of the helpers. -/
inductive PlayerError where
  | interrupted
  | unexpectedEof
  | invalidUtf8
  | writeZero
  | broken
  deriving DecidableEq

def faults : ErrorKinds PlayerError where
  writeZero := .writeZero
  isInterrupted e := decide (e = .interrupted)
  interrupted := .interrupted
  unexpectedEof := .unexpectedEof
  invalidUtf8 := .invalidUtf8
  interrupted_is := rfl
  unexpectedEof_not := rfl
  invalidUtf8_not := rfl

/-- A reader that delivers the bytes of its script and fails where that says so; `cut` says that
it was interrupted. -/
structure Player where
  script : List (UInt8 ⊕ PlayerError)
  sent : List UInt8
  cut : Bool

/-- At most `n` bytes from the front of a script. -/
def Player.leading : List (UInt8 ⊕ PlayerError) → Nat → List UInt8
  | .inl b :: s,n + 1 => b :: leading s n
  | _,_ => []

theorem Player.length_leading (s : List (UInt8 ⊕ PlayerError)) (n : Nat) : (leading s n).length ≤ n := by
  fun_induction leading with
  | case1 b s n ih => exact Nat.succ_le_succ ih
  | case2 => exact Nat.zero_le _

def Player.reads : Read Player PlayerError where
  read p buf :=
    match p.script with
    | .inr e :: s => (.error e,buf,{ p with script := s, cut := p.cut || faults.isInterrupted e })
    | s =>
      let bytes := leading s buf.length
      (.ok bytes.length,Slice.splice buf 0 bytes,
        { p with script := s.drop bytes.length, sent := p.sent ++ bytes })
  length_read p buf := by
    split
    · rfl
    · refine Slice.length_splice ?_
      rw [Nat.zero_add]
      exact length_leading _ _

theorem player_supplies : Player.reads.Supplies Player.sent where
  ok {p p' buf new n} ran := by
    simp only [Player.reads] at ran
    split at ran
    · exact absurd (Prod.mk.inj ran).1 nofun
    · obtain ⟨is,rest⟩ := Prod.mk.inj ran
      obtain ⟨rfl,rfl⟩ := Prod.mk.inj rest
      obtain rfl := Except.ok.inj is
      refine ⟨Player.length_leading _ _,?_⟩
      rw [Slice.take_splice_zero (Nat.le_refl _),List.take_length]
  error {p p' buf new e} ran := by
    simp only [Player.reads] at ran
    split at ran
    · obtain ⟨_,rest⟩ := Prod.mk.inj ran
      obtain ⟨_,rfl⟩ := Prod.mk.inj rest
      rfl
    · exact absurd (Prod.mk.inj ran).1 nofun

/-- The capacity that is asked for. -/
def exactAllocator : Allocator := ⟨fun _ required => required,fun _ _ => Nat.le_refl _⟩

/-- A call that is interrupted after two bytes. -/
theorem readToEnd_leaves_player : ∃ buf' p',
    readToEnd Player.reads faults Player.cut exactAllocator 9 ⟨[5],2,by decide,by decide⟩
      ⟨[.inl 7,.inl 8,.inr .interrupted],[],false⟩ = some (.returned (.ok 2),buf',p') ∧
    buf'.bytes = [5,7,8] ∧ ¬ FillFails Player.reads faults Player.cut exactAllocator 1
      ⟨[5],2,by decide,by decide⟩ ⟨[.inl 7,.inl 8,.inr .interrupted],[],false⟩ := by
  have called : (readToEnd Player.reads faults Player.cut exactAllocator 9
      ⟨[5],2,by decide,by decide⟩ ⟨[.inl 7,.inl 8,.inr .interrupted],[],false⟩).map
      (fun (exit,buf,p) => (exit.value,buf.bytes,p.sent)) = some (some 2,[5,7,8],[7,8]) := by
    decide +kernel
  obtain ⟨⟨exit,buf',p'⟩,ran,is⟩ := Option.map_eq_some_iff.mp called
  simp only [Prod.mk.injEq] at is
  obtain ⟨value,bytes,sent⟩ := is
  obtain rfl := Exit.of_value value
  refine ⟨buf',p',ran,bytes,(readToEnd_leaves_iff player_supplies ran).mp ⟨⟨[7,8],sent,bytes⟩,?_,?_⟩⟩
  · rintro n ok
    rw [bytes,← Except.ok.inj ok]
    rfl
  · intro _ nothing
    rw [sent] at nothing
    contradiction

/-- An error of the first read leaves 32 zeros in an empty vector. -/
theorem readToEnd_not_always_leaves : ¬ ∀ (buf buf' : Vec) (p p' : Player) (rounds : Nat)
    (result : Except PlayerError Nat),
    readToEnd Player.reads faults Player.cut exactAllocator rounds buf p =
      some (.returned result,buf',p') → Leaves faults Player.cut Player.sent buf p result buf' p' := by
  intro always
  have called : (readToEnd Player.reads faults Player.cut exactAllocator 1
      ⟨[],0,by decide,by decide⟩ ⟨[.inr .broken],[],false⟩).map
      (fun (exit,buf,p) => (exit.error,buf.bytes,p.sent)) =
        some (some .broken,List.replicate 32 0,[]) := by
    decide +kernel
  obtain ⟨⟨exit,buf',p'⟩,ran,is⟩ := Option.map_eq_some_iff.mp called
  simp only [Prod.mk.injEq] at is
  obtain ⟨error,bytes,sent⟩ := is
  obtain rfl := Exit.of_error error
  obtain ⟨delivered,got,content⟩ := (always _ _ _ _ _ _ ran).content
  rw [sent] at got
  obtain rfl : delivered = [] := got.symm
  rw [bytes] at content
  contradiction

end XxCore.Io
