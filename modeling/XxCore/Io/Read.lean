import XxCore.Impls.Uint
import XxCore.Lib.Slice

/-! The traits `Read` and `Seek` of `async_std/io` as records of functions, for readers of any
type, and the integer operations of the buffered reader. Code that may panic gives `none` then. -/
namespace XxCore.Io

/-- `read` fills a slice, which keeps its length, and reports how many bytes it has read. -/
structure Read (ρ ε : Type) where
  read : ρ → List UInt8 → Except ε Nat × List UInt8 × ρ
  length_read : ∀ reader buf, (read reader buf).2.1.length = buf.length

/-- The reader keeps what `length_check` checks. -/
def Read.Bounded (R : Read ρ ε) : Prop :=
  ∀ reader buf n, (R.read reader buf).1 = .ok n → n ≤ buf.length

inductive SeekFrom where
  | start (pos : UInt64)
  | current (rel : Int64)
  | end_ (pos : Int64)
  deriving DecidableEq

structure Seek (ρ ε : Type) where
  seek : ρ → SeekFrom → Except ε UInt64 × ρ
  streamLenFast : ρ → Bool
  streamLen : ρ → Except ε UInt64 × ρ
  streamPositionFast : ρ → Bool
  streamPosition : ρ → Except ε UInt64 × ρ

/-- `read_into_slice`: the number of bytes copied, and the destination. -/
def readIntoSlice (dest src : List UInt8) : Nat × List UInt8 :=
  let len := min dest.length src.length
  (len,Slice.splice dest 0 (src.take len))

/-- `length_check`. -/
def lengthCheck (buf : List UInt8) (len : Nat) : Option Nat :=
  if len ≤ buf.length then some len else none

/-- `usize` addition. -/
def add (x y : Nat) : Option Nat := if x + y < 2 ^ 64 then some (x + y) else none

/-- `usize` subtraction. -/
def sub (x y : Nat) : Option Nat := if y ≤ x then some (x - y) else none

def isizeMax : Nat := 2 ^ 63 - 1

/-- The value of an `i64` operation, if it does not overflow. -/
def checkedI64 (x : Int) : Option Int64 :=
  if -2 ^ 63 ≤ x ∧ x < 2 ^ 63 then some (.ofInt x) else none

/-- `u64::checked_add_signed`. -/
def checkedAddSigned (x : UInt64) (y : Int64) : Option UInt64 :=
  if 0 ≤ x.toNat + y.toInt ∧ x.toNat + y.toInt < 2 ^ 64 then
    some (.ofNat (x.toNat + y.toInt).toNat)
  else none

/-- `UintExt::overflowing_signed_diff`. -/
def overflowingSignedDiff (x y : UInt64) : Int64 × Bool :=
  let res := (x - y).toInt64
  (res,decide (y ≤ x) == decide (res < 0))

/-- `UintExt::checked_signed_diff`. -/
def checkedSignedDiff (x y : UInt64) : Option Int64 :=
  let (res,overflow) := overflowingSignedDiff x y
  if overflow then none else some res

/-- A reader of a fixed content; the next read gets at most one byte more than `sizes` says. -/
structure Cursor where
  pos : UInt64
  sizes : List Nat

def Cursor.count (content : List UInt8) (r : Cursor) (buf : List UInt8) : Nat :=
  min (r.sizes.headD 0 + 1) (min buf.length (content.length - r.pos.toNat))

def Cursor.reads (content : List UInt8) : Read Cursor Unit where
  read r buf :=
    let n := r.count content buf
    (.ok n,Slice.splice buf 0 ((content.drop r.pos.toNat).take n),⟨r.pos + .ofNat n,r.sizes.tail⟩)
  length_read r buf := by
    refine Slice.length_splice ?_
    simp only [Cursor.count,List.length_take,List.length_drop]
    omega

theorem add_of_lt {x y : Nat} (lt : x + y < 2 ^ 64) : add x y = some (x + y) := if_pos lt

theorem length_readIntoSlice (dest src : List UInt8) :
    (readIntoSlice dest src).2.length = dest.length := by
  simp only [readIntoSlice]
  rw [Slice.length_splice]
  rw [List.length_take]
  omega

/-- The bytes that were copied. -/
theorem take_readIntoSlice (dest src : List UInt8) :
    (readIntoSlice dest src).2.take (readIntoSlice dest src).1 = src.take (readIntoSlice dest src).1 := by
  simp only [readIntoSlice]
  rw [Slice.take_splice_zero (by rw [List.length_take]; omega),List.take_take,Nat.min_self]

theorem toInt_of_checkedI64 {x : Int} {y : Int64} (checked : checkedI64 x = some y) :
    y.toInt = x := by
  rw [checkedI64,Option.ite_none_right_eq_some] at checked
  obtain ⟨⟨le,lt⟩,eq⟩ := checked
  obtain rfl := Option.some.inj eq
  exact Int64.toInt_ofInt_of_le le lt

theorem toNat_of_checkedAddSigned {x z : UInt64} {y : Int64}
    (checked : checkedAddSigned x y = some z) : (z.toNat : Int) = x.toNat + y.toInt := by
  rw [checkedAddSigned,Option.ite_none_right_eq_some] at checked
  obtain ⟨⟨le,lt⟩,eq⟩ := checked
  obtain rfl := Option.some.inj eq
  rw [UInt64.toNat_ofNat_of_lt' (by simp only [UInt64.size]; omega),Int.toNat_of_nonneg le]

/-- The `u64` instance of `UintExt`. -/
theorem checkedSignedDiff_eq (x y : UInt64) : checkedSignedDiff x y =
    (Impls.checkedSignedDiff x.toBitVec y.toBitVec).map Int64.ofBitVec := by
  have flag : (overflowingSignedDiff x y).2 =
      (Impls.overflowingSignedDiff x.toBitVec y.toBitVec).2 := by
    simp only [overflowingSignedDiff,Impls.overflowingSignedDiff]
    congr 1
    exact decide_eq_decide.mpr Int64.lt_iff_toInt_lt
  simp only [checkedSignedDiff,Impls.checkedSignedDiff,flag]
  cases (Impls.overflowingSignedDiff x.toBitVec y.toBitVec).2 <;> rfl

/-- The difference, if it is an `i64`. -/
theorem toInt_of_checkedSignedDiff {x y : UInt64} {rel : Int64}
    (checked : checkedSignedDiff x y = some rel) : rel.toInt = x.toNat - y.toNat := by
  rw [checkedSignedDiff_eq] at checked
  obtain ⟨res,same,rfl⟩ := Option.map_eq_some_iff.mp checked
  exact (Impls.signed_diff_exact (by decide) x.toBitVec y.toBitVec).gives res same

/-- There is no difference only if it is too large for an `i64`. -/
theorem far_of_checkedSignedDiff {x y : UInt64} (far : checkedSignedDiff x y = none) :
    ¬ (-2 ^ 63 ≤ (x.toNat : Int) - y.toNat ∧ (x.toNat : Int) - y.toNat < 2 ^ 63) := by
  rw [checkedSignedDiff_eq,Option.map_eq_none_iff] at far
  have apart := (Impls.signed_diff_exact (by decide) x.toBitVec y.toBitVec).fails.mp far
  simp only [Impls.Range.Has,Impls.signed,UInt64.toNat_toBitVec] at apart
  omega

section Cursor

variable {content buf new : List UInt8} {r r' : Cursor} {n : Nat}

/-- What a read of a cursor does, if positions in the content are `u64`. -/
theorem Cursor.read_eq (small : content.length < 2 ^ 64)
    (ran : (reads content).read r buf = (.ok n,new,r')) :
    n ≤ buf.length ∧ new.take n = (content.drop r.pos.toNat).take n ∧
      r'.pos.toNat = r.pos.toNat + n ∧ (0 < n → r.pos.toNat + n ≤ content.length) := by
  obtain ⟨is,rest⟩ := Prod.mk.inj ran
  obtain ⟨rfl,rfl⟩ := Prod.mk.inj rest
  obtain rfl := Except.ok.inj is
  have few : r.count content buf ≤ buf.length ∧
      r.count content buf ≤ content.length - r.pos.toNat := by
    simp only [count]
    omega
  generalize r.count content buf = k at few
  have length : k ≤ ((content.drop r.pos.toNat).take k).length := by
    rw [List.length_take,List.length_drop]
    omega
  refine ⟨few.1,?_,?_,fun pos => by omega⟩
  · rw [Slice.take_splice_zero length,List.take_take,Nat.min_self]
  · have := r.pos.toNat_lt
    simp only [UInt64.toNat_add,UInt64.toNat_ofNat']
    omega

end Cursor

end XxCore.Io
