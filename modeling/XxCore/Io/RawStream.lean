import XxCore.Io.Read
import XxCore.Lib.Transition

/-! A seekable stream without a buffer: what the operations of a buffered reader mean for a
stream of fixed content at a position, and what is asked of the reader of such a stream. -/
namespace XxCore.Io

variable {ρ ε : Type}

/-- Where a seek goes, in a stream of this length at this position. -/
def SeekFrom.target (len pos : Nat) : SeekFrom → Int
  | .start abs => abs.toNat
  | .current rel => pos + rel.toInt
  | .end_ rel => len + rel.toInt

/-- The reader reads the content at its position, and seeks in it. It writes nothing into the
slice if it reports that it has read nothing. -/
structure Seekable (R : Read ρ ε) (K : Seek ρ ε) (content : List UInt8) (pos : ρ → Nat) : Prop where
  count : ∀ {r r' buf new n}, R.read r buf = (.ok n,new,r') → n ≤ buf.length
  bytes : ∀ {r r' buf new n}, R.read r buf = (.ok n,new,r') →
    new.take n = (content.drop (pos r)).take n
  advance : ∀ {r r' buf new n}, R.read r buf = (.ok n,new,r') → pos r' = pos r + n
  within : ∀ {r r' buf new n}, R.read r buf = (.ok n,new,r') → 0 < n → pos r + n ≤ content.length
  none : ∀ {r r' buf new}, R.read r buf = (.ok 0,new,r') →
    new = buf ∧ (buf = [] ∨ content.length ≤ pos r)
  seek : ∀ {r r' goal p}, K.seek r goal = (.ok p,r') →
    goal.target content.length (pos r) = p.toNat ∧ pos r' = p.toNat
  position : ∀ {r r' p}, K.streamPosition r = (.ok p,r') → p.toNat = pos r ∧ pos r' = pos r
  len : ∀ {r r' p}, K.streamLen r = (.ok p,r') → p.toNat = content.length ∧ pos r' = pos r

theorem Seekable.bounded {R : Read ρ ε} {K : Seek ρ ε} {content : List UInt8} {pos : ρ → Nat}
    (seekable : Seekable R K content pos) : R.Bounded := by
  intro r buf n count
  rcases ran : R.read r buf with ⟨result,new,r'⟩
  rw [ran] at count
  obtain rfl : result = .ok n := count
  exact seekable.count ran

namespace RawStream

inductive Op where
  | read (buf : List UInt8)
  | fillAmount (amount : Nat)
  | consume (count : Nat)
  | unconsume (count : Nat)
  | seek (goal : SeekFrom)
  | streamPosition

/-- What a successful operation returns; a read returns the bytes. -/
inductive Out where
  | bytes (bytes : List UInt8)
  | unit
  | pos (pos : UInt64)
  deriving DecidableEq

/-- What an operation does to the position. A read may return fewer bytes than it was asked for,
but none only at the end of the stream or for an empty request. -/
inductive Step (content : List UInt8) : Nat → Op × Out → Nat → Prop where
  | read (is : bytes = (content.drop pos).take bytes.length) (le : bytes.length ≤ buf.length)
    (none : bytes = [] → buf = [] ∨ content.length ≤ pos) :
    Step content pos (.read buf,.bytes bytes) (pos + bytes.length)
  | fillAmount : Step content pos (.fillAmount amount,.unit) pos
  | consume : Step content pos (.consume count,.unit) (pos + count)
  | unconsume (le : count ≤ pos) : Step content pos (.unconsume count,.unit) (pos - count)
  | seek (target : goal.target content.length pos = p.toNat) :
    Step content pos (.seek goal,.pos p) p.toNat
  | streamPosition (is : p.toNat = pos) : Step content pos (.streamPosition,.pos p) pos

/-- A run of the stream, with what its operations return. -/
abbrev Run (content : List UInt8) : Nat → List (Op × Out) → Nat → Prop :=
  Transition.Trace (Step content)

end RawStream

/-- The bytes between two positions, one of them moved by a read. -/
theorem drop_take_add {content : List UInt8} {k p n : Nat} (le : k ≤ p) (inside : p ≤ content.length) :
    (content.take p).drop k ++ (content.drop p).take n = (content.take (p + n)).drop k := by
  rw [List.take_add,List.drop_append_of_le_length (by rw [List.length_take_of_le inside]; exact le)]

/-- The seeks of a cursor, if their goal is a position. -/
def Cursor.seeks (content : List UInt8) : Seek Cursor Unit where
  seek r goal :=
    let target := goal.target content.length r.pos.toNat
    if 0 ≤ target ∧ target < 2 ^ 64 then
      (.ok (.ofNat target.toNat),{ r with pos := .ofNat target.toNat })
    else (.error (),r)
  streamLenFast _ := true
  streamLen r := (.ok (.ofNat content.length),r)
  streamPositionFast _ := true
  streamPosition r := (.ok r.pos,r)

theorem cursor_seekable {content : List UInt8} (small : content.length < 2 ^ 64) :
    Seekable (Cursor.reads content) (Cursor.seeks content) content fun r => r.pos.toNat where
  count ran := (Cursor.read_eq small ran).1
  bytes ran := (Cursor.read_eq small ran).2.1
  advance ran := (Cursor.read_eq small ran).2.2.1
  within ran := (Cursor.read_eq small ran).2.2.2
  none {r r' buf new} ran := by
    obtain ⟨is,rest⟩ := Prod.mk.inj ran
    obtain ⟨rfl,_⟩ := Prod.mk.inj rest
    have zero : r.count content buf = 0 := Except.ok.inj is
    refine ⟨by simp [zero,Slice.splice],?_⟩
    simp only [Cursor.count] at zero
    rw [← List.length_eq_zero_iff]
    omega
  seek {r r' goal p} ran := by
    simp only [Cursor.seeks] at ran
    split at ran
    · rename_i within
      obtain ⟨is,rfl⟩ := Prod.mk.inj ran
      obtain rfl := Except.ok.inj is
      have exact_ : (UInt64.ofNat (goal.target content.length r.pos.toNat).toNat).toNat =
          (goal.target content.length r.pos.toNat).toNat :=
        UInt64.toNat_ofNat_of_lt' (by simp only [UInt64.size]; omega)
      refine ⟨?_,rfl⟩
      rw [exact_,Int.toNat_of_nonneg within.1]
    · cases (Prod.mk.inj ran).1
  position ran := by
    obtain ⟨is,rfl⟩ := Prod.mk.inj ran
    obtain rfl := Except.ok.inj is
    exact ⟨rfl,rfl⟩
  len ran := by
    obtain ⟨is,rfl⟩ := Prod.mk.inj ran
    obtain rfl := Except.ok.inj is
    exact ⟨UInt64.toNat_ofNat_of_lt' small,rfl⟩

end XxCore.Io
