import XxCore.Error.Kind
import XxCore.Lib.Tagged

/-! `error/repr/mod.rs`: an error in one word, on a 64-bit target. -/
namespace XxCore.Error

open Os Tagged

/-- The type of OS codes and what it is converted by. `transmute` reads the bits of a word above
its tag; it is undefined if no code has them. -/
class OsCode (O : Type) where
  asUsize : O → BitVec 64
  transmute : BitVec 64 → Option O
  ofI32 : BitVec 32 → O
  kind : O → ErrorKind
  lossless : ∀ code, transmute ((asUsize code <<< 8) >>> 8) = some code

theorem OsError.toInt_code (code : OsError) : (BitVec.ofInt 16 code.code).toInt = code.code := by
  obtain ⟨above,below,_⟩ := code.listed
  rw [BitVec.toInt_ofInt]
  exact Int.bmod_eq_of_le (by omega) (by omega)

/-- With the feature `os`, the enum. -/
instance : OsCode OsError where
  asUsize code := (BitVec.ofInt 16 code.code).signExtend 64
  transmute bits :=
    let code := (bits.setWidth 16).toInt
    if listed : Listed code then some ⟨code,listed⟩ else none
  ofI32 code := .ofI32 code.toInt
  kind := .ofOsError
  lossless code := by
    have bits : (((BitVec.ofInt 16 code.code).signExtend 64 <<< 8) >>> 8).setWidth 16 =
        BitVec.ofInt 16 code.code := setWidth_shift_signExtend _ (by decide)
    simp only [bits,OsError.toInt_code]
    rw [dif_pos code.listed]

/-- Without it, `i32`. -/
instance : OsCode (BitVec 32) where
  asUsize code := code.signExtend 64
  transmute bits := some (bits.setWidth 32)
  ofI32 code := code
  kind _ := .other
  lossless code := congrArg some (setWidth_shift_signExtend code (by decide))

namespace Tag

def simpleMessage : BitVec 64 := 0
def simple : BitVec 64 := 1
def os : BitVec 64 := 2
def custom : BitVec 64 := 3
def mask : BitVec 64 := 0b11

end Tag

/-- Where a `SimpleMessage` or a `DynError` is. -/
structure Address where
  addr : BitVec 64
  nonNull : addr ≠ 0#64
  aligned : Aligned Tag.mask addr
  deriving DecidableEq

inductive ErrorData (O : Type) where
  | os (code : O)
  | simple (kind : ErrorKind)
  | simpleMessage (message : Address)
  | custom (custom : Address)

/-- `NonNull<()>`. -/
structure Repr where
  word : BitVec 64
  nonNull : word ≠ 0#64
  deriving DecidableEq

variable {O : Type} [OsCode O]

/-- A number under a tag. -/
def tagged (bits tag : BitVec 64) : BitVec 64 := bits <<< 8 ||| tag

theorem shifted_aligned (bits : BitVec 64) : Aligned Tag.mask (bits <<< 8) :=
  aligned_shiftLeft bits (by decide)

theorem tagged_ne_zero {bits tag : BitVec 64} (is : IsTag Tag.mask tag) (some : tag ≠ 0#64) :
    tagged bits tag ≠ 0#64 :=
  or_ne_zero (shifted_aligned bits) is (.inr some)

namespace Repr

def newOs (code : O) : Repr :=
  ⟨tagged (OsCode.asUsize code) Tag.os,tagged_ne_zero (by decide) (by decide)⟩

def newSimple (kind : ErrorKind) : Repr :=
  ⟨tagged (BitVec.ofNat 64 kind.discriminant) Tag.simple,tagged_ne_zero (by decide) (by decide)⟩

def newSimpleMessage (message : Address) : Repr := ⟨message.addr,message.nonNull⟩

def newCustom (custom : Address) : Repr :=
  ⟨custom.addr ||| Tag.custom,or_ne_zero custom.aligned (by decide) (.inl custom.nonNull)⟩

def new : ErrorData O → Repr
  | .os code => newOs code
  | .simple kind => newSimple kind
  | .simpleMessage message => newSimpleMessage message
  | .custom custom => newCustom custom

end Repr

/-- A pointer; a null or misaligned one is undefined. -/
def Address.ofBits (bits : BitVec 64) : Option Address :=
  if valid : bits ≠ 0#64 ∧ Aligned Tag.mask bits then some ⟨bits,valid.1,valid.2⟩ else none

theorem Address.ofBits_addr (address : Address) : ofBits address.addr = some address :=
  dif_pos ⟨address.nonNull,address.aligned⟩

/-- `transmute` of the low byte. -/
def ErrorKind.ofBits (bits : BitVec 64) : Option ErrorKind := all[(bits.setWidth 8).toNat]?

/-- `decode_repr`, for `data`, `data_mut` and `into_data`. -/
def Repr.decode (repr : Repr) : Option (ErrorData O) :=
  let tag := repr.word &&& Tag.mask
  let bits := repr.word &&& ~~~Tag.mask
  if tag = Tag.os then (OsCode.transmute (bits >>> 8)).map .os
  else if tag = Tag.simple then (ErrorKind.ofBits (bits >>> 8)).map .simple
  else if tag = Tag.simpleMessage then (Address.ofBits repr.word).map .simpleMessage
  else (Address.ofBits bits).map .custom

theorem ErrorKind.ofBits_discriminant (kind : ErrorKind) :
    ofBits ((BitVec.ofNat 64 kind.discriminant <<< 8) >>> 8) = some kind := by
  have byte := setWidth_shift_ofNat (w := 64) (k := 8) (n := 8) (m := kind.discriminant) (by decide)
  rw [ofBits,byte,BitVec.toNat_ofNat,Nat.mod_eq_of_lt kind.discriminant_lt]
  exact kind.all_get_discriminant

/-- What was put into a word is found in it. -/
theorem Repr.decode_new (data : ErrorData O) : (Repr.new data).decode = some data := by
  cases data with
  | os code =>
    have tag := tag_of_or (shifted_aligned (OsCode.asUsize code)) (t := Tag.os) (by decide)
    have bits := payload_of_or (shifted_aligned (OsCode.asUsize code)) (t := Tag.os) (by decide)
    simp only [decode,new,newOs,tagged,tag,bits,if_true,OsCode.lossless,Option.map_some]
  | simple kind =>
    have shifted := shifted_aligned (BitVec.ofNat 64 kind.discriminant)
    have tag := tag_of_or shifted (t := Tag.simple) (by decide)
    have bits := payload_of_or shifted (t := Tag.simple) (by decide)
    have apart : Tag.simple ≠ Tag.os := by decide
    simp only [decode,new,newSimple,tagged,tag,bits,apart,if_false,if_true,
      ErrorKind.ofBits_discriminant,Option.map_some]
  | simpleMessage message =>
    have tag : message.addr &&& Tag.mask = Tag.simpleMessage := message.aligned
    have apart : Tag.simpleMessage ≠ Tag.os ∧ Tag.simpleMessage ≠ Tag.simple := by decide
    simp only [decode,new,newSimpleMessage,tag,apart.1,apart.2,if_false,if_true,
      Address.ofBits_addr,Option.map_some]
  | custom custom =>
    have tag := tag_of_or custom.aligned (t := Tag.custom) (by decide)
    have bits := payload_of_or custom.aligned (t := Tag.custom) (by decide)
    have apart : Tag.custom ≠ Tag.os ∧ Tag.custom ≠ Tag.simple ∧ Tag.custom ≠ Tag.simpleMessage := by
      decide
    simp only [decode,new,newCustom,tag,bits,apart.1,apart.2.1,apart.2.2,if_false,
      Address.ofBits_addr,Option.map_some]

/-- Nothing is lost in the word: what was put into it is found in it, it is not zero, no two errors
share one (least of all two of different variants), and an error that is taken out and put in again
has the same one. -/
structure Lossless (O : Type) [OsCode O] : Prop where
  decode : ∀ data : ErrorData O, (Repr.new data).decode = some data
  nonZero : ∀ data : ErrorData O, (Repr.new data).word ≠ 0#64
  apart : ∀ data other : ErrorData O, (Repr.new data).word = (Repr.new other).word → data = other
  again : ∀ data : ErrorData O, ((Repr.new data).decode (O := O)).map Repr.new = some (Repr.new data)

theorem lossless (O : Type) [OsCode O] : Lossless O := by
  refine ⟨Repr.decode_new,fun data => (Repr.new data).nonNull,?_,?_⟩
  · intro data other same
    have word : Repr.new data = Repr.new other := by
      cases first : Repr.new data
      cases second : Repr.new other
      simp_all
    have found := Repr.decode_new data
    rw [word,Repr.decode_new other] at found
    exact (Option.some.inj found).symm
  · intro data
    rw [Repr.decode_new]
    rfl

/-- In both configurations. -/
theorem repr_lossless : Lossless OsError ∧ Lossless (BitVec 32) :=
  ⟨lossless OsError,lossless (BitVec 32)⟩

example : (Repr.newOs OsError.unknown).word = 0xffffffffffffff02 := by decide

end XxCore.Error
