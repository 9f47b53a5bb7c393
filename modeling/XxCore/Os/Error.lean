import XxCore.Runtime

/-! `OsError` of `os/error.rs`. -/
namespace XxCore.Os

/-- The codes that are listed: 41 and 58 are not. -/
def Listed (code : Int) : Prop := -1 ≤ code ∧ code ≤ 133 ∧ code ≠ 41 ∧ code ≠ 58

instance (code : Int) : Decidable (Listed code) := inferInstanceAs (Decidable (_ ∧ _ ∧ _ ∧ _))

/-- The enum with `repr(i16)`, as its discriminant. -/
structure OsError where
  code : Int
  listed : Listed code
  deriving DecidableEq

namespace OsError

/-! The codes that the crate goes by. -/

def unknown : OsError := ⟨-1,by decide⟩
def perm : OsError := ⟨1,by decide⟩
def noEnt : OsError := ⟨2,by decide⟩
def intr : OsError := ⟨4,by decide⟩
def tooBig : OsError := ⟨7,by decide⟩
def again : OsError := ⟨11,by decide⟩
def noMem : OsError := ⟨12,by decide⟩
def acces : OsError := ⟨13,by decide⟩
def busy : OsError := ⟨16,by decide⟩
def exist : OsError := ⟨17,by decide⟩
def xDev : OsError := ⟨18,by decide⟩
def notDir : OsError := ⟨20,by decide⟩
def isDir : OsError := ⟨21,by decide⟩
def inval : OsError := ⟨22,by decide⟩
def txtBsy : OsError := ⟨26,by decide⟩
def fBig : OsError := ⟨27,by decide⟩
def noSpc : OsError := ⟨28,by decide⟩
def sPipe : OsError := ⟨29,by decide⟩
def rofs : OsError := ⟨30,by decide⟩
def mLink : OsError := ⟨31,by decide⟩
def pipe : OsError := ⟨32,by decide⟩
def deadlock : OsError := ⟨35,by decide⟩
def nameTooLong : OsError := ⟨36,by decide⟩
def noSys : OsError := ⟨38,by decide⟩
def notEmpty : OsError := ⟨39,by decide⟩
def loop : OsError := ⟨40,by decide⟩
def addrInUse : OsError := ⟨98,by decide⟩
def addrNotAvail : OsError := ⟨99,by decide⟩
def netDown : OsError := ⟨100,by decide⟩
def netUnreach : OsError := ⟨101,by decide⟩
def connAborted : OsError := ⟨103,by decide⟩
def connReset : OsError := ⟨104,by decide⟩
def notConn : OsError := ⟨107,by decide⟩
def timedOut : OsError := ⟨110,by decide⟩
def connRefused : OsError := ⟨111,by decide⟩
def hostUnreach : OsError := ⟨113,by decide⟩
def stale : OsError := ⟨116,by decide⟩
def dQuot : OsError := ⟨122,by decide⟩
def canceled : OsError := ⟨125,by decide⟩

/-- `From<i32>`. -/
def ofI32 (code : Int) : OsError := if listed : Listed code then ⟨code,listed⟩ else unknown

end OsError

abbrev OsResult (α : Type) := Except OsError α

end XxCore.Os
