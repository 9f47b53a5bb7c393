import XxCore.Io.BufReaderForward
import XxCore.Io.RawStream

/-! Failing seeks. The window is given up with every answer of the reader, also with an error, and
then the bytes in it are lost; the two seeks of an offset that is too large for one are spared. -/
namespace XxCore.Io

variable {ρ ε : Type}

/-- An error with the call it comes from: a seek, or a question for the position or the length. -/
inductive Fault (ε : Type) where
  | seek (e : ε)
  | query (e : ε)
  deriving DecidableEq

def Fault.error : Fault ε → ε
  | .seek e => e
  | .query e => e

/-- The same reader, whose errors say where they come from. -/
def Seek.traced (K : Seek ρ ε) : Seek ρ (Fault ε) where
  seek r goal := let (result,r) := K.seek r goal; (result.mapError .seek,r)
  streamLenFast := K.streamLenFast
  streamLen r := let (result,r) := K.streamLen r; (result.mapError .query,r)
  streamPositionFast := K.streamPositionFast
  streamPosition r := let (result,r) := K.streamPosition r; (result.mapError .query,r)

section Traced

variable (K : Seek ρ ε)

theorem Seek.traced_seek (r : ρ) (goal : SeekFrom) :
    K.traced.seek r goal = ((K.seek r goal).1.mapError .seek,(K.seek r goal).2) := rfl

theorem Seek.traced_streamLen (r : ρ) :
    K.traced.streamLen r = ((K.streamLen r).1.mapError .query,(K.streamLen r).2) := rfl

theorem Seek.traced_streamPosition (r : ρ) : K.traced.streamPosition r =
    ((K.streamPosition r).1.mapError .query,(K.streamPosition r).2) := rfl

end Traced

/-- The reader seeks in a stream of fixed content, and a call that fails or only asks leaves it
where it is. -/
structure Seek.Stays (K : Seek ρ ε) (content : List UInt8) (pos : ρ → Nat) : Prop where
  seek : ∀ {r r' goal p}, K.seek r goal = (.ok p,r') →
    goal.target content.length (pos r) = p.toNat ∧ pos r' = p.toNat
  failed : ∀ {r r' goal e}, K.seek r goal = (.error e,r') → pos r' = pos r
  position : ∀ {r r' result}, K.streamPosition r = (result,r') →
    pos r' = pos r ∧ ∀ p, result = .ok p → p.toNat = pos r
  len : ∀ {r r' result}, K.streamLen r = (result,r') →
    pos r' = pos r ∧ ∀ p, result = .ok p → p.toNat = content.length

namespace BufReader

section Traced

variable (K : Seek ρ ε)

/-- The outcome without the origin of its error. -/
def untraced (outcome : Outcome ρ (Fault ε) UInt64) : Outcome ρ ε UInt64 :=
  outcome.map fun (result,b) => (result.mapError Fault.error,b)

theorem mapError_error (result : Except ε UInt64) (cause : ε → Fault ε)
    (is : ∀ e, (cause e).error = e) : (result.mapError cause).mapError Fault.error = result := by
  cases result with
  | error e => exact congrArg Except.error (is e)
  | ok => rfl

theorem streamPosition_traced (b : BufReader ρ) :
    untraced (streamPosition K.traced b) = streamPosition K b := by
  rcases ran : K.streamPosition b.reader with ⟨e | q,r⟩
  · simp only [streamPosition,K.traced_streamPosition,ran]
    rfl
  · simp only [streamPosition,K.traced_streamPosition,ran,Except.mapError,untraced,Option.map_map]
    rfl

theorem seekReader_traced (b : BufReader ρ) (goal : SeekFrom) :
    untraced (seekReader K.traced b goal) = seekReader K b goal := by
  simp only [seekReader,K.traced_seek,untraced,Option.map_some]
  rw [mapError_error _ _ fun _ => rfl]

theorem seekInner_traced (b : BufReader ρ) (goal : SeekFrom) :
    untraced (seekInner K.traced b goal) = seekInner K b goal := by
  cases goal with
  | start | end_ => exact seekReader_traced K b _
  | current rel =>
    simp only [seekInner]
    split
    · exact seekReader_traced K b _
    · rw [K.traced_seek]
      rcases K.seek b.reader (.current (-Int64.ofNat b.buffer.length)) with ⟨e | q,r⟩
      · rfl
      · exact seekReader_traced K { b with reader := r } _

theorem seekRelative_traced (b : BufReader ρ) (rel : Int64) :
    untraced (seekRelative K.traced b rel) = seekRelative K b rel := by
  simp only [seekRelative]
  split
  · exact seekInner_traced K b _
  · split
    · exact seekInner_traced K b _
    · exact streamPosition_traced K _

theorem seekAbs_traced (b : BufReader ρ) (abs : UInt64) (goal : SeekFrom) :
    untraced (seekAbs K.traced b abs goal) = seekAbs K b abs goal := by
  have same := streamPosition_traced K b
  rw [seekAbs,seekAbs,← same]
  rcases streamPosition K.traced b with _ | ⟨e | q,b'⟩
  · rfl
  · rfl
  · simp only [untraced,Option.map_some,Option.bind_some,Except.mapError]
    split
    · exact seekRelative_traced K b' _
    · exact seekInner_traced K b' _

/-- The traced seek is the seek. -/
theorem seek_traced (b : BufReader ρ) (goal : SeekFrom) :
    untraced (seek K.traced b goal) = seek K b goal := by
  cases goal with
  | current rel => exact seekRelative_traced K b rel
  | start abs =>
    simp only [seek]
    by_cases fast : K.streamPositionFast b.reader = true
    · have fast' : K.traced.streamPositionFast b.reader = true := fast
      rw [if_pos fast,if_pos fast']
      exact seekAbs_traced K b abs _
    · have slow : ¬ K.traced.streamPositionFast b.reader = true := fast
      rw [if_neg fast,if_neg slow]
      exact seekInner_traced K b _
  | end_ rel =>
    simp only [seek]
    have position : K.traced.streamPositionFast b.reader = K.streamPositionFast b.reader := rfl
    have len : K.traced.streamLenFast b.reader = K.streamLenFast b.reader := rfl
    by_cases slow : K.streamPositionFast b.reader = false
    · rw [if_pos slow,if_pos (position.trans slow)]
      exact seekInner_traced K b _
    by_cases slow' : K.streamLenFast b.reader = false
    · rw [if_neg slow,if_neg (position ▸ slow),if_pos slow',if_pos (len.trans slow')]
      exact seekInner_traced K b _
    rw [if_neg slow,if_neg (position ▸ slow),if_neg slow',if_neg (len ▸ slow'),K.traced_streamLen]
    rcases K.streamLen b.reader with ⟨e | len,r⟩
    · rfl
    · simp only [Except.mapError]
      rcases checkedAddSigned len rel with _ | abs
      · rfl
      · exact seekAbs_traced K { b with reader := r } abs _

end Traced

/-- The states that the methods reach, whatever they return. -/
inductive Reachable (R : Read ρ ε) (K : Seek ρ ε) : BufReader ρ → Prop where
  | made (made : fromParts r buf at_ = some b) : Reachable R K b
  | read (before : Reachable R K b) (ran : read R b buf = some (result,new,next)) : Reachable R K next
  | fillAmount (before : Reachable R K b) (ran : fillAmount R b amount = some (result,next)) :
      Reachable R K next
  | moveDataToBeginning (before : Reachable R K b) (ran : moveDataToBeginning b = some next) :
      Reachable R K next
  | consume (before : Reachable R K b) (ran : consume b count = some next) : Reachable R K next
  | unconsume (before : Reachable R K b) (ran : unconsume b count = some next) : Reachable R K next
  | discard (before : Reachable R K b) : Reachable R K (discard b)
  | streamPosition (before : Reachable R K b) (ran : streamPosition K b = some (result,next)) :
      Reachable R K next
  | seek (before : Reachable R K b) (ran : seek K b goal = some (result,next)) : Reachable R K next
  | innerMut {b : BufReader ρ} (before : Reachable R K b) (r : ρ) :
      Reachable R K { b with reader := r }

/-- The calls of a seek change nothing but the window and the reader. -/
structure Same (b next : BufReader ρ) : Prop where
  data : next.data = b.data
  stop : next.stop = b.stop ∨ next.stop = 0
  le : next.start ≤ next.stop

theorem Same.valid {b next : BufReader ρ} (same : Same b next) (valid : b.Valid) : next.Valid := by
  have bound := valid.bound
  have stop := same.stop
  refine ⟨same.le,?_,?_⟩
  · rw [same.data]
    omega
  · rw [same.data]
    exact valid.small

theorem streamPosition_same {K : Seek ρ ε} {b next : BufReader ρ} {result : Except ε UInt64}
    (valid : b.Valid) (ran : streamPosition K b = some (result,next)) :
    next = { b with reader := (K.streamPosition b.reader).2 } ∧ Same b next := by
  suffices is : next = { b with reader := (K.streamPosition b.reader).2 } by
    rw [is]
    exact ⟨rfl,rfl,.inl rfl,valid.le⟩
  rw [streamPosition] at ran
  rcases called : K.streamPosition b.reader with ⟨e | q,r⟩
  · simp only [called] at ran
    exact (Prod.mk.inj (Option.some.inj ran)).2.symm
  · simp only [called] at ran
    obtain ⟨_,_,eq⟩ := Option.map_eq_some_iff.mp ran
    exact (Prod.mk.inj eq).2.symm

theorem seekReader_same {K : Seek ρ ε} {b next : BufReader ρ} {goal : SeekFrom}
    {result : Except ε UInt64} (ran : seekReader K b goal = some (result,next)) : Same b next := by
  obtain ⟨_,rfl⟩ := Prod.mk.inj (Option.some.inj ran)
  exact ⟨rfl,.inr rfl,Nat.le_refl _⟩

theorem seekInner_same {K : Seek ρ ε} {b next : BufReader ρ} {goal : SeekFrom}
    {result : Except ε UInt64} (valid : b.Valid)
    (ran : seekInner K b goal = some (result,next)) : Same b next := by
  cases goal with
  | start | end_ => exact seekReader_same ran
  | current rel =>
    simp only [seekInner] at ran
    split at ran
    · exact seekReader_same ran
    · split at ran
      · obtain ⟨_,rfl⟩ := Prod.mk.inj (Option.some.inj ran)
        exact ⟨rfl,.inl rfl,valid.le⟩
      · obtain ⟨data,stop,le⟩ := seekReader_same ran
        exact ⟨data,stop,le⟩

theorem seekRelative_same {K : Seek ρ ε} {b next : BufReader ρ} {rel : Int64}
    {result : Except ε UInt64} (valid : b.Valid)
    (ran : seekRelative K b rel = some (result,next)) : Same b next := by
  have bound := valid.bound
  have small := valid.small
  rw [isizeMax] at small
  have stop : (Int64.ofNat b.stop).toInt = b.stop := Int64.toInt_ofNat_of_lt (by omega)
  rw [seekRelative] at ran
  split at ran
  · exact seekInner_same valid ran
  · split at ran
    · exact seekInner_same valid ran
    · rename_i target _ within
      have valid' : Valid { b with start := target.toInt.toNat } :=
        ⟨by simp only; omega,valid.bound,valid.small⟩
      obtain ⟨data,stop,le⟩ := (streamPosition_same valid' ran).2
      exact ⟨data,stop,le⟩

theorem seekAbs_valid {K : Seek ρ ε} {b next : BufReader ρ} {abs : UInt64} {goal : SeekFrom}
    {result : Except ε UInt64} (valid : b.Valid)
    (ran : seekAbs K b abs goal = some (result,next)) : next.Valid := by
  rw [seekAbs] at ran
  obtain ⟨⟨asked,middle⟩,called,ran⟩ := Option.bind_eq_some_iff.mp ran
  have valid' := (streamPosition_same valid called).2.valid valid
  cases asked with
  | error e =>
    obtain ⟨_,rfl⟩ := Prod.mk.inj (Option.some.inj ran)
    exact valid'
  | ok q =>
    simp only at ran
    split at ran
    · exact (seekRelative_same valid' ran).valid valid'
    · exact (seekInner_same valid' ran).valid valid'

theorem seek_valid {K : Seek ρ ε} {b next : BufReader ρ} {goal : SeekFrom}
    {result : Except ε UInt64} (valid : b.Valid) (ran : seek K b goal = some (result,next)) :
    next.Valid := by
  have valid' (r : ρ) : Valid { b with reader := r } := ⟨valid.le,valid.bound,valid.small⟩
  have seeks := seek_seeks ran
  clear ran
  cases seeks with
  | relative ran => exact (seekRelative_same valid ran).valid valid
  | startInner _ ran | endInner _ ran => exact (seekInner_same valid ran).valid valid
  | start _ ran => exact seekAbs_valid valid ran
  | failed _ ran =>
    obtain ⟨_,rfl⟩ := Prod.mk.inj (Option.some.inj ran)
    exact valid' _
  | end_ _ _ _ ran =>
    obtain ⟨abs,_,ran⟩ := Option.bind_eq_some_iff.mp ran
    exact seekAbs_valid (valid' _) ran

theorem Reachable.valid {R : Read ρ ε} {K : Seek ρ ε} {held : ρ → List UInt8} {b : BufReader ρ}
    (reachable : Reachable R K b) (delivers : R.Delivers held) : b.Valid := by
  induction reachable with
  | made made => exact fromParts_valid made
  | @read b buf result new next _ ran valid =>
    obtain ⟨result',new',next',ran',reads⟩ := read_reads delivers.bounded valid buf
    obtain ⟨rfl,rest⟩ := Prod.mk.inj (Option.some.inj (ran'.symm.trans ran))
    obtain ⟨rfl,rfl⟩ := Prod.mk.inj rest
    exact (reads.stream delivers valid).1
  | @fillAmount b amount result next _ ran valid =>
    have fits : amount ≤ b.capacity := (Option.ite_none_right_eq_some.mp ran).1
    obtain ⟨result',next',ran',fills⟩ := fillAmount_fills delivers.bounded valid fits
    obtain ⟨rfl,rfl⟩ := Prod.mk.inj (Option.some.inj (ran'.symm.trans ran))
    exact (fills.stream delivers valid).1
  | moveDataToBeginning _ ran valid =>
    obtain rfl := Option.some.inj ((moveDataToBeginning_eq valid).symm.trans ran)
    exact moved_valid valid
  | @consume b count next _ ran valid =>
    have few : count ≤ b.buffer.length := (Option.ite_none_right_eq_some.mp ran).1
    obtain rfl := Option.some.inj ((consume_eq valid few).symm.trans ran)
    have length := valid.length_buffer
    have le := valid.le
    exact ⟨by simp only; omega,valid.bound,valid.small⟩
  | unconsume _ ran valid =>
    obtain ⟨start,subtracted,rfl⟩ := Option.map_eq_some_iff.mp ran
    rw [sub,Option.ite_none_right_eq_some] at subtracted
    have is := Option.some.inj subtracted.2
    have le := valid.le
    exact ⟨by simp only; omega,valid.bound,valid.small⟩
  | discard _ valid => exact ⟨Nat.le_refl _,Nat.zero_le _,valid.small⟩
  | streamPosition _ ran valid => exact (streamPosition_same valid ran).2.valid valid
  | seek _ ran valid => exact seek_valid valid ran
  | innerMut _ _ valid => exact ⟨valid.le,valid.bound,valid.small⟩

section Failing

variable {K : Seek ρ ε} {content : List UInt8} {pos : ρ → Nat}

/-- The logical position, also if the window is longer than the stream before it. -/
def place (pos : ρ → Nat) (b : BufReader ρ) : Int := pos b.reader - b.buffer.length

/-- The bytes that later reads return. -/
def ahead (content : List UInt8) (pos : ρ → Nat) (b : BufReader ρ) : List UInt8 :=
  b.buffer ++ content.drop (pos b.reader)

/-- The window is what the stream has before the position of the reader. -/
def Agrees (content : List UInt8) (pos : ρ → Nat) (b : BufReader ρ) : Prop :=
  ahead content pos b = content.drop (pos b.reader - b.buffer.length)

/-- A distance that is an `i64`, but not with the window subtracted. -/
def Split (b : BufReader ρ) (rel : Int) : Prop := -2 ^ 63 ≤ rel ∧ rel < -2 ^ 63 + b.buffer.length

/-- The seek takes back the window by a seek of its own. -/
def Splits (K : Seek ρ ε) (content : List UInt8) (pos : ρ → Nat) (b : BufReader ρ) :
    SeekFrom → Prop
  | .current rel => Split b rel.toInt
  | .start abs => K.streamPositionFast b.reader = true ∧ Split b (abs.toNat - place pos b)
  | .end_ rel => K.streamPositionFast b.reader = true ∧ K.streamLenFast b.reader = true ∧
      Split b (content.length + rel.toInt - place pos b)

/-- The reader, when it has answered what a seek asks of it. -/
def asked (K : Seek ρ ε) (b : BufReader ρ) : SeekFrom → ρ
  | .current _ => b.reader
  | .start _ => (K.streamPosition b.reader).2
  | .end_ _ => (K.streamPosition (K.streamLen b.reader).2).2

/-- When a failing seek loses nothing: the window is empty, or it is taken back by a seek of its
own, which fails, or moves the reader to the bytes of the window. -/
def Spared (K : Seek ρ ε) (content : List UInt8) (pos : ρ → Nat) (b : BufReader ρ)
    (goal : SeekFrom) : Prop :=
  b.buffer = [] ∨ Splits K content pos b goal ∧
    ((∃ e, (K.seek (asked K b goal) (.current (-Int64.ofNat b.buffer.length))).1 = .error e) ∨
      Agrees content pos b)

/-- What a failing seek has done to the window and the reader, and when that loses nothing. -/
inductive Failed (content : List UInt8) (pos : ρ → Nat) (b : BufReader ρ) :
    Prop → BufReader ρ → Prop where
  | lost (buffer : next.buffer = []) (stays : pos next.reader = pos b.reader) :
      Failed content pos b (b.buffer = []) next
  | kept (buffer : next.buffer = b.buffer) (stays : pos next.reader = pos b.reader) :
      Failed content pos b True next
  | returned (buffer : next.buffer = []) (moved : pos next.reader + b.buffer.length = pos b.reader) :
      Failed content pos b (Agrees content pos b) next

/-- The logical position and the bytes of later reads are those of the state before. -/
def Unmoved (content : List UInt8) (pos : ρ → Nat) (b next : BufReader ρ) : Prop :=
  place pos next = place pos b ∧ ahead content pos next = ahead content pos b

theorem Failed.unmoved_iff {b next : BufReader ρ} {spared : Prop}
    (failed : Failed content pos b spared next) : Unmoved content pos b next ↔ spared := by
  cases failed with
  | lost buffer stays =>
    simp only [Unmoved,place,ahead,buffer,stays,List.length_nil]
    constructor
    · rintro ⟨same,_⟩
      exact List.length_eq_zero_iff.mp (by omega)
    · intro empty
      simp [empty]
  | kept buffer stays =>
    simp [Unmoved,place,ahead,buffer,stays]
  | returned buffer moved =>
    have here : pos next.reader = pos b.reader - b.buffer.length := by omega
    simp only [Unmoved,place,buffer,Agrees,List.length_nil,ahead,List.nil_append,← here]
    constructor
    · rintro ⟨_,same⟩
      exact same.symm
    · intro same
      exact ⟨by omega,same.symm⟩

/-- The same for `seek_inner`, where the distance is that of the goal. -/
def SparedInner (K : Seek ρ ε) (content : List UInt8) (pos : ρ → Nat) (b : BufReader ρ) :
    SeekFrom → Prop
  | .current rel => b.buffer = [] ∨ Split b rel.toInt ∧
      ((∃ e, (K.seek b.reader (.current (-Int64.ofNat b.buffer.length))).1 = .error e) ∨
        Agrees content pos b)
  | _ => b.buffer = []

theorem sparedInner_absolute {b : BufReader ρ} {goal : SeekFrom}
    (absolute : ∀ rel, goal ≠ .current rel) : SparedInner K content pos b goal ↔ b.buffer = [] := by
  cases goal with
  | current rel => exact absurd rfl (absolute rel)
  | start | end_ => exact Iff.rfl

@[simp] theorem buffer_discard (b : BufReader ρ) : b.discard.buffer = [] := by
  simp [discard,buffer]

theorem seekReader_failed {b next : BufReader ρ} {goal : SeekFrom} {f : Fault ε}
    (stays : K.Stays content pos) (ran : seekReader K.traced b goal = some (.error f,next)) :
    next.buffer = [] ∧ pos next.reader = pos b.reader := by
  rw [seekReader,K.traced_seek] at ran
  rcases called : K.seek b.reader goal with ⟨e | q,r⟩
  · rw [called] at ran
    obtain ⟨_,rfl⟩ := Prod.mk.inj (Option.some.inj ran)
    exact ⟨buffer_discard _,stays.failed called⟩
  · rw [called] at ran
    exact absurd (Prod.mk.inj (Option.some.inj ran)).1 nofun

theorem seekInner_failed {b next : BufReader ρ} {goal : SeekFrom} {f : Fault ε}
    (stays : K.Stays content pos) (valid : b.Valid)
    (ran : seekInner K.traced b goal = some (.error f,next)) :
    Unmoved content pos b next ↔ SparedInner K content pos b goal := by
  have few : b.buffer.length < 2 ^ 63 := by
    have length := valid.length_buffer
    have bound := valid.bound
    have small := valid.small
    rw [isizeMax] at small
    omega
  have remainder : (Int64.ofNat b.buffer.length).toInt = b.buffer.length :=
    Int64.toInt_ofNat_of_lt few
  cases goal with
  | start | end_ =>
    obtain ⟨buffer,same⟩ := seekReader_failed stays ran
    exact (Failed.lost buffer same).unmoved_iff
  | current rel =>
    have lower := rel.le_toInt
    have upper := rel.toInt_lt
    simp only [seekInner] at ran
    split at ran
    · rename_i p checked
      have value := toInt_of_checkedI64 checked
      have lower' := p.le_toInt
      obtain ⟨buffer,same⟩ := seekReader_failed stays ran
      rw [(Failed.lost buffer same).unmoved_iff,SparedInner]
      refine ⟨.inl,fun spared => spared.resolve_right ?_⟩
      rintro ⟨⟨_,below⟩,_⟩
      omega
    · rename_i overflow
      rw [checkedI64,ite_eq_right_iff] at overflow
      have beyond := mt overflow (by simp)
      have split_ : Split b rel.toInt := ⟨lower,by omega⟩
      have some_ : b.buffer ≠ [] := by
        intro empty
        have none := congrArg List.length empty
        rw [List.length_nil] at none
        omega
      rw [K.traced_seek] at ran
      rcases called : K.seek b.reader (.current (-Int64.ofNat b.buffer.length)) with ⟨e | q,r⟩
      · rw [called] at ran
        obtain ⟨_,rfl⟩ := Prod.mk.inj (Option.some.inj ran)
        have kept : Failed content pos b True { b with reader := r } := .kept rfl (stays.failed called)
        apply kept.unmoved_iff.trans
        exact iff_of_true trivial (.inr ⟨split_,.inl ⟨e,congrArg Prod.fst called⟩⟩)
      · rw [called] at ran
        obtain ⟨target,moved⟩ := stays.seek called
        have negated := Int64.toInt_neg_ofNat_of_le (n := b.buffer.length) (by omega)
        simp only [Except.mapError] at ran
        obtain ⟨buffer,same⟩ := seekReader_failed stays ran
        simp only [SeekFrom.target] at target same
        rw [(Failed.returned buffer (by omega)).unmoved_iff,SparedInner]
        constructor
        · exact fun agrees => .inr ⟨split_,.inr agrees⟩
        · rintro (empty | ⟨_,⟨e,failed⟩ | agrees⟩)
          · exact absurd empty some_
          · rw [called] at failed
            contradiction
          · exact agrees

theorem streamPosition_failed {b next : BufReader ρ} {e : ε}
    (ran : streamPosition K.traced b = some (.error (.seek e),next)) : False := by
  rw [streamPosition,K.traced_streamPosition] at ran
  rcases called : K.streamPosition b.reader with ⟨e' | q,r⟩
  · simp [called,Except.mapError] at ran
  · simp only [called,Except.mapError] at ran
    obtain ⟨_,_,eq⟩ := Option.map_eq_some_iff.mp ran
    simp at eq

theorem seekRelative_failed {b next : BufReader ρ} {rel : Int64} {e : ε}
    (stays : K.Stays content pos) (valid : b.Valid)
    (ran : seekRelative K.traced b rel = some (.error (.seek e),next)) :
    Unmoved content pos b next ↔ SparedInner K content pos b (.current rel) := by
  rw [seekRelative] at ran
  split at ran
  · exact seekInner_failed stays valid ran
  · split at ran
    · exact seekInner_failed stays valid ran
    · exact (streamPosition_failed ran).elim

/-- An answer of the reader that leaves it where it is. -/
theorem unmoved_reader {b next : BufReader ρ} {r : ρ} (same : pos r = pos b.reader) :
    Unmoved content pos { b with reader := r } next ↔ Unmoved content pos b next := by
  have buffer : BufReader.buffer { b with reader := r } = b.buffer := rfl
  simp only [Unmoved,place,ahead,buffer,same]

theorem agrees_reader {b : BufReader ρ} {r : ρ} (same : pos r = pos b.reader) :
    Agrees content pos { b with reader := r } ↔ Agrees content pos b := by
  have buffer : BufReader.buffer { b with reader := r } = b.buffer := rfl
  simp only [Agrees,ahead,buffer,same]

theorem seekAbs_failed {b next : BufReader ρ} {abs : UInt64} {goal : SeekFrom} {e : ε}
    (stays : K.Stays content pos) (valid : b.Valid) (absolute : ∀ rel, goal ≠ .current rel)
    (ran : seekAbs K.traced b abs goal = some (.error (.seek e),next)) :
    Unmoved content pos b next ↔ b.buffer = [] ∨ Split b (abs.toNat - place pos b) ∧
      ((∃ e, (K.seek (K.streamPosition b.reader).2 (.current (-Int64.ofNat b.buffer.length))).1 =
        .error e) ∨ Agrees content pos b) := by
  have length := valid.length_buffer
  have bound := valid.bound
  have small := valid.small
  rw [isizeMax] at small
  rw [seekAbs] at ran
  obtain ⟨⟨result | p,middle⟩,called,ran⟩ := Option.bind_eq_some_iff.mp ran
  · obtain ⟨is,rfl⟩ := Prod.mk.inj (Option.some.inj ran)
    obtain rfl := Except.error.inj is
    exact (streamPosition_failed called).elim
  obtain ⟨rfl,_⟩ := streamPosition_same valid called
  rcases answer : K.streamPosition b.reader with ⟨e' | q,r⟩
  · simp [streamPosition,K.traced_streamPosition,answer,Except.mapError] at called
  obtain ⟨same,is⟩ := stays.position answer
  -- the position that the seek takes for its own
  have here : (p.toNat : Int) = place pos b := by
    simp only [streamPosition,K.traced_streamPosition,answer,Except.mapError] at called
    obtain ⟨d,subtracted,eq⟩ := Option.map_eq_some_iff.mp called
    rw [sub,Option.ite_none_right_eq_some] at subtracted
    obtain ⟨le,d_eq⟩ := subtracted
    have d_is := Option.some.inj d_eq
    have p_is := Except.ok.inj (Prod.mk.inj eq).1
    have few := q.toNat_lt
    have q_is := is q rfl
    have buffer : BufReader.buffer { b with reader := r } = b.buffer := rfl
    rw [buffer] at le d_is
    rw [← p_is,UInt64.toNat_ofNat_of_lt' (by simp only [UInt64.size]; omega),place]
    omega
  simp only [K.traced_streamPosition,answer] at ran
  have valid' : Valid { b with reader := r } := ⟨valid.le,valid.bound,valid.small⟩
  rw [← unmoved_reader same]
  split at ran
  · rename_i rel checked
    have value := toInt_of_checkedSignedDiff checked
    rw [seekRelative_failed stays valid' ran,SparedInner,agrees_reader same,← here,← value]
    rfl
  · rename_i overflow
    have far := far_of_checkedSignedDiff overflow
    rw [seekInner_failed stays valid' ran,sparedInner_absolute absolute]
    refine ⟨.inl,fun spared => spared.resolve_right ?_⟩
    rintro ⟨⟨above,below⟩,_⟩
    omega

theorem seek_failed {b next : BufReader ρ} {goal : SeekFrom} {e : ε}
    (stays : K.Stays content pos) (valid : b.Valid)
    (ran : seek K.traced b goal = some (.error (.seek e),next)) :
    Unmoved content pos b next ↔ Spared K content pos b goal := by
  have absolute (rel : Int64) : (∀ abs, SeekFrom.start abs ≠ .current rel) ∧
      ∀ rel', SeekFrom.end_ rel' ≠ .current rel := ⟨nofun,nofun⟩
  have seeks := seek_seeks ran
  clear ran
  cases seeks with
  | relative ran => exact seekRelative_failed stays valid ran
  | startInner slow ran =>
    have slow' : K.streamPositionFast b.reader = false := slow
    rw [seekInner_failed stays valid ran,sparedInner_absolute fun rel => (absolute rel).1 _]
    simp only [Spared,Splits,slow',Bool.false_eq_true,false_and,or_false]
  | start fast ran =>
    have fast' : K.streamPositionFast b.reader = true := fast
    rw [seekAbs_failed stays valid (fun rel => (absolute rel).1 _) ran]
    simp only [Spared,Splits,asked,fast',true_and]
  | endInner slow ran =>
    have slow' (fast : K.streamPositionFast b.reader = true) : ¬ K.streamLenFast b.reader = true :=
      Bool.eq_false_iff.mp (slow fast)
    rw [seekInner_failed stays valid ran,sparedInner_absolute fun rel => (absolute rel).2 _]
    refine ⟨.inl,fun spared => spared.resolve_right ?_⟩
    rintro ⟨⟨fast,fast',_⟩,_⟩
    exact slow' fast fast'
  | failed asked ran =>
    rcases answer : K.streamLen b.reader with ⟨e' | size,r⟩
    · rw [K.traced_streamLen,answer] at asked
      obtain ⟨is,_⟩ := Prod.mk.inj asked
      obtain ⟨fault,_⟩ := Prod.mk.inj (Option.some.inj ran)
      rw [← is] at fault
      cases fault
    · rw [K.traced_streamLen,answer] at asked
      cases asked
  | end_ fast fast' answered ran =>
    rcases answer : K.streamLen b.reader with ⟨e' | size,r⟩
    · rw [K.traced_streamLen,answer] at answered
      cases answered
    rw [K.traced_streamLen,answer] at answered
    obtain ⟨same_size,rfl⟩ := Prod.mk.inj answered
    obtain rfl := Except.ok.inj same_size
    obtain ⟨same,is⟩ := stays.len answer
    have size_is := is size rfl
    obtain ⟨abs,checked,ran⟩ := Option.bind_eq_some_iff.mp ran
    have value := toNat_of_checkedAddSigned checked
    rw [size_is] at value
    have valid' : Valid { b with reader := r } := ⟨valid.le,valid.bound,valid.small⟩
    have failed := seekAbs_failed stays valid' (fun rel => (absolute rel).2 _) ran
    rw [unmoved_reader same,agrees_reader same,value] at failed
    have both : K.streamPositionFast b.reader = true ∧ K.streamLenFast b.reader = true :=
      ⟨fast,fast'⟩
    rw [failed,Spared,Splits,asked,answer]
    simp only [both.1,both.2,true_and,place,Split,same]
    rfl

end Failing

/-- A run of later calls hands out the bytes that are ahead, from the first on. -/
theorem hands_out {R : Read ρ ε} {content : List UInt8} {pos : ρ → Nat}
    (delivers : R.Delivers fun r => content.drop (pos r)) {b : BufReader ρ} (valid : b.Valid)
    {calls : List Call} {c : Forward ρ}
    (path : Transition.Path (step R) InBounds ⟨b,[]⟩ calls c) :
    c.handed ++ ahead content pos c.buf = ahead content pos b := by
  have transparent : Transparent (fun r => content.drop (pos r)) (ahead content pos b) b.capacity c := by
    apply path.invariant (Transparent _ _ _)
    · intro c call next transparent bounds stepped
      obtain ⟨next',stepped',transparent'⟩ := transparent.step delivers bounds
      obtain rfl := Option.some.inj (stepped.symm.trans stepped')
      exact transparent'
    · exact ⟨valid,rfl,rfl⟩
  rw [ahead,← List.append_assoc]
  exact transparent.stream

/-- A seek that fails because the reader's does leaves the logical position and the bytes of all
later reads as they were if and only if it is spared. -/
theorem seek_atomic {R : Read ρ ε} {K : Seek ρ ε} {content : List UInt8} {pos : ρ → Nat}
    (delivers : R.Delivers fun r => content.drop (pos r)) (stays : K.Stays content pos)
    {b next : BufReader ρ} (reachable : Reachable R K b) {goal : SeekFrom} {e : ε}
    (failed : seek K.traced b goal = some (.error (.seek e),next)) :
    (Unmoved content pos b next ↔ Spared K content pos b goal) ∧
      seek K b goal = some (.error e,next) ∧
      ∀ state ∈ [b,next], ∀ calls c, Transition.Path (step R) InBounds ⟨state,[]⟩ calls c →
        c.handed ++ ahead content pos c.buf = ahead content pos state := by
  have valid := reachable.valid delivers
  have ran : seek K b goal = some (.error e,next) := by
    rw [← seek_traced,failed]
    rfl
  refine ⟨seek_failed stays valid failed,ran,fun state either calls c path => ?_⟩
  rw [List.mem_cons,List.mem_singleton] at either
  rcases either with rfl | rfl
  · exact hands_out delivers valid path
  · exact hands_out delivers (seek_valid valid ran) path

theorem cursor_stays {content : List UInt8} (small : content.length < 2 ^ 64) :
    (Cursor.seeks content).Stays content fun r => r.pos.toNat where
  seek ran := (cursor_seekable small).seek ran
  failed {r r' goal e} ran := by
    simp only [Cursor.seeks] at ran
    split at ran
    · cases (Prod.mk.inj ran).1
    · obtain ⟨_,rfl⟩ := Prod.mk.inj ran
      rfl
  position ran := by
    obtain ⟨rfl,rfl⟩ := Prod.mk.inj ran
    refine ⟨rfl,fun p is => ?_⟩
    obtain rfl := Except.ok.inj is
    rfl
  len ran := by
    obtain ⟨rfl,rfl⟩ := Prod.mk.inj ran
    refine ⟨rfl,fun p is => ?_⟩
    obtain rfl := Except.ok.inj is
    exact UInt64.toNat_ofNat_of_lt' small

/-- Four of six bytes were read into the buffer, and two of them from there. -/
def halfRead : BufReader Cursor := ⟨[0,1,2,3],2,4,⟨4,[]⟩⟩

theorem halfRead_reachable :
    Reachable (Cursor.reads [0,1,2,3,4,5]) (Cursor.seeks [0,1,2,3,4,5]) halfRead := by
  have made : fromParts (⟨0,[3]⟩ : Cursor) ⟨[],4,by decide,by decide⟩ 0 =
      some ⟨[0,0,0,0],0,0,⟨0,[3]⟩⟩ := rfl
  have ran : read (Cursor.reads [0,1,2,3,4,5]) ⟨[0,0,0,0],0,0,⟨0,[3]⟩⟩ [0,0] =
      some (.ok 2,[0,1],halfRead) := rfl
  exact (Reachable.made made).read ran

/-- The smallest offset: the window is taken back, and the seek behind it fails. -/
theorem seek_atomic_halfRead : ∃ next,
    seek (Cursor.seeks [0,1,2,3,4,5]) halfRead (.current Int64.minValue) = some (.error (),next) ∧
      Unmoved [0,1,2,3,4,5] (fun r => r.pos.toNat) halfRead next := by
  obtain ⟨next,failed⟩ : ∃ next,
      seek (Cursor.seeks [0,1,2,3,4,5]).traced halfRead (.current Int64.minValue) =
        some (.error (.seek ()),next) := ⟨_,rfl⟩
  obtain ⟨unmoved,ran,_⟩ := seek_atomic (cursor_delivers (by decide)) (cursor_stays (by decide))
    halfRead_reachable failed
  have splits : Split halfRead Int64.minValue.toInt := by
    constructor
    all_goals decide
  exact ⟨next,ran,unmoved.mpr (.inr ⟨splits,.inr rfl⟩)⟩

/-- A seek before the beginning of the stream fails, and the two bytes of the window are lost. -/
theorem seek_not_always_atomic : ¬ ∀ (b next : BufReader Cursor) (goal : SeekFrom) (e : Unit),
    Reachable (Cursor.reads [0,1,2,3,4,5]) (Cursor.seeks [0,1,2,3,4,5]) b →
    seek (Cursor.seeks [0,1,2,3,4,5]).traced b goal = some (.error (.seek e),next) →
    Unmoved [0,1,2,3,4,5] (fun r => r.pos.toNat) b next := by
  intro always
  obtain ⟨next,failed,lost⟩ : ∃ next,
      seek (Cursor.seeks [0,1,2,3,4,5]).traced halfRead (.current (-7)) =
        some (.error (.seek ()),next) ∧ ahead [0,1,2,3,4,5] (fun r => r.pos.toNat) next = [4,5] :=
    ⟨_,rfl,rfl⟩
  have same := (always halfRead next _ () halfRead_reachable failed).2
  rw [lost] at same
  exact absurd same (by decide)

end BufReader
end XxCore.Io
