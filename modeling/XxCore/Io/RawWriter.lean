import XxCore.Io.RawStream
import XxCore.Io.Write
import XxCore.Lib.Medium

/-! A seekable stream that is written without a buffer: what writes and seeks do to its content and
its position, and what is asked of the writer of such a stream. -/
namespace XxCore.Io

variable {ω ε : Type} {σ : Type u}

/-- The writer writes at its position, seeks in its content, and changes neither otherwise. -/
structure SeekableWriter (W : Write ω ε) (K : Seek ω ε) (M : Medium σ UInt8) (content : ω → σ)
    (pos : ω → Nat) : Prop where
  bounded : W.Bounded
  write : ∀ {w w' buf n}, W.write w buf = (.ok n,w') →
    (content w',pos w') = M.advance (content w,pos w) (buf.take n)
  flush : ∀ {w w'}, W.flush w = (.ok (),w') → content w' = content w ∧ pos w' = pos w
  seek : ∀ {w w' goal p}, K.seek w goal = (.ok p,w') →
    goal.target (M.length (content w)) (pos w) = p.toNat ∧ content w' = content w ∧ pos w' = p.toNat
  position : ∀ {w w' p}, K.streamPosition w = (.ok p,w') →
    p.toNat = pos w ∧ content w' = content w ∧ pos w' = pos w
  len : ∀ {w w' p}, K.streamLen w = (.ok p,w') →
    p.toNat = M.length (content w) ∧ content w' = content w ∧ pos w' = pos w

namespace RawWriter

inductive Op where
  | write (buf : List UInt8) (accepted : Nat)
  | seek (goal : SeekFrom)

/-- What a successful operation does to the content and the position. -/
inductive Step (M : Medium σ UInt8) : σ × Nat → Op → σ × Nat → Prop where
  | write (le : n ≤ buf.length) : Step M at_ (.write buf n) (M.advance at_ (buf.take n))
  | seek {goal : SeekFrom} {p : Nat} (target : goal.target (M.length at_.1) at_.2 = p) :
      Step M at_ (.seek goal) (at_.1,p)

abbrev Run (M : Medium σ UInt8) : σ × Nat → List Op → σ × Nat → Prop :=
  Transition.Trace (Step M)

theorem Step.unique {M : Medium σ UInt8} {at_ next next' : σ × Nat} {op : Op}
    (step : Step M at_ op next) (step' : Step M at_ op next') : next = next' := by
  cases step with
  | write le =>
    cases step'
    rfl
  | seek target =>
    cases step' with
    | seek target' => rw [Int.ofNat_inj.mp (target.symm.trans target')]

/-- The operations decide where a run ends. -/
theorem Run.unique {M : Medium σ UInt8} {at_ final final' : σ × Nat} {ops : List Op}
    (run : Run M at_ ops final) (run' : Run M at_ ops final') : final = final' := by
  induction run with
  | nil =>
    cases run'
    rfl
  | cons step _ ih =>
    cases run' with
    | cons step' rest' =>
      obtain rfl := step.unique step'
      exact ih rest'

end RawWriter

/-- A file of bytes, of which each write takes at most `most`. -/
structure File where
  bytes : List UInt8
  pos : UInt64
  most : Nat

/-- A write that would take the position out of its range fails. -/
def File.writes : Write File Unit where
  write w buf :=
    let n := min w.most buf.length
    if w.pos.toNat + n < 2 ^ 64 then
      (.ok n,{ w with
        bytes := Medium.fill 0 w.bytes w.pos.toNat (buf.take n), pos := w.pos + .ofNat n })
    else (.error (),w)
  flush w := (.ok (),w)

/-- The seeks of a file, if their goal is a position. -/
def File.seeks : Seek File Unit where
  seek w goal :=
    let target := goal.target w.bytes.length w.pos.toNat
    if 0 ≤ target ∧ target < 2 ^ 64 then
      (.ok (.ofNat target.toNat),{ w with pos := .ofNat target.toNat })
    else (.error (),w)
  streamLenFast _ := true
  streamLen w := if w.bytes.length < 2 ^ 64 then (.ok (.ofNat w.bytes.length),w) else (.error (),w)
  streamPositionFast _ := true
  streamPosition w := (.ok w.pos,w)

theorem file_seekable : SeekableWriter File.writes File.seeks (Medium.filled 0) File.bytes
    fun w => w.pos.toNat where
  bounded w buf n ran := by
    simp only [File.writes] at ran
    split at ran
    · obtain rfl := Except.ok.inj ran
      exact Nat.min_le_right _ _
    · contradiction
  write {w w' buf n} ran := by
    simp only [File.writes] at ran
    split at ran
    · rename_i fits
      obtain ⟨is,rfl⟩ := Prod.mk.inj ran
      obtain rfl := Except.ok.inj is
      have length : (buf.take (min w.most buf.length)).length = min w.most buf.length :=
        List.length_take_of_le (Nat.min_le_right _ _)
      have moved : (w.pos + .ofNat (min w.most buf.length)).toNat =
          w.pos.toNat + min w.most buf.length := by
        rw [UInt64.toNat_add,UInt64.toNat_ofNat_of_lt' (by simp only [UInt64.size]; omega)]
        exact Nat.mod_eq_of_lt fits
      simp only [Medium.advance,Medium.filled,length,moved]
    · cases (Prod.mk.inj ran).1
  flush ran := by
    obtain ⟨_,rfl⟩ := Prod.mk.inj ran
    exact ⟨rfl,rfl⟩
  seek {w w' goal p} ran := by
    simp only [File.seeks] at ran
    split at ran
    · rename_i within
      obtain ⟨is,rfl⟩ := Prod.mk.inj ran
      obtain rfl := Except.ok.inj is
      have exact_ : (UInt64.ofNat (goal.target w.bytes.length w.pos.toNat).toNat).toNat =
          (goal.target w.bytes.length w.pos.toNat).toNat :=
        UInt64.toNat_ofNat_of_lt' (by simp only [UInt64.size]; omega)
      refine ⟨?_,rfl,rfl⟩
      rw [exact_,Int.toNat_of_nonneg within.1]
      rfl
    · cases (Prod.mk.inj ran).1
  position ran := by
    obtain ⟨is,rfl⟩ := Prod.mk.inj ran
    obtain rfl := Except.ok.inj is
    exact ⟨rfl,rfl,rfl⟩
  len {w w' p} ran := by
    simp only [File.seeks] at ran
    split at ran
    · rename_i small
      obtain ⟨is,rfl⟩ := Prod.mk.inj ran
      obtain rfl := Except.ok.inj is
      exact ⟨UInt64.toNat_ofNat_of_lt' small,rfl,rfl⟩
    · cases (Prod.mk.inj ran).1

end XxCore.Io
