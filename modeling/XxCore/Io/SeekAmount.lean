import XxCore.Io.RawStream

/-! Seeks by an amount (`async_std/io/seek.rs`): `rewind_amount` and `skip_amount`, which cut an
amount that is no `i64` into relative seeks. Each gives `none` where the code panics. The step of
`skip_amount` is the larger of what is left and `i64::MAX`, which turns negative as an `i64`. -/
namespace XxCore.Io

variable {ρ ε : Type}

/-- `i64::try_from`. -/
def tryI64 (x : UInt64) : Option Int64 := if x.toNat < 2 ^ 63 then some x.toInt64 else none

/-- Negation, which overflows for `i64::MIN`. -/
def negI64 (x : Int64) : Option Int64 := checkedI64 (-x.toInt)

namespace Seek

/-- `rewind_amount`. -/
def rewindAmount (K : Seek ρ ε) (r : ρ) (amount : UInt64) : Option (Except ε UInt64 × ρ) :=
  match tryI64 amount with
  | some amount => (negI64 amount).map fun rel => K.seek r (.current rel)
  | none =>
    match K.seek r (.current Int64.minValue) with
    | (.error e,r) => some (.error e,r)
    | (.ok _,r) =>
      -- `wrapping_add_unsigned`
      (negI64 (Int64.minValue + amount.toInt64)).map fun remaining => K.seek r (.current remaining)

theorem toNat_max (x y : UInt64) : (max x y).toNat = max x.toNat y.toNat := by
  change (if x ≤ y then y else x).toNat = _
  split
  next le =>
    have := UInt64.le_iff_toNat_le.mp le
    omega
  next gt =>
    have := mt UInt64.le_iff_toNat_le.mpr gt
    omega

/-- The loop of `skip_amount`. -/
def skipLoop (K : Seek ρ ε) (r : ρ) (left : UInt64) : Option (Except ε UInt64 × ρ) :=
  let amount := (max left Int64.maxValue.toUInt64).toInt64
  match K.seek r (.current amount) with
  | (.error e,r) => some (.error e,r)
  | (.ok result,r) =>
    if amount.toUInt64 ≤ left then
      let left := left - amount.toUInt64
      if left = 0 then some (.ok result,r) else skipLoop K r left
    else none
termination_by left.toNat
decreasing_by
  rename_i le _
  simp only [amount,UInt64.toUInt64_toInt64] at le ⊢
  rw [UInt64.toNat_sub_of_le _ _ le,toNat_max]
  have := UInt64.le_iff_toNat_le.mp le
  have max_ : Int64.maxValue.toUInt64.toNat = 2 ^ 63 - 1 := rfl
  rw [toNat_max] at this
  omega

/-- `skip_amount`. -/
def skipAmount (K : Seek ρ ε) (r : ρ) (amount : UInt64) : Option (Except ε UInt64 × ρ) :=
  match tryI64 amount with
  | some amount => some (K.seek r (.current amount))
  | none => skipLoop K r amount

/-- The stream takes every relative seek that ends at a position, and no other; `visited` are the
positions that it has gone to. -/
structure Relocates (K : Seek ρ ε) (pos : ρ → UInt64) (visited : ρ → List UInt64) : Prop where
  ok : ∀ {r r' rel p}, K.seek r (.current rel) = (.ok p,r') →
    (p.toNat : Int) = (pos r).toNat + rel.toInt ∧ pos r' = p ∧ visited r' = visited r ++ [p]
  able : ∀ r rel, 0 ≤ ((pos r).toNat : Int) + rel.toInt →
    ((pos r).toNat : Int) + rel.toInt < 2 ^ 64 → ∃ p r', K.seek r (.current rel) = (.ok p,r')

/-- A call has ended at `target`, returned it, and left the interval up to it on no step. -/
def Reaches (pos : ρ → UInt64) (visited : ρ → List UInt64) (r : ρ) (target : Nat)
    (outcome : Option (Except ε UInt64 × ρ)) : Prop :=
  ∃ p r' way, outcome = some (.ok p,r') ∧ p.toNat = target ∧ pos r' = p ∧
    visited r' = visited r ++ way ∧ ∀ q ∈ way,
      min (pos r).toNat target ≤ q.toNat ∧ q.toNat ≤ max (pos r).toNat target

/-- What the two functions are for. -/
structure SeeksByAmount (K : Seek ρ ε) (pos : ρ → UInt64) (visited : ρ → List UInt64) (r : ρ)
    (amount : UInt64) : Prop where
  rewind : amount.toNat ≤ (pos r).toNat →
    Reaches pos visited r ((pos r).toNat - amount.toNat) (rewindAmount K r amount)
  skip : (pos r).toNat + amount.toNat < 2 ^ 64 →
    Reaches pos visited r ((pos r).toNat + amount.toNat) (skipAmount K r amount)

theorem toInt_toInt64 (x : UInt64) :
    x.toInt64.toInt = if x.toNat < 2 ^ 63 then (x.toNat : Int) else x.toNat - 2 ^ 64 := by
  have value : x.toInt64.toInt = (x.toNat : Int).bmod (2 ^ 64) := BitVec.toInt_eq_toNat_bmod _
  have lt := x.toNat_lt
  rw [value,Int.bmod_def]
  split
  all_goals
    split
    all_goals omega

theorem tryI64_eq_some {x : UInt64} {y : Int64} (small : tryI64 x = some y) :
    x.toNat < 2 ^ 63 ∧ y = x.toInt64 := by
  rw [tryI64,Option.ite_none_right_eq_some] at small
  exact ⟨small.1,(Option.some.inj small.2).symm⟩

theorem tryI64_eq_none {x : UInt64} (large : tryI64 x = none) : 2 ^ 63 ≤ x.toNat := by
  rw [tryI64,ite_eq_right_iff] at large
  exact Nat.le_of_not_lt fun small => absurd (large small) nofun

theorem negI64_eq {x : Int64} {y : Int} (is : y = -x.toInt) (low : -2 ^ 63 ≤ y) (high : y < 2 ^ 63) :
    ∃ z, negI64 x = some z ∧ z.toInt = y := by
  subst is
  exact ⟨_,if_pos ⟨low,high⟩,Int64.toInt_ofInt_of_le low high⟩

/-- The first round of the loop is the last: all that is left is cast and taken off. -/
theorem skipLoop_eq (K : Seek ρ ε) (r : ρ) {left : UInt64} (large : 2 ^ 63 ≤ left.toNat) :
    skipLoop K r left = some (K.seek r (.current left.toInt64)) := by
  have max_ : Int64.maxValue.toUInt64.toNat = 2 ^ 63 - 1 := rfl
  have larger : max left Int64.maxValue.toUInt64 = left :=
    UInt64.toNat_inj.mp (by rw [toNat_max]; omega)
  rw [skipLoop]
  simp only [larger,UInt64.toUInt64_toInt64]
  rcases K.seek r (.current left.toInt64) with ⟨e | p,r'⟩
  · rfl
  · simp only [UInt64.le_refl,if_true,UInt64.sub_self]

/-- `skip_amount` is one seek, by the amount cast to an `i64`. -/
theorem skipAmount_eq (K : Seek ρ ε) (r : ρ) (amount : UInt64) :
    skipAmount K r amount = some (K.seek r (.current amount.toInt64)) := by
  rw [skipAmount]
  split
  next small => rw [(tryI64_eq_some small).2]
  next large => exact skipLoop_eq K r (tryI64_eq_none large)

section Relocates

variable {K : Seek ρ ε} {pos : ρ → UInt64} {visited : ρ → List UInt64}

/-- One relative seek that ends at a position. -/
theorem Relocates.reaches (relocates : Relocates K pos visited) {r : ρ} {rel : Int64} {target : Nat}
    (is : (target : Int) = (pos r).toNat + rel.toInt) (fits : target < 2 ^ 64) :
    Reaches pos visited r target (some (K.seek r (.current rel))) := by
  obtain ⟨p,r',ran⟩ := relocates.able r rel (by omega) (by omega)
  obtain ⟨at_,moved,went⟩ := relocates.ok ran
  refine ⟨p,r',[p],congrArg some ran,by omega,moved,went,fun q mem => ?_⟩
  obtain rfl := List.mem_singleton.mp mem
  omega

/-- Two of them, the first of which ends on the way. -/
theorem Reaches.trans {r middle : ρ} {half target : Nat} {p : UInt64}
    {outcome : Option (Except ε UInt64 × ρ)}
    (first : Reaches pos visited r half (some (.ok p,middle) : Option (Except ε UInt64 × ρ)))
    (second : Reaches pos visited middle target outcome)
    (low : min (pos r).toNat target ≤ half) (high : half ≤ max (pos r).toNat target) :
    Reaches pos visited r target outcome := by
  obtain ⟨p',middle',way,same,at_,moved,went,inside⟩ := first
  obtain ⟨is,rfl⟩ := Prod.mk.inj (Option.some.inj same)
  obtain rfl := Except.ok.inj is
  obtain ⟨q,r',way',ran,at_',moved',went',inside'⟩ := second
  rw [moved,at_] at inside'
  refine ⟨q,r',way ++ way',ran,at_',moved',by rw [went',went,List.append_assoc],fun x mem => ?_⟩
  rcases List.mem_append.mp mem with mem | mem
  · have := inside x mem
    omega
  · have := inside' x mem
    omega

theorem rewindAmount_reaches (relocates : Relocates K pos visited) {r : ρ} {amount : UInt64}
    (le : amount.toNat ≤ (pos r).toNat) :
    Reaches pos visited r ((pos r).toNat - amount.toNat) (rewindAmount K r amount) := by
  have here := (pos r).toNat_lt
  have value := toInt_toInt64 amount
  rw [rewindAmount]
  split
  next y small =>
    obtain ⟨lt,rfl⟩ := tryI64_eq_some small
    rw [if_pos lt] at value
    obtain ⟨rel,neg,is⟩ := negI64_eq (x := amount.toInt64) (y := -amount.toNat) (by rw [value])
      (by omega) (by omega)
    rw [neg,Option.map_some]
    exact relocates.reaches (by omega) (by omega)
  next large =>
    have le' := tryI64_eq_none large
    rw [if_neg (Nat.not_lt.mpr le')] at value
    have least : Int64.minValue.toInt = -2 ^ 63 := rfl
    -- the first seek goes half of the range back
    have first : Reaches pos visited r ((pos r).toNat - 2 ^ 63)
        (some (K.seek r (.current Int64.minValue))) := relocates.reaches (by omega) (by omega)
    have sum : (Int64.minValue + amount.toInt64).toInt = amount.toNat - 2 ^ 63 := by
      rw [Int64.toInt_add,value,least]
      have lt := amount.toNat_lt
      rw [Int.bmod_def]
      split
      all_goals omega
    obtain ⟨rel,neg,is⟩ := negI64_eq (x := Int64.minValue + amount.toInt64)
      (y := 2 ^ 63 - amount.toNat) (by rw [sum]; omega) (by have := amount.toNat_lt; omega) (by omega)
    have reached := first
    obtain ⟨p,middle,way,ran,at_,moved,_⟩ := reached
    have ran := Option.some.inj ran
    rw [ran] at first ⊢
    simp only [neg,Option.map_some]
    have second : Reaches pos visited middle ((pos r).toNat - amount.toNat)
        (some (K.seek middle (.current rel))) :=
      relocates.reaches (by rw [moved]; omega) (by omega)
    exact first.trans second (by omega) (by omega)

/-- The two functions go where they should for every amount and position, except that
`skip_amount` fails for an amount that is no `i64`. -/
theorem seeksByAmount_iff (relocates : Relocates K pos visited) (r : ρ) (amount : UInt64) :
    SeeksByAmount K pos visited r amount ↔
      (amount.toNat < 2 ^ 63 ∨ 2 ^ 64 ≤ (pos r).toNat + amount.toNat) := by
  have value := toInt_toInt64 amount
  constructor
  · intro seeks
    rcases Nat.lt_or_ge amount.toNat (2 ^ 63) with small | large
    · exact .inl small
    rcases Nat.lt_or_ge ((pos r).toNat + amount.toNat) (2 ^ 64) with fits | beyond
    rotate_left
    · exact .inr beyond
    rw [if_neg (Nat.not_lt.mpr large)] at value
    obtain ⟨p,r',_,ran,at_,_⟩ := seeks.skip fits
    rw [skipAmount_eq] at ran
    -- the seek went backwards
    have went := (relocates.ok (Option.some.inj ran)).1
    omega
  · intro small
    refine ⟨rewindAmount_reaches relocates,fun fits => ?_⟩
    have lt : amount.toNat < 2 ^ 63 := by omega
    rw [if_pos lt] at value
    rw [skipAmount_eq]
    exact relocates.reaches (by omega) fits

end Relocates

/-- A stream that remembers where it was. -/
structure Walk where
  pos : UInt64
  visited : List UInt64

def Walk.seeks : Seek Walk Unit where
  seek w goal :=
    let target := goal.target 0 w.pos.toNat
    if 0 ≤ target ∧ target < 2 ^ 64 then
      (.ok (.ofNat target.toNat),⟨.ofNat target.toNat,w.visited ++ [.ofNat target.toNat]⟩)
    else (.error (),w)
  streamLenFast _ := true
  streamLen w := (.ok 0,w)
  streamPositionFast _ := true
  streamPosition w := (.ok w.pos,w)

theorem walk_relocates : Relocates Walk.seeks Walk.pos Walk.visited where
  ok {r r' rel p} ran := by
    simp only [Walk.seeks] at ran
    split at ran
    next within =>
      obtain ⟨is,rfl⟩ := Prod.mk.inj ran
      obtain rfl := Except.ok.inj is
      refine ⟨?_,rfl,rfl⟩
      rw [UInt64.toNat_ofNat_of_lt' (by simp only [UInt64.size]; omega),Int.toNat_of_nonneg within.1]
      rfl
    next => exact absurd (Prod.mk.inj ran).1 nofun
  able r rel low high := by
    have within : 0 ≤ (SeekFrom.current rel).target 0 r.pos.toNat ∧
        (SeekFrom.current rel).target 0 r.pos.toNat < 2 ^ 64 := ⟨low,high⟩
    exact ⟨_,_,if_pos within⟩

/-- Two steps back from the end of the range. -/
theorem seeksByAmount_walk : 2 ^ 63 + 3 ≤ (2 ^ 64 - 1 : Nat) ∧
    Reaches Walk.pos Walk.visited ⟨.ofNat (2 ^ 64 - 1),[]⟩ (2 ^ 63 - 4)
      (rewindAmount Walk.seeks ⟨.ofNat (2 ^ 64 - 1),[]⟩ (.ofNat (2 ^ 63 + 3))) :=
  ⟨by decide,((seeksByAmount_iff walk_relocates ⟨.ofNat (2 ^ 64 - 1),[]⟩ (.ofNat (2 ^ 63 + 3))).mpr
    (.inr (by decide))).rewind (by decide)⟩

/-- From the beginning of the stream, 2^63 bytes are not skipped. -/
theorem seeks_not_always_byAmount :
    ¬ ∀ (w : Walk) (amount : UInt64), SeeksByAmount Walk.seeks Walk.pos Walk.visited w amount := by
  intro always
  obtain ⟨p,w,_,ran,_⟩ := (always ⟨0,[]⟩ (.ofNat (2 ^ 63))).skip (by decide)
  rw [skipAmount_eq] at ran
  have failed : (Walk.seeks.seek ⟨0,[]⟩ (.current (UInt64.ofNat (2 ^ 63)).toInt64)).1 = .error () := rfl
  rw [Option.some.inj ran] at failed
  contradiction

end Seek
end XxCore.Io
