/-! Lists as slices of a fixed length: the range of a slice, and a slice in which a range was
overwritten. An access that is out of range gives `none`. -/
universe u

variable {α : Type u}

namespace Slice

def range (l : List α) (lo hi : Nat) : Option (List α) :=
  if lo ≤ hi ∧ hi ≤ l.length then some ((l.take hi).drop lo) else none

/-- `l` with `new` from position `lo` on. -/
def splice (l : List α) (lo : Nat) (new : List α) : List α :=
  l.take lo ++ new ++ l.drop (lo + new.length)

def copyWithin (l : List α) (lo hi dest : Nat) : Option (List α) :=
  (range l lo hi).bind fun copied =>
    if dest + copied.length ≤ l.length then some (splice l dest copied) else none

theorem length_splice {l new : List α} {lo : Nat} (fits : lo + new.length ≤ l.length) :
    (splice l lo new).length = l.length := by
  simp only [splice,List.length_append,List.length_take,List.length_drop]
  omega

/-- What lies before the new elements stays. -/
theorem take_splice {l new : List α} {lo n : Nat} (le : n ≤ lo) (fits : lo ≤ l.length) :
    (splice l lo new).take n = l.take n := by
  rw [splice,List.append_assoc,List.take_append_of_le_length (by rw [List.length_take]; omega),
    List.take_take,Nat.min_eq_left le]

theorem take_splice_add {l new : List α} {lo n : Nat} (le : n ≤ new.length) (fits : lo ≤ l.length) :
    (splice l lo new).take (lo + n) = l.take lo ++ new.take n := by
  have length : (l.take lo).length = lo := List.length_take_of_le fits
  rw [splice,List.append_assoc,List.take_append,length,Nat.add_sub_cancel_left,List.take_take,
    Nat.min_eq_right (Nat.le_add_right lo n),List.take_append_of_le_length le]

/-- The front of a slice that was overwritten from its beginning. -/
theorem take_splice_zero {l new : List α} {n : Nat} (le : n ≤ new.length) :
    (splice l 0 new).take n = new.take n := by
  simpa using take_splice_add le (Nat.zero_le l.length)

/-- A window that is extended at its end. -/
theorem drop_take_splice_add {l new : List α} {start stop n : Nat} (le : start ≤ stop)
    (few : n ≤ new.length) (fits : stop ≤ l.length) :
    ((splice l stop new).take (stop + n)).drop start = (l.take stop).drop start ++ new.take n := by
  rw [take_splice_add few fits,List.drop_append_of_le_length (by rw [List.length_take]; omega)]

theorem splice_take {l : List α} {n : Nat} (le : n ≤ l.length) : splice l 0 (l.take n) = l := by
  rw [splice,List.take_zero,List.nil_append,Nat.zero_add,List.length_take_of_le le,
    List.take_append_drop]

end Slice
