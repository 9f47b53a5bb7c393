/-! Words in which some letters open a level and some close one. A counter below a limit follows the
level; it fails where it would go below zero or reach the limit. -/
universe u

namespace Nesting

inductive Turn where
  | opens
  | closes
  | other
  deriving DecidableEq

variable {α : Type u} (turn : α → Turn)

/-- The level after a word that begins at level `d`. -/
def level (limit d : Nat) : List α → Option Nat
  | [] => some d
  | a :: word =>
    match turn a,d with
    | .opens,d => if d + 1 < limit then level limit (d + 1) word else none
    | .closes,0 => none
    | .closes,d + 1 => level limit d word
    | .other,d => level limit d word

/-- The letters that open less the ones that close. -/
def net : List α → Int
  | [] => 0
  | a :: word =>
    match turn a with
    | .opens => net word + 1
    | .closes => net word - 1
    | .other => net word

/-- A word that comes back to the level where it began and is `n` levels deep. -/
def Nested (n : Nat) (word : List α) : Prop :=
  ∀ limit d, d < limit → level turn limit d word = if d + n < limit then some d else none

variable {turn} {limit d n m : Nat} {word rest : List α} {a : α}

theorem level_opens (opens : turn a = .opens) :
    level turn limit d (a :: word) =
      if d + 1 < limit then level turn limit (d + 1) word else none := by
  simp only [level,opens]

theorem level_closes (closes : turn a = .closes) :
    level turn limit (d + 1) (a :: word) = level turn limit d word := by
  simp only [level,closes]

theorem level_closes_zero (closes : turn a = .closes) :
    level turn limit 0 (a :: word) = none := by
  simp only [level,closes]

theorem level_other (other : turn a = .other) :
    level turn limit d (a :: word) = level turn limit d word := by
  simp only [level,other]

theorem level_append (word rest : List α) :
    level turn limit d (word ++ rest) =
      (level turn limit d word).bind fun e => level turn limit e rest := by
  induction word generalizing d with
  | nil => rfl
  | cons a word ih =>
    rw [List.cons_append]
    cases which : turn a with
    | opens =>
      rw [level_opens which,level_opens which]
      split
      · exact ih
      · rfl
    | closes =>
      cases d with
      | zero => rw [level_closes_zero which,level_closes_zero which,Option.bind_none]
      | succ d => rw [level_closes which,level_closes which,ih]
    | other => rw [level_other which,level_other which,ih]

theorem net_append (word rest : List α) : net turn (word ++ rest) = net turn word + net turn rest := by
  induction word with
  | nil => exact (Int.zero_add _).symm
  | cons a word ih =>
    rw [List.cons_append,net,net,ih]
    split
    all_goals omega

/-- A level that is reached is the one that the letters add up to. -/
theorem level_net {e : Nat} (reached : level turn limit d word = some e) :
    (e : Int) = d + net turn word := by
  induction word generalizing d with
  | nil =>
    obtain rfl := Option.some.inj reached
    exact (Int.add_zero _).symm
  | cons a word ih =>
    cases which : turn a with
    | opens =>
      rw [level_opens which,Option.ite_none_right_eq_some] at reached
      have sum := ih reached.2
      rw [net,which]
      simp only at *
      omega
    | closes =>
      cases d with
      | zero =>
        rw [level_closes_zero which] at reached
        contradiction
      | succ d =>
        rw [level_closes which] at reached
        have sum := ih reached
        rw [net,which]
        simp only at *
        omega
    | other =>
      rw [level_other which] at reached
      rw [net,which]
      exact ih reached

theorem nested_of_other (others : ∀ a ∈ word, turn a = .other) : Nested turn 0 word := by
  intro limit d lt
  rw [Nat.add_zero,if_pos lt]
  induction word with
  | nil => rfl
  | cons a word ih =>
    rw [level_other (others a List.mem_cons_self)]
    exact ih fun b has => others b (List.mem_cons_of_mem a has)

theorem Nested.append (first : Nested turn n word) (second : Nested turn m rest) :
    Nested turn (max n m) (word ++ rest) := by
  intro limit d lt
  rw [level_append,first limit d lt]
  by_cases low : d + n < limit
  · rw [if_pos low,Option.bind_some,second limit d lt]
    congr 1
    exact propext (by omega)
  · rw [if_neg low,Option.bind_none,if_neg (by omega)]

theorem Nested.cons_other (nested : Nested turn n word) (other : turn a = .other) :
    Nested turn n (a :: word) := by
  intro limit d lt
  rw [level_other other]
  exact nested limit d lt

/-- A pair of brackets around a word. -/
theorem Nested.wrap {b : α} (nested : Nested turn n word) (opens : turn a = .opens)
    (closes : turn b = .closes) : Nested turn (n + 1) (a :: (word ++ [b])) := by
  intro limit d lt
  rw [level_opens opens]
  by_cases room : d + 1 < limit
  · rw [if_pos room,level_append,nested limit (d + 1) room]
    by_cases low : d + 1 + n < limit
    · rw [if_pos low,Option.bind_some,level_closes closes,if_pos (by omega)]
      rfl
    · rw [if_neg low,Option.bind_none,if_neg (by omega)]
  · rw [if_neg room,if_neg (by omega)]

theorem Nested.net (nested : Nested turn n word) : net turn word = 0 := by
  have reached := nested (n + 1) 0 (Nat.succ_pos n)
  rw [if_pos (by omega)] at reached
  have sum := level_net reached
  omega

end Nesting
