import Mathlib.Data.List.Basic

/-! Formatting: text that is made in pieces and goes to an output that may fail. -/
universe u v

namespace Format

/-- What is formatted writes pieces of text. How it goes on may depend on whether a piece was
written. -/
inductive Arguments (α : Type u) where
  | done (ok : Bool)
  | write (piece : List α) (next : Bool → Arguments α)

namespace Arguments

variable {α : Type u} {σ : Type v}

/-- The pieces that go to an output that takes everything. -/
def pieces : Arguments α → List (List α)
  | .done _ => []
  | .write piece next => piece :: (next true).pieces

/-- Whether it succeeds on such an output. -/
def ok : Arguments α → Bool
  | .done ok => ok
  | .write _ next => (next true).ok

def text (args : Arguments α) : List α := args.pieces.flatten

/-- An error of the output ends it with an error. -/
def Propagates : Arguments α → Prop
  | .done _ => True
  | .write _ next => next false = .done false ∧ (next true).Propagates

/-- It is formatted with an output, which may panic. -/
def run (out : List α → σ → Option (Bool × σ)) : Arguments α → σ → Option (Bool × σ)
  | .done ok,s => some (ok,s)
  | .write piece next,s => (out piece s).bind fun (ok,s) => (next ok).run out s

end Arguments

variable {α : Type u} {σ : Type v} {out : List α → σ → Option (Bool × σ)} {s t : σ}
  {pieces : List (List α)}

/-- Pieces are written one after the other, up to the first that fails. -/
def writes (out : List α → σ → Option (Bool × σ)) : List (List α) → σ → Option (Bool × σ)
  | [],s => some (true,s)
  | piece :: pieces,s => (out piece s).bind fun (ok,s) =>
    if ok then writes out pieces s else some (false,s)

theorem Arguments.run_eq {args : Arguments α} (propagates : args.Propagates) (s : σ) :
    args.run out s = (writes out args.pieces s).map fun (ok,s) => (ok && args.ok,s) := by
  induction args generalizing s with
  | done ok => simp [run,pieces,writes,Arguments.ok]
  | write piece next ih =>
    obtain ⟨stops,goes⟩ := propagates
    rw [run,pieces,writes,Option.map_bind]
    apply Option.bind_congr
    rintro ⟨ok,s'⟩ _
    cases ok with
    | true => exact ih true goes s'
    | false => exact congrArg (fun args => args.run out s') stops

/-- An output that does not panic. -/
theorem writes_returns (returns : ∀ piece s, ∃ ok t, out piece s = some (ok,t))
    (pieces : List (List α)) (s : σ) : ∃ ok t, writes out pieces s = some (ok,t) := by
  induction pieces generalizing s with
  | nil => exact ⟨true,s,rfl⟩
  | cons piece pieces ih =>
    obtain ⟨ok,s',ran⟩ := returns piece s
    rw [writes,ran,Option.bind_some]
    cases ok with
    | true => exact ih s'
    | false => exact ⟨false,s',rfl⟩

/-- Where it fails, all pieces before that one were written. -/
theorem writes_false (ran : writes out pieces s = some (false,t)) :
    ∃ before piece after middle, pieces = before ++ piece :: after ∧
      writes out before s = some (true,middle) ∧ out piece middle = some (false,t) := by
  induction pieces generalizing s with
  | nil => cases ran
  | cons piece pieces ih =>
    obtain ⟨⟨ok,s'⟩,one,rest⟩ := Option.bind_eq_some_iff.mp ran
    cases ok with
    | true =>
      obtain ⟨before,failed,after,middle,rfl,written,fails⟩ := ih rest
      refine ⟨piece :: before,failed,after,middle,rfl,?_,fails⟩
      rw [writes,one]
      exact written
    | false =>
      obtain rfl := (Prod.mk.inj (Option.some.inj rest)).2
      exact ⟨[],piece,pieces,s,rfl,rfl,one⟩

/-- The invariant rule, for what is kept about an output and the pieces that were written to it. -/
theorem writes_history (inv : List (List α) → σ → Prop)
    (keeps : ∀ past piece s t, inv past s → out piece s = some (true,t) → inv (past ++ [piece]) t)
    (ran : writes out pieces s = some (true,t)) {past : List (List α)} (start : inv past s) :
    inv (past ++ pieces) t := by
  induction pieces generalizing s past with
  | nil =>
    obtain rfl := (Prod.mk.inj (Option.some.inj ran)).2
    rwa [List.append_nil]
  | cons piece pieces ih =>
    obtain ⟨⟨ok,s'⟩,one,rest⟩ := Option.bind_eq_some_iff.mp ran
    cases ok with
    | true =>
      rw [List.append_cons]
      exact ih rest (keeps past piece s s' start one)
    | false => cases rest

end Format
