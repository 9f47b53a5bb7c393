/-! Sequences that are cut after each delimiter. A stream is a list of elements between which faults
may stand; a scan passes over it up to the first delimiter, the first fault or the end. -/
universe u v

namespace Delimited

variable {α : Type u} {ε : Type v} [DecidableEq α] {d : α}

/-- Where a scan stops. -/
inductive Ending (ε : Type v) where
  | found
  | ended
  | failed (e : ε)

/-- The elements that were passed, the delimiter with them, and what comes after. -/
structure Scan (α : Type u) (ε : Type v) where
  piece : List α
  ending : Ending ε
  rest : List (α ⊕ ε)

def scan (d : α) : List (α ⊕ ε) → Scan α ε
  | [] => ⟨[],.ended,[]⟩
  | .inr e :: s => ⟨[],.failed e,s⟩
  | .inl x :: s =>
    if x = d then ⟨[x],.found,s⟩
    else
      let next := scan d s
      ⟨x :: next.piece,next.ending,next.rest⟩

/-- The pieces of a list without faults. -/
def pieces (d : α) : List α → List (List α)
  | [] => []
  | x :: s =>
    if x = d then [x] :: pieces d s
    else match pieces d s with
      | [] => [[x]]
      | piece :: rest => (x :: piece) :: rest

/-- The shortest front part of `s` that ends with the delimiter, or `s` itself if there is none. -/
structure IsPiece (d : α) (s piece rest : List α) : Prop where
  split : s = piece ++ rest
  shortest : (∃ before, piece = before ++ [d] ∧ d ∉ before) ∨ d ∉ s ∧ rest = []

/-- A list that is cut after each delimiter. -/
inductive IsCut (d : α) : List α → List (List α) → Prop where
  | nil : IsCut d [] []
  | last {s : List α} (some : s ≠ []) (none : d ∉ s) : IsCut d s [s]
  | cons {before s : List α} {rest : List (List α)} (none : d ∉ before) (cut : IsCut d s rest) :
      IsCut d (before ++ [d] ++ s) ((before ++ [d]) :: rest)

/-- A scan goes through elements among which there is no delimiter. -/
theorem scan_append_of_not_mem {xs : List α} (none : d ∉ xs) (s : List (α ⊕ ε)) :
    scan d (xs.map .inl ++ s) = ⟨xs ++ (scan d s).piece,(scan d s).ending,(scan d s).rest⟩ := by
  induction xs with
  | nil => rfl
  | cons x xs ih =>
    have ne := List.ne_of_not_mem_cons none
    have none := List.not_mem_of_not_mem_cons none
    rw [List.map_cons,List.cons_append,scan,if_neg (Ne.symm ne),ih none]
    rfl

/-- A scan stops behind the first delimiter. -/
theorem scan_append_of_idxOf {xs : List α} {i : Nat} (first : xs.idxOf? d = some i)
    (s : List (α ⊕ ε)) :
    scan d (xs.map .inl ++ s) =
      ⟨xs.take (i + 1),.found,(xs.drop (i + 1)).map .inl ++ s⟩ ∧ i < xs.length := by
  induction xs generalizing i with
  | nil => simp at first
  | cons x xs ih =>
    rw [List.idxOf?_cons] at first
    by_cases eq : x = d
    · simp only [eq,beq_self_eq_true,if_true,Option.some.injEq] at first
      subst first
      rw [List.map_cons,List.cons_append,scan,if_pos eq]
      exact ⟨rfl,Nat.zero_lt_succ _⟩
    · simp only [beq_iff_eq,eq,if_false,Option.map_eq_some_iff] at first
      obtain ⟨j,first,rfl⟩ := first
      obtain ⟨scanned,lt⟩ := ih first
      rw [List.map_cons,List.cons_append,scan,if_neg eq,scanned]
      exact ⟨rfl,Nat.succ_lt_succ lt⟩

/-- A scan that is stopped by the delimiter has passed it last. -/
theorem scan_found {s : List (α ⊕ ε)} (found : (scan d s).ending = .found) :
    ∃ before, (scan d s).piece = before ++ [d] ∧ d ∉ before := by
  induction s with
  | nil => simp [scan] at found
  | cons x s ih =>
    cases x with
    | inr e => simp [scan] at found
    | inl x =>
      rw [scan] at found ⊢
      split
      next eq => exact ⟨[],by rw [eq]; rfl,List.not_mem_nil⟩
      next ne =>
        rw [if_neg ne] at found
        obtain ⟨before,is,none⟩ := ih found
        refine ⟨x :: before,by simp only [is,List.cons_append],?_⟩
        exact List.not_mem_cons_of_ne_of_not_mem (Ne.symm ne) none

/-- A scan that is not has passed none. -/
theorem scan_not_found {s : List (α ⊕ ε)} (other : (scan d s).ending ≠ .found) :
    d ∉ (scan d s).piece := by
  induction s with
  | nil => exact List.not_mem_nil
  | cons x s ih =>
    cases x with
    | inr e => exact List.not_mem_nil
    | inl x =>
      rw [scan] at other ⊢
      split
      next eq =>
        rw [if_pos eq] at other
        contradiction
      next ne =>
        rw [if_neg ne] at other
        exact List.not_mem_cons_of_ne_of_not_mem (Ne.symm ne) (ih other)

/-- A scan of a stream without faults. -/
theorem scan_pieces (s : List α) :
    ∃ rest, (scan d (s.map .inl : List (α ⊕ ε))).rest = rest.map .inl ∧
      s = (scan d (s.map .inl : List (α ⊕ ε))).piece ++ rest ∧
      ((scan d (s.map .inl : List (α ⊕ ε))).ending = .found ∨
        (scan d (s.map .inl : List (α ⊕ ε))).ending = .ended ∧ rest = []) ∧
      (s ≠ [] → pieces d s = (scan d (s.map .inl : List (α ⊕ ε))).piece :: pieces d rest) := by
  induction s with
  | nil => exact ⟨[],rfl,rfl,.inr ⟨rfl,rfl⟩,fun some => absurd rfl some⟩
  | cons x s ih =>
    rw [List.map_cons,scan]
    split
    next eq => exact ⟨s,rfl,rfl,.inl rfl,fun _ => by rw [pieces,if_pos eq]⟩
    next ne =>
      obtain ⟨rest,left,split,ending,cut⟩ := ih
      refine ⟨rest,left,by rw [List.cons_append,← split],ending,fun _ => ?_⟩
      rw [pieces,if_neg ne]
      by_cases empty : s = []
      · subst empty
        rcases List.append_eq_nil_iff.mp split.symm with ⟨_,rfl⟩
        rfl
      · rw [cut empty]

theorem scan_isPiece {s rest : List α}
    (left : (scan d (s.map .inl : List (α ⊕ ε))).rest = rest.map .inl) :
    IsPiece d s (scan d (s.map .inl : List (α ⊕ ε))).piece rest := by
  obtain ⟨rest',left',split,ending,_⟩ := scan_pieces (ε := ε) (d := d) s
  obtain rfl : rest = rest' :=
    List.map_inj_right (fun _ _ => Sum.inl.inj) |>.mp (left.symm.trans left')
  refine ⟨split,?_⟩
  rcases ending with found | ⟨ended,rfl⟩
  · exact .inl (scan_found found)
  · refine .inr ⟨?_,rfl⟩
    rw [split,List.append_nil]
    apply scan_not_found
    rw [ended]
    exact nofun

theorem pieces_isCut (s : List α) : IsCut d s (pieces d s) := by
  generalize size : s.length = n
  induction n using Nat.strongRecOn generalizing s with
  | ind n ih =>
    by_cases empty : s = []
    · subst empty
      exact .nil
    · obtain ⟨rest,left,split,ending,cut⟩ := scan_pieces (ε := Empty) (d := d) s
      rw [cut empty]
      rcases ending with found | ⟨ended,rfl⟩
      · obtain ⟨before,is,none⟩ := scan_found found
        rw [is] at split ⊢
        have shorter : rest.length < n := by
          rw [← size,split]
          simp only [List.length_append,List.length_cons]
          omega
        have next := IsCut.cons none (ih rest.length shorter rest rfl)
        rw [← split] at next
        exact next
      · rw [List.append_nil] at split
        rw [← split]
        apply IsCut.last empty
        rw [split]
        apply scan_not_found
        rw [ended]
        exact nofun

end Delimited
