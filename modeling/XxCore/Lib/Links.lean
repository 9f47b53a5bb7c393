import Mathlib.Data.List.Chain
import Mathlib.Data.List.Nodup

/-! Doubly linked cells in one shared heap. A ring is a closed chain of cells; every operation on
rings is a composition of `link`, which joins the end of one chain to the start of another. -/
namespace Links

variable {α : Type u}

/-- The two pointers of a cell; null is `none`. -/
@[ext] structure Cell (α : Type u) where
  prev : Option α := none
  next : Option α := none
deriving DecidableEq, Repr

/-- All cells by their address. -/
@[ext] structure Heap (α : Type u) where
  cells : α → Cell α

instance : CoeFun (Heap α) fun _ => α → Cell α := ⟨Heap.cells⟩

/-- All cells are null. -/
def Heap.null : Heap α := ⟨fun _ => {}⟩

def Heap.set [DecidableEq α] (h : Heap α) (a : α) (cell : Cell α) : Heap α :=
  ⟨Function.update h.cells a cell⟩

/-- The two cells point at each other. -/
def Linked (h : Heap α) (a b : α) : Prop := (h a).next = some b ∧ (h b).prev = some a

/-- From the base through the members and back to the base. -/
def Ring (h : Heap α) (base : α) (members : List α) : Prop :=
  (base :: members ++ [base]).IsChain (Linked h)

variable [DecidableEq α]

def setPrev (h : Heap α) (a : α) (v : Option α) : Heap α := h.set a { h a with prev := v }

def setNext (h : Heap α) (a : α) (v : Option α) : Heap α := h.set a { h a with next := v }

/-- Both pointers of `a` are null. -/
def clear (h : Heap α) (a : α) : Heap α := h.set a {}

/-- `b` follows `a`. -/
def link (h : Heap α) (a b : α) : Heap α := setPrev (setNext h a (some b)) b (some a)

omit [DecidableEq α] in
@[simp] theorem null_apply (x : α) : (Heap.null : Heap α) x = {} := rfl

@[simp] theorem set_self (h : Heap α) (a : α) (cell : Cell α) : h.set a cell a = cell :=
  Function.update_self ..

theorem set_of_ne {h : Heap α} {a x : α} (cell : Cell α) (other : x ≠ a) :
    h.set a cell x = h x := Function.update_of_ne other ..

@[simp] theorem set_eq_self (h : Heap α) (a : α) : h.set a (h a) = h := by
  simp [Heap.set]

@[simp] theorem setPrev_prev (h : Heap α) (a x : α) (v : Option α) :
    (setPrev h a v x).prev = if x = a then v else (h x).prev := by
  by_cases same : x = a <;> simp [setPrev,set_of_ne,same]

@[simp] theorem setPrev_next (h : Heap α) (a x : α) (v : Option α) :
    (setPrev h a v x).next = (h x).next := by
  by_cases same : x = a <;> simp [setPrev,set_of_ne,same]

@[simp] theorem setNext_next (h : Heap α) (a x : α) (v : Option α) :
    (setNext h a v x).next = if x = a then v else (h x).next := by
  by_cases same : x = a <;> simp [setNext,set_of_ne,same]

@[simp] theorem setNext_prev (h : Heap α) (a x : α) (v : Option α) :
    (setNext h a v x).prev = (h x).prev := by
  by_cases same : x = a <;> simp [setNext,set_of_ne,same]

theorem clear_self (h : Heap α) (a : α) : clear h a a = {} := by
  simp [clear]

theorem clear_other {h : Heap α} {a x : α} (other : x ≠ a) : clear h a x = h x :=
  set_of_ne _ other

theorem link_prev (h : Heap α) (a b x : α) :
    (link h a b x).prev = if x = b then some a else (h x).prev := by
  simp [link]

theorem link_next (h : Heap α) (a b x : α) :
    (link h a b x).next = if x = a then some b else (h x).next := by
  simp [link]

/-- A cell that is neither end of the new link keeps its pointers. -/
theorem link_other {h : Heap α} {a b x : α} (notA : x ≠ a) (notB : x ≠ b) : link h a b x = h x := by
  ext1
  · simp [link_prev,notB]
  · simp [link_next,notA]

theorem heap_ext {h k : Heap α} (prevs : ∀ x, (h x).prev = (k x).prev)
    (nexts : ∀ x, (h x).next = (k x).next) : h = k := by
  apply Heap.ext
  funext x
  exact Cell.ext (prevs x) (nexts x)

theorem linked_link (h : Heap α) (a b : α) : Linked (link h a b) a b := by
  simp [Linked,link_next,link_prev]

/-- A chain is kept by a new link that starts at none of its cells but the last and ends at none
but the first. -/
theorem chain_link {h : Heap α} {a b : α} {l : List α} (chain : l.IsChain (Linked h))
    (starts : a ∉ l.dropLast) (ends : b ∉ l.tail) : l.IsChain (Linked (link h a b)) := by
  induction l with
  | nil => exact .nil
  | cons x rest ih =>
    cases rest with
    | nil => exact .singleton x
    | cons y rest =>
      simp only [List.isChain_cons_cons] at chain ⊢
      simp only [List.dropLast_cons_cons,List.mem_cons,not_or] at starts
      simp only [List.tail_cons,List.mem_cons,not_or] at ends
      obtain ⟨first,others⟩ := chain
      constructor
      · simpa [Linked,link_next,link_prev,Ne.symm starts.1,Ne.symm ends.1] using first
      · exact ih others starts.2 (by simpa using ends.2)

theorem chain_clear {h : Heap α} {a : α} {l : List α} (chain : l.IsChain (Linked h))
    (away : a ∉ l) : l.IsChain (Linked (clear h a)) := by
  induction l with
  | nil => exact .nil
  | cons x rest ih =>
    cases rest with
    | nil => exact .singleton x
    | cons y rest =>
      simp only [List.isChain_cons_cons] at chain ⊢
      simp only [List.mem_cons,not_or] at away
      obtain ⟨first,others⟩ := chain
      constructor
      · simpa [Linked,clear_other (Ne.symm away.1),clear_other (Ne.symm away.2.1)] using first
      · exact ih others (by simpa using away.2)

/-- Linking the last cell of one chain to the first of another makes one chain of the two. -/
theorem chain_join {h : Heap α} {a b : α} {l₁ l₂ : List α}
    (left : (l₁ ++ [a]).IsChain (Linked h)) (right : (b :: l₂).IsChain (Linked h))
    (a₁ : a ∉ l₁) (a₂ : a ∉ (b :: l₂).dropLast) (b₁ : b ∉ (l₁ ++ [a]).tail) (b₂ : b ∉ l₂) :
    (l₁ ++ a :: b :: l₂).IsChain (Linked (link h a b)) := by
  apply List.isChain_append_cons_cons.mpr
  refine ⟨?_,linked_link h a b,?_⟩
  · exact chain_link left (by simpa using a₁) b₁
  · exact chain_link right a₂ (by simpa using b₂)

section Rings

variable {h : Heap α} {base n : α} {members front back : List α}

/-- The member before the end of a list, or the base if there is none. -/
def lastOr (base : α) (members : List α) : α := members.getLast?.getD base

/-- The first member, or the base if there is none. -/
def firstOr (base : α) (members : List α) : α := members.head?.getD base

omit [DecidableEq α] in
theorem lastOr_mem : lastOr base members ∈ base :: members := by
  rcases List.eq_nil_or_concat members with rfl | ⟨front,last,rfl⟩ <;> simp [lastOr]

omit [DecidableEq α] in
theorem firstOr_mem : firstOr base members ∈ base :: members := by
  cases members <;> simp [firstOr]

omit [DecidableEq α] in
/-- The base and the members before the last one. -/
theorem lastOr_split (base : α) (members : List α) :
    ∃ before, base :: members = before ++ [lastOr base members] := by
  rcases List.eq_nil_or_concat members with rfl | ⟨front,last,rfl⟩
  · exact ⟨[],rfl⟩
  · exact ⟨base :: front,by simp [lastOr]⟩

omit [DecidableEq α] in
/-- The members after the first one and the base. -/
theorem firstOr_split (base : α) (members : List α) :
    ∃ after, members ++ [base] = firstOr base members :: after := by
  cases members with
  | nil => exact ⟨[],rfl⟩
  | cons first rest => exact ⟨rest ++ [base],rfl⟩

omit [DecidableEq α] in
/-- The base's pointers are the two ends of the ring. -/
theorem Ring.base_next (ring : Ring h base members) :
    (h base).next = some (firstOr base members) := by
  obtain ⟨after,same⟩ := firstOr_split base members
  rw [Ring,List.cons_append,same,List.isChain_cons_cons] at ring
  exact ring.1.1

omit [DecidableEq α] in
theorem Ring.base_prev (ring : Ring h base members) :
    (h base).prev = some (lastOr base members) := by
  obtain ⟨before,same⟩ := lastOr_split base members
  rw [Ring,same,List.append_assoc] at ring
  exact (List.isChain_append_cons_cons.mp ring).2.1.2

omit [DecidableEq α] in
/-- A member is linked to what stands before it and to what stands after it. -/
theorem Ring.around (ring : Ring h base (front ++ n :: back)) :
    Linked h (lastOr base front) n ∧ Linked h n (firstOr base back) := by
  obtain ⟨before,left⟩ := lastOr_split base front
  obtain ⟨after,right⟩ := firstOr_split base back
  have whole : (before ++ lastOr base front :: n :: firstOr base back :: after).IsChain (Linked h) := by
    have flat : base :: (front ++ n :: back) ++ [base] = (base :: front) ++ n :: (back ++ [base]) := by
      simp
    rw [Ring,flat,left,right] at ring
    simpa using ring
  have inner := (List.isChain_append_cons_cons.mp whole).2
  exact ⟨inner.1,(List.isChain_cons_cons.mp inner.2).1⟩

omit [DecidableEq α] in
/-- Every cell of a ring has both pointers, and its neighbours point back at it. -/
theorem Ring.mutual (ring : Ring h base members) (member : n ∈ base :: members) :
    ∃ p q, Linked h p n ∧ Linked h n q := by
  rcases List.mem_cons.mp member with rfl | inner
  · obtain ⟨before,left⟩ := lastOr_split n members
    obtain ⟨after,right⟩ := firstOr_split n members
    have last : Linked h (lastOr n members) n := by
      rw [Ring,left,List.append_assoc] at ring
      exact (List.isChain_append_cons_cons.mp ring).2.1
    have first : Linked h n (firstOr n members) := by
      rw [Ring,List.cons_append,right,List.isChain_cons_cons] at ring
      exact ring.1
    exact ⟨_,_,last,first⟩
  · obtain ⟨front,back,rfl⟩ := List.append_of_mem inner
    exact ⟨_,_,ring.around⟩

/-- Rings that have neither end of a new link keep their order. -/
theorem Ring.frame {a b : α} (ring : Ring h base members) (starts : a ∉ base :: members)
    (ends : b ∉ base :: members) : Ring (link h a b) base members := by
  apply chain_link ring
  · rwa [List.dropLast_concat]
  · simp only [List.cons_append,List.tail_cons,List.mem_append,List.mem_singleton]
    simp only [List.mem_cons,not_or] at ends
    tauto

theorem Ring.frame_clear {a : α} (ring : Ring h base members) (away : a ∉ base :: members) :
    Ring (clear h a) base members := by
  apply chain_clear ring
  simp only [List.mem_cons,not_or] at away
  simp [away]

theorem ring_self (h : Heap α) (base : α) : Ring (link h base base) base [] := by
  simpa [Ring] using linked_link h base base

omit [DecidableEq α] in
theorem lastOr_fresh {before : List α} (distinct : (base :: members).Nodup)
    (split : base :: members = before ++ [lastOr base members]) : lastOr base members ∉ before := by
  intro mem
  rw [split] at distinct
  exact (List.nodup_append.mp distinct).2.2 _ mem _ (by simp) rfl

/-- A new cell between the last member and the base. -/
theorem Ring.insert (ring : Ring h base members) (distinct : (base :: members).Nodup)
    (fresh : n ∉ base :: members) :
    Ring (link (link h (lastOr base members) n) n base) base (members ++ [n]) := by
  obtain ⟨before,split⟩ := lastOr_split base members
  have flat : (before ++ [lastOr base members]).IsChain (Linked h) := by
    rw [← split]
    exact List.IsChain.left_of_append ring
  have reached : (base :: members ++ [n]).IsChain (Linked (link h (lastOr base members) n)) := by
    rw [split,List.append_assoc]
    apply chain_join flat (.singleton n) (lastOr_fresh distinct split) (by simp) _ (by simp)
    intro mem
    rw [split] at fresh
    exact fresh (List.mem_of_mem_tail mem)
  have closed : (base :: members ++ n :: base :: []).IsChain
      (Linked (link (link h (lastOr base members) n) n base)) := by
    apply chain_join reached (.singleton base) fresh (by simp) _ (by simp)
    simp only [List.mem_cons,not_or] at fresh
    simp only [List.cons_append,List.tail_cons,List.mem_append,List.mem_singleton]
    rintro (mem | same)
    · exact (List.nodup_cons.mp distinct).1 mem
    · exact fresh.1 same.symm
  simpa [Ring] using closed

/-- The neighbours of a member that is taken out are linked to each other. -/
theorem Ring.delete (ring : Ring h base (front ++ n :: back))
    (distinct : (base :: (front ++ n :: back)).Nodup) :
    Ring (link (clear h n) (lastOr base front) (firstOr base back)) base (front ++ back) := by
  obtain ⟨before,left⟩ := lastOr_split base front
  obtain ⟨after,right⟩ := firstOr_split base back
  have parts : (base :: front ++ [n]).IsChain (Linked h) ∧ (n :: (back ++ [base])).IsChain (Linked h) := by
    apply List.isChain_split.mp
    simpa [Ring] using ring
  obtain ⟨baseOut,inner⟩ := List.nodup_cons.mp distinct
  obtain ⟨frontDistinct,rest,disjoint⟩ := List.nodup_append.mp inner
  obtain ⟨nOut,backDistinct⟩ := List.nodup_cons.mp rest
  simp only [List.mem_append,List.mem_cons,not_or] at baseOut
  have first : (before ++ [lastOr base front]).IsChain (Linked (clear h n)) := by
    rw [← left]
    apply chain_clear (List.IsChain.left_of_append parts.1)
    grind
  have second : (firstOr base back :: after).IsChain (Linked (clear h n)) := by
    rw [← right]
    apply chain_clear (List.isChain_of_isChain_cons parts.2)
    grind
  have joined : (before ++ lastOr base front :: firstOr base back :: after).IsChain
      (Linked (link (clear h n) (lastOr base front) (firstOr base back))) := by
    have last : lastOr base front ∈ base :: front := lastOr_mem
    have next : firstOr base back ∈ base :: back := firstOr_mem
    apply chain_join first second
    · exact lastOr_fresh (List.nodup_cons.mpr ⟨baseOut.1,frontDistinct⟩) left
    · rw [← right,List.dropLast_concat]
      grind
    · rw [← left,List.tail_cons]
      grind
    · have after : (back ++ [base]).Nodup := by
        apply List.nodup_append.mpr
        simp only [List.mem_singleton]
        grind
      rw [right] at after
      exact (List.nodup_cons.mp after).1
  have whole : base :: (front ++ back) ++ [base] = (base :: front) ++ (back ++ [base]) := by simp
  rw [Ring,whole,left,right]
  simpa using joined

/-- The base of a ring that has members is replaced by another cell. -/
theorem Ring.transfer {other : α} (ring : Ring h base members) (filled : members ≠ [])
    (distinct : (base :: members).Nodup) (fresh : other ∉ base :: members) :
    Ring (link (link h (lastOr base members) other) other (firstOr base members)) other members := by
  obtain ⟨first,rest,rfl⟩ := List.exists_cons_of_ne_nil filled
  obtain ⟨before,split⟩ := lastOr_split first rest
  have last : lastOr base (first :: rest) = lastOr first rest := by
    simp [lastOr,List.getLast?_cons]
  have inner := (List.nodup_cons.mp distinct).2
  simp only [List.mem_cons,not_or] at fresh
  have open_ : (before ++ [lastOr first rest]).IsChain (Linked h) := by
    rw [← split]
    rw [Ring,List.cons_append] at ring
    exact List.IsChain.left_of_append (List.isChain_of_isChain_cons ring)
  have ended : (first :: rest ++ [other]).IsChain (Linked (link h (lastOr first rest) other)) := by
    rw [split,List.append_assoc]
    apply chain_join open_ (.singleton other) (lastOr_fresh inner split) (by simp) _ (by simp)
    rw [← split]
    exact fresh.2.2
  have closed : ([] ++ other :: first :: (rest ++ [other])).IsChain
      (Linked (link (link h (lastOr first rest) other) other first)) := by
    apply chain_join (.singleton other) ended (by simp) _ (by simp) _
    · change other ∉ ((first :: rest) ++ [other]).dropLast
      rw [List.dropLast_concat]
      simp [fresh]
    · change first ∉ rest ++ [other]
      have := (List.nodup_cons.mp inner).1
      simp [this,Ne.symm fresh.2.1]
  rw [last]
  simpa [Ring,firstOr] using closed

end Rings

/-! Several rings in one heap. -/

/-- The cells that are bases, each with the members of its ring. -/
abbrev Family (α : Type u) := α → Option (List α)

/-- The cell is neither a base nor a member. -/
def Free (family : Family α) (n : α) : Prop :=
  ∀ base members, family base = some members → n ∉ base :: members

/-- Every base has its ring, and no two rings share a cell. -/
structure Rings (h : Heap α) (family : Family α) : Prop where
  ring : ∀ base members, family base = some members → Ring h base members
  distinct : ∀ base members, family base = some members → (base :: members).Nodup
  apart : ∀ base members other others n, family base = some members → family other = some others →
    n ∈ base :: members → n ∈ other :: others → base = other

/-- Moreover every cell outside of the rings is null. -/
structure Laid (h : Heap α) (family : Family α) : Prop extends Rings h family where
  null : ∀ n, Free family n → h n = {}

section Families

variable {h : Heap α} {family : Family α} {base other n : α} {members others front back : List α}

omit [DecidableEq α] in
theorem laid_null : Laid (Heap.null : Heap α) (fun _ => none) := by
  constructor
  · constructor <;> simp
  · simp

/-- A base that is given up leaves its cells free. -/
theorem Rings.free_forget (rings : Rings h family) (here : family base = some members) :
    Free (Function.update family base none) n ↔ Free family n ∨ n ∈ base :: members := by
  constructor
  · intro free
    by_cases mem : n ∈ base :: members
    · exact .inr mem
    · refine .inl fun other others there => ?_
      by_cases same : other = base
      · subst same
        cases here.symm.trans there
        exact mem
      · exact free other others (by rwa [Function.update_of_ne same])
  · intro either other others there
    by_cases same : other = base
    · subst same
      simp at there
    · rw [Function.update_of_ne same] at there
      rcases either with free | mem
      · exact free _ _ there
      · exact fun also => same (rings.apart _ _ _ _ _ there here also mem)

theorem free_add : Free (Function.update family base (some members)) n ↔
    n ∉ base :: members ∧ Free (Function.update family base none) n := by
  constructor
  · intro free
    refine ⟨free _ _ (Function.update_self ..),fun other others there => ?_⟩
    by_cases same : other = base
    · subst same
      simp at there
    · exact free other others (by rwa [Function.update_of_ne same] at there ⊢)
  · rintro ⟨outside,free⟩ other others there
    by_cases same : other = base
    · subst same
      simp only [Function.update_self,Option.some.injEq] at there
      exact there ▸ outside
    · exact free other others (by rwa [Function.update_of_ne same] at there ⊢)

theorem free_new (vacant : family base = none) :
    Free (Function.update family base (some members)) n ↔ n ∉ base :: members ∧ Free family n := by
  rw [free_add,Function.update_eq_self_iff.mpr vacant.symm]

theorem Rings.forget (rings : Rings h family) (base : α) :
    Rings h (Function.update family base none) := by
  have older : ∀ other others, Function.update family base none other = some others →
      family other = some others := by
    intro other others there
    by_cases same : other = base
    · subst same
      simp at there
    · rwa [Function.update_of_ne same] at there
  constructor
  · exact fun _ _ there => rings.ring _ _ (older _ _ there)
  · exact fun _ _ there => rings.distinct _ _ (older _ _ there)
  · exact fun _ _ _ _ _ first second => rings.apart _ _ _ _ _ (older _ _ first) (older _ _ second)

/-- Links between free cells leave the rings alone. -/
theorem Rings.link {a b : α} (rings : Rings h family) (starts : Free family a)
    (ends : Free family b) : Rings (link h a b) family where
  ring _ _ there := (rings.ring _ _ there).frame (starts _ _ there) (ends _ _ there)
  distinct := rings.distinct
  apart := rings.apart

theorem Rings.clear {a : α} (rings : Rings h family) (free : Free family a) :
    Rings (clear h a) family where
  ring _ _ there := (rings.ring _ _ there).frame_clear (free _ _ there)
  distinct := rings.distinct
  apart := rings.apart

/-- A ring of free cells joins the family. -/
theorem Rings.add (rings : Rings h family) (ring : Ring h base members)
    (distinct : (base :: members).Nodup) (free : ∀ a ∈ base :: members, Free family a) :
    Rings h (Function.update family base (some members)) := by
  have cases : ∀ other others, Function.update family base (some members) other = some others →
      (other = base ∧ others = members) ∨ (other ≠ base ∧ family other = some others) := by
    intro other others there
    by_cases same : other = base
    · subst same
      simp only [Function.update_self,Option.some.injEq] at there
      exact .inl ⟨rfl,there.symm⟩
    · rw [Function.update_of_ne same] at there
      exact .inr ⟨same,there⟩
  constructor
  · intro other others there
    rcases cases _ _ there with ⟨rfl,rfl⟩ | ⟨_,older⟩
    · exact ring
    · exact rings.ring _ _ older
  · intro other others there
    rcases cases _ _ there with ⟨rfl,rfl⟩ | ⟨_,older⟩
    · exact distinct
    · exact rings.distinct _ _ older
  · intro one ones two twos n first second inOne inTwo
    rcases cases _ _ first with ⟨rfl,rfl⟩ | ⟨_,oneOlder⟩ <;>
      rcases cases _ _ second with ⟨rfl,rfl⟩ | ⟨_,twoOlder⟩
    · rfl
    · exact absurd inTwo (free _ inOne _ _ twoOlder)
    · exact absurd inOne (free _ inTwo _ _ oneOlder)
    · exact rings.apart _ _ _ _ _ oneOlder twoOlder inOne inTwo

/-- A ring is replaced by one of its own cells and free ones. -/
theorem Rings.change {k : Heap α} {changed : List α} (rings : Rings h family)
    (kept : Rings h (Function.update family base none) → Rings k (Function.update family base none))
    (ring : Ring k base changed) (distinct : (base :: changed).Nodup)
    (free : ∀ a ∈ base :: changed, Free (Function.update family base none) a) :
    Rings k (Function.update family base (some changed)) := by
  have added := (kept (rings.forget base)).add ring distinct free
  rwa [Function.update_idem] at added

omit [DecidableEq α] in
theorem Free.no_base (free : Free family base) : family base = none := by
  cases here : family base with
  | none => rfl
  | some members => exact absurd (List.mem_cons_self ..) (free base members here)

/-- A free cell becomes a base without members. -/
theorem Laid.start (laid : Laid h family) (free : Free family base) :
    Laid (link h base base) (Function.update family base (some [])) where
  toRings := by
    apply (laid.toRings.link free free).add (ring_self h base) (by simp)
    simpa using free
  null x still := by
    obtain ⟨outside,older⟩ := (free_new free.no_base).mp still
    have other : x ≠ base := by simpa using outside
    rw [link_other other other]
    exact laid.null x older

/-- A base without members is given back. -/
theorem Laid.stop (laid : Laid h family) (here : family base = some []) :
    Laid (clear h base) (Function.update family base none) where
  toRings := by
    apply (laid.toRings.forget base).clear
    exact (laid.toRings.free_forget here).mpr (.inr (by simp))
  null x still := by
    by_cases same : x = base
    · rw [same,clear_self]
    · rw [clear_other same]
      rcases (laid.toRings.free_forget here).mp still with older | mem
      · exact laid.null x older
      · exact absurd (by simpa using mem) same

/-- A free cell becomes the last member. -/
theorem Laid.insert (laid : Laid h family) (here : family base = some members)
    (free : Free family n) :
    Laid (link (link h (lastOr base members) n) n base)
      (Function.update family base (some (members ++ [n]))) := by
  have freed : ∀ a, Free (Function.update family base none) a ↔ Free family a ∨ a ∈ base :: members :=
    fun a => laid.toRings.free_forget here
  have last : Free (Function.update family base none) (lastOr base members) :=
    (freed _).mpr (.inr lastOr_mem)
  have own : Free (Function.update family base none) base := (freed _).mpr (.inr (by simp))
  have new : Free (Function.update family base none) n := (freed _).mpr (.inl free)
  have distinct := laid.distinct _ _ here
  have fresh := free _ _ here
  constructor
  · apply laid.toRings.change (fun rings => (rings.link last new).link new own)
    · exact (laid.ring _ _ here).insert distinct fresh
    · change ((base :: members) ++ [n]).Nodup
      rw [List.nodup_append]
      exact ⟨distinct,List.nodup_singleton n,by grind⟩
    · intro a mem
      apply (freed a).mpr
      grind
  · intro x still
    obtain ⟨outside,older⟩ := free_add.mp still
    have end_ : lastOr base members ∈ base :: members := lastOr_mem
    have apart : x ∉ base :: members ∧ x ≠ n := by grind
    rw [link_other apart.2 (by grind),link_other (by grind) apart.2]
    rcases (freed x).mp older with free | mem
    · exact laid.null x free
    · exact absurd mem apart.1

/-- A member is taken out and is free again. -/
theorem Laid.delete (laid : Laid h family) (here : family base = some (front ++ n :: back)) :
    Laid (link (clear h n) (lastOr base front) (firstOr base back))
      (Function.update family base (some (front ++ back))) := by
  have freed : ∀ a, Free (Function.update family base none) a ↔
      Free family a ∨ a ∈ base :: (front ++ n :: back) := fun a => laid.toRings.free_forget here
  have before : lastOr base front ∈ base :: front := lastOr_mem
  have after : firstOr base back ∈ base :: back := firstOr_mem
  have distinct := laid.distinct _ _ here
  have apart : n ∉ base :: front ∧ n ∉ base :: back := by
    have inner := List.nodup_cons.mp distinct
    have parts := List.nodup_append.mp inner.2
    grind
  constructor
  · apply laid.toRings.change
    · intro rings
      apply (rings.clear ((freed n).mpr (.inr (by simp)))).link
      · exact (freed _).mpr (.inr (by grind))
      · exact (freed _).mpr (.inr (by grind))
    · exact (laid.ring _ _ here).delete distinct
    · exact distinct.sublist (by simp)
    · intro a mem
      apply (freed a).mpr
      grind
  · intro x still
    obtain ⟨outside,older⟩ := free_add.mp still
    rw [link_other (by grind) (by grind)]
    by_cases same : x = n
    · rw [same,clear_self]
    · rw [clear_other same]
      rcases (freed x).mp older with free | mem
      · exact laid.null x free
      · exact absurd mem (by grind)

/-- All members of a ring go over to a base that has none. -/
theorem Laid.transfer (laid : Laid h family) (here : family base = some members)
    (filled : members ≠ []) (empty : family other = some []) :
    Laid (link (link (link h (lastOr base members) other) other (firstOr base members)) base base)
      (Function.update (Function.update family other (some members)) base (some [])) := by
  have ne : other ≠ base := by
    rintro rfl
    rw [here] at empty
    exact filled (Option.some.inj empty)
  have fresh : other ∉ base :: members := fun mem =>
    ne (laid.apart _ _ _ _ _ here empty mem (by simp)).symm
  have without : Rings h (Function.update family other none) := laid.toRings.forget other
  have kept : Function.update family other none base = some members := by
    rwa [Function.update_of_ne ne.symm]
  have freed : ∀ a, Free (Function.update (Function.update family other none) base none) a ↔
      (Free family a ∨ a ∈ [other]) ∨ a ∈ base :: members := by
    intro a
    rw [without.free_forget kept,laid.toRings.free_forget empty]
  have last : lastOr base members ∈ base :: members := lastOr_mem
  have first : firstOr base members ∈ base :: members := firstOr_mem
  have distinct := laid.distinct _ _ here
  have out : base ∉ members := (List.nodup_cons.mp distinct).1
  have target : Function.update (Function.update family other (some members)) base (some []) =
      Function.update (Function.update (Function.update (Function.update family other none) base none)
        other (some members)) base (some []) := by
    funext x
    simp only [Function.update_apply]
    grind
  have linked : Rings (Links.link (Links.link (Links.link h (lastOr base members) other) other
      (firstOr base members)) base base)
      (Function.update (Function.update family other none) base none) := by
    apply Rings.link
    · apply Rings.link
      · apply (without.forget base).link
        · exact (freed _).mpr (.inr last)
        · exact (freed _).mpr (.inl (.inr (by simp)))
      · exact (freed _).mpr (.inl (.inr (by simp)))
      · exact (freed _).mpr (.inr first)
    · exact (freed _).mpr (.inr (by simp))
    · exact (freed _).mpr (.inr (by simp))
  have moved := (laid.ring _ _ here).transfer filled distinct fresh
  have baseOut : base ∉ other :: members := by
    simp only [List.mem_cons,not_or]
    exact ⟨ne.symm,out⟩
  have added := linked.add (moved.frame baseOut baseOut) (by grind) (by grind)
  have vacant : Function.update (Function.update family other none) base none other = none := by
    simp [Function.update_of_ne ne]
  have still : Function.update (Function.update (Function.update family other none) base none)
      other (some members) base = none := by
    rw [Function.update_of_ne ne.symm,Function.update_self]
  rw [target]
  constructor
  · apply added.add (ring_self _ base) (by simp)
    intro a mem
    obtain rfl : a = base := by simpa using mem
    apply (free_new vacant).mpr
    exact ⟨baseOut,(freed _).mpr (.inr (by simp))⟩
  · intro x unused
    obtain ⟨notBase,unused⟩ := (free_new still).mp unused
    obtain ⟨outside,unused⟩ := (free_new vacant).mp unused
    have apart : x ≠ other ∧ x ∉ base :: members := by grind
    rw [link_other (by grind) (by grind),link_other (by grind) (by grind),
      link_other (by grind) (by grind)]
    rcases (freed x).mp unused with (free | mem) | mem
    · exact laid.null x free
    · exact absurd (by simpa using mem) apart.1
    · exact absurd mem apart.2

omit [DecidableEq α] in
theorem free_or_held (family : Family α) (a : α) :
    Free family a ∨ ∃ base members, family base = some members ∧ a ∈ base :: members := by
  by_cases free : Free family a
  · exact .inl free
  · simp only [Free,not_forall,not_not] at free
    obtain ⟨base,members,here,mem⟩ := free
    exact .inr ⟨base,members,here,mem⟩

omit [DecidableEq α] in
/-- A cell has no pointers, or its neighbours point back at it. -/
theorem Laid.null_or_linked (laid : Laid h family) (a : α) :
    h a = {} ∨ ∃ p q, Linked h p a ∧ Linked h a q := by
  rcases free_or_held family a with free | ⟨base,members,here,mem⟩
  · exact .inl (laid.null a free)
  · exact .inr ((laid.ring _ _ here).mutual mem)

omit [DecidableEq α] in
theorem Laid.inverse (laid : Laid h family) (a b : α) :
    (h a).next = some b ↔ (h b).prev = some a := by
  constructor
  · intro follows
    rcases laid.null_or_linked a with null | ⟨_,q,_,after⟩
    · simp [null] at follows
    · obtain rfl : q = b := Option.some.inj (after.1.symm.trans follows)
      exact after.2
  · intro precedes
    rcases laid.null_or_linked b with null | ⟨p,_,before,_⟩
    · simp [null] at precedes
    · obtain rfl : p = a := Option.some.inj (before.2.symm.trans precedes)
      exact before.1

omit [DecidableEq α] in
theorem Laid.both_null (laid : Laid h family) (a : α) : (h a).next = none ↔ (h a).prev = none := by
  rcases laid.null_or_linked a with null | ⟨p,q,before,after⟩
  · simp [null]
  · simp [before.2,after.1]

end Families

end Links
