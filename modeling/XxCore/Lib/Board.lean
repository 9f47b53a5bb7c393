import Mathlib.Logic.Function.Basic
import XxCore.Lib.Feed

/-! A board: a ring of cells that any number of writers fill and any number of readers read. A
writer takes the next index, counts the readers, and then shows the index in the cell that it falls
into. A reader passes the indices in order and leaves the list of those a cell still waits for. -/
universe u v

variable {θ : Type u} {V : Type v}

namespace Board

structure Reader (V : Type v) where
  start : Nat
  position : Nat
  events : List (Feed.Event V)

/-- A writer between its claim of an index and the cell, with the readers it has counted. -/
structure Flight (θ : Type u) where
  index : Nat
  counted : Option (List θ)

structure Cell (θ : Type u) where
  number : Nat
  expected : List θ

end Board

structure Board (θ : Type u) (V : Type v) where
  size : Nat
  claims : Nat
  cells : Nat → Board.Cell θ
  sent : Nat → Option V
  registered : List θ
  readers : θ → Option (Board.Reader V)
  flights : θ → Option (Board.Flight θ)

namespace Board

open Feed (Event)

/-- A board of `size` cells that shows nothing, with one reader. -/
def new (size : Nat) (t : θ) [DecidableEq θ] : Board θ V where
  size
  claims := 0
  cells := fun j => ⟨j,[]⟩
  sent := fun _ => none
  registered := [t]
  readers := Function.update (fun _ => none) t (some ⟨0,0,[]⟩)
  flights := fun _ => none

/-- The cell that an index falls into. -/
def cellOf (b : Board θ V) (index : Nat) : Cell θ := b.cells (index % b.size)

/-- The cell of the index shows it. -/
def Shows (b : Board θ V) (index : Nat) : Prop := (b.cellOf index).number = index + 1

def register (b : Board θ V) (t : θ) : Board θ V := { b with registered := t :: b.registered }

section
variable [DecidableEq θ]

def claim (b : Board θ V) (t : θ) : Board θ V :=
  { b with claims := b.claims + 1, flights := Function.update b.flights t (some ⟨b.claims,none⟩) }

/-- The writer takes down who is registered. -/
def count (b : Board θ V) (t : θ) : Board θ V :=
  { b with
    flights := Function.update b.flights t
      ((b.flights t).map fun f => { f with counted := some b.registered }) }

/-- The writer shows its index, and the value if anybody was counted. -/
def publish (b : Board θ V) (t : θ) (value : V) : Board θ V :=
  match b.flights t with
  | some ⟨index,some counted⟩ =>
    { b with
      cells := Function.update b.cells (index % b.size) ⟨index + 1,counted⟩
      sent := if counted = [] then b.sent else Function.update b.sent index (some value)
      flights := Function.update b.flights t none }
  | _ => b

/-- A registered reader starts at the next index. -/
def enter (b : Board θ V) (t : θ) : Board θ V :=
  { b with readers := Function.update b.readers t (some ⟨b.claims,b.claims,[]⟩) }

def leave (b : Board θ V) (t : θ) : Board θ V :=
  { b with registered := b.registered.erase t, readers := Function.update b.readers t none }

/-- A change of one reader. -/
def modify (b : Board θ V) (t : θ) (f : Reader V → Reader V) : Board θ V :=
  { b with readers := Function.update b.readers t ((b.readers t).map f) }

/-- The reader passes the index of a cell, which does not wait for it any more. -/
def take (b : Board θ V) (t : θ) (j : Nat) : Board θ V :=
  { b.modify t fun r => { r with position := r.position + 1 } with
    cells := Function.update b.cells j
      { b.cells j with expected := (b.cells j).expected.erase t } }

/-- The reader gets the value of the cell whose index it has passed. -/
def deliver (b : Board θ V) (t : θ) (j : Nat) (value : V) : Board θ V :=
  b.modify t fun r => { r with events := r.events ++ [.delivered ((b.cells j).number - 1) value] }

/-- The reader is told that it has missed some indices. -/
def lag (b : Board θ V) (t : θ) (missed : Nat) : Board θ V :=
  b.modify t fun r => { r with
    position := r.position + missed
    events := r.events ++ [.lagged r.position missed] }

/-- The reader goes on at the next index to be claimed. -/
def synchronize (b : Board θ V) (t : θ) : Board θ V :=
  b.modify t fun r => { r with
    position := b.claims
    events := r.events ++ [.synchronized r.position b.claims] }

end

/-- The readers that have not passed an index are among those counted for it, in the cell and on
the way to it. -/
structure Valid (b : Board θ V) : Prop where
  pos : 0 < b.size
  cell : ∀ j < b.size, (b.cells j).number = j ∧ (b.cells j).expected = [] ∨
    ∃ k, k % b.size = j ∧ (b.cells j).number = k + 1 ∧ k < b.claims
  flight : ∀ t f, b.flights t = some f →
    f.index < b.claims ∧ ¬ b.Shows f.index ∧ b.sent f.index = none
  unique : ∀ t u f g, b.flights t = some f → b.flights u = some g → f.index = g.index → t = u
  covered : ∀ k, b.Shows k → ∀ t r, b.readers t = some r → r.position ≤ k →
    t ∈ (b.cellOf k).expected
  counted : ∀ u k counted, b.flights u = some ⟨k,some counted⟩ → ∀ t r, b.readers t = some r →
    r.position ≤ k → t ∈ counted
  registered : ∀ t r, b.readers t = some r → t ∈ b.registered
  sent : ∀ k v, b.sent k = some v → k < b.claims
  shown : ∀ k, b.Shows k → (b.cellOf k).expected ≠ [] → ∃ v, b.sent k = some v

theorem Valid.shows_lt {b : Board θ V} (valid : b.Valid) {k : Nat} (shows_ : b.Shows k) :
    k < b.claims := by
  rcases valid.cell _ (Nat.mod_lt k valid.pos) with ⟨number,_⟩ | ⟨i,_,number,lt⟩
  · have := Nat.mod_le k b.size
    rw [Shows,cellOf,number] at shows_
    omega
  · rw [Shows,cellOf,number] at shows_
    omega

/-- A cell that waits for somebody shows an index. -/
theorem Valid.shows_of_expected {b : Board θ V} (valid : b.Valid) {j : Nat} (lt : j < b.size)
    (waits : (b.cells j).expected ≠ []) : ∃ k, k % b.size = j ∧ b.Shows k := by
  rcases valid.cell j lt with ⟨_,none⟩ | ⟨k,rfl,number,_⟩
  · exact absurd none waits
  · exact ⟨k,rfl,number⟩

theorem valid_new [DecidableEq θ] {size : Nat} (pos : 0 < size) (t : θ) :
    (new size t : Board θ V).Valid where
  pos := pos
  cell := fun j _ => .inl ⟨rfl,rfl⟩
  flight := nofun
  unique := nofun
  covered := fun k shows_ => by
    have := Nat.mod_le k size
    simp only [Shows,cellOf,new] at shows_
    omega
  counted := nofun
  registered := fun u r reader => by
    by_cases same : u = t
    · simp [new,same]
    · simp [new,same] at reader
  sent := nofun
  shown := fun k _ waits => absurd rfl waits

theorem Valid.register {b : Board θ V} (valid : b.Valid) (t : θ) : (b.register t).Valid :=
  { valid with
    registered := fun u r reader => List.mem_cons_of_mem _ (valid.registered u r reader)
    flight := valid.flight, covered := valid.covered, shown := valid.shown }

variable [DecidableEq θ]

theorem Valid.claim {b : Board θ V} (valid : b.Valid) (t : θ) : (b.claim t).Valid where
  pos := valid.pos
  cell := fun j lt => (valid.cell j lt).imp_right fun ⟨k,eq,number,lt⟩ =>
    ⟨k,eq,number,Nat.lt_succ_of_lt lt⟩
  flight := fun u f flight => by
    by_cases same : u = t
    · subst same
      simp only [Board.claim,Function.update_self,Option.some.injEq] at flight
      subst flight
      refine ⟨Nat.lt_succ_self _,fun shows_ => Nat.lt_irrefl _ (valid.shows_lt shows_),?_⟩
      cases sent : b.sent b.claims with
      | none => exact sent
      | some v => exact absurd (valid.sent _ v sent) (Nat.lt_irrefl _)
    · simp only [Board.claim,Function.update_of_ne same] at flight
      obtain ⟨lt,fresh,none⟩ := valid.flight u f flight
      exact ⟨Nat.lt_succ_of_lt lt,fresh,none⟩
  unique := fun u w f g first second eq => by
    simp only [Board.claim] at first second
    by_cases mine : u = t <;> by_cases mine' : w = t
    · rw [mine,mine']
    · subst mine
      simp only [Function.update_self,Option.some.injEq,Function.update_of_ne mine'] at first second
      subst first
      exact absurd (valid.flight w g second).1 (by rw [← eq]; exact Nat.lt_irrefl _)
    · subst mine'
      simp only [Function.update_self,Option.some.injEq,Function.update_of_ne mine] at first second
      subst second
      exact absurd (valid.flight u f first).1 (by rw [eq]; exact Nat.lt_irrefl _)
    · rw [Function.update_of_ne mine] at first
      rw [Function.update_of_ne mine'] at second
      exact valid.unique u w f g first second eq
  covered := valid.covered
  counted := fun u k counted flight => by
    by_cases same : u = t
    · simp [Board.claim,same] at flight
    · exact valid.counted u k counted (by simpa [Board.claim,same] using flight)
  registered := valid.registered
  sent := fun k v sent => Nat.lt_succ_of_lt (valid.sent k v sent)
  shown := valid.shown

theorem Valid.count {b : Board θ V} (valid : b.Valid) (t : θ) : (b.count t).Valid := by
  have before {u : θ} {f : Flight θ} (flight : (b.count t).flights u = some f) :
      ∃ g, b.flights u = some g ∧ g.index = f.index := by
    by_cases same : u = t
    · subst same
      obtain ⟨g,flying,rfl⟩ : ∃ g, b.flights u = some g ∧
          { g with counted := some b.registered } = f := by
        simpa [Board.count] using flight
      exact ⟨g,flying,rfl⟩
    · exact ⟨f,by simpa [Board.count,same] using flight,rfl⟩
  refine { valid with flight := ?_, unique := ?_, counted := ?_ }
  · intro u f flight
    obtain ⟨g,flying,eq⟩ := before flight
    rw [← eq]
    exact valid.flight u g flying
  · intro u w f g first second eq
    obtain ⟨f',flying,eq'⟩ := before first
    obtain ⟨g',flying',eq''⟩ := before second
    exact valid.unique u w f' g' flying flying' (by rw [eq',eq'',eq])
  · intro u k counted flight w r reader le
    by_cases same : u = t
    · subst same
      obtain ⟨g,flying,eq⟩ : ∃ g, b.flights u = some g ∧
          { g with counted := some b.registered } = Flight.mk k (some counted) := by
        simpa [Board.count] using flight
      cases eq
      exact valid.registered w r reader
    · exact valid.counted u k counted (by simpa [Board.count,same] using flight) w r reader le

theorem publish_eq {b : Board θ V} {t : θ} {index : Nat} {counted : List θ} (value : V)
    (flight : b.flights t = some ⟨index,some counted⟩) : b.publish t value =
      { b with
        cells := Function.update b.cells (index % b.size) ⟨index + 1,counted⟩
        sent := if counted = [] then b.sent else Function.update b.sent index (some value)
        flights := Function.update b.flights t none } := by
  simp only [publish,flight]

@[simp] theorem publish_claims {b : Board θ V} {t : θ} {value : V} :
    (b.publish t value).claims = b.claims := by
  unfold publish
  split <;> rfl

@[simp] theorem publish_readers {b : Board θ V} {t : θ} {value : V} :
    (b.publish t value).readers = b.readers := by
  unfold publish
  split <;> rfl

/-- What a cell shows after an index was published. -/
theorem shows_publish {b : Board θ V} {t : θ} {index : Nat} {counted : List θ} {value : V}
    (flight : b.flights t = some ⟨index,some counted⟩) {k : Nat} :
    (b.publish t value).Shows k ↔ if k % b.size = index % b.size then k = index else b.Shows k := by
  simp only [publish_eq value flight,Shows,cellOf]
  by_cases same : k % b.size = index % b.size
  · simp only [same,Function.update_self,if_true]
    omega
  · simp [same]

theorem Valid.publish {b : Board θ V} (valid : b.Valid) {t : θ} {index : Nat} {counted : List θ}
    (value : V) (flight : b.flights t = some ⟨index,some counted⟩) :
    (b.publish t value).Valid := by
  obtain ⟨claimed,_,fresh⟩ := valid.flight t _ flight
  have flying {u : θ} {f : Flight θ} (after : (b.publish t value).flights u = some f) :
      u ≠ t ∧ b.flights u = some f := by
    rw [publish_eq value flight] at after
    by_cases same : u = t
    · simp [same] at after
    · exact ⟨same,by simpa [same] using after⟩
  have cells (k : Nat) : (b.publish t value).cellOf k =
      if k % b.size = index % b.size then ⟨index + 1,counted⟩ else b.cellOf k := by
    simp only [publish_eq value flight,cellOf]
    by_cases same : k % b.size = index % b.size <;> simp [same]
  have sent (k : Nat) : (b.publish t value).sent k =
      if counted ≠ [] ∧ k = index then some value else b.sent k := by
    rw [publish_eq value flight]
    by_cases none : counted = [] <;> by_cases same : k = index <;> simp [none,same]
  have size : (b.publish t value).size = b.size := by rw [publish_eq value flight]
  have claims : (b.publish t value).claims = b.claims := by rw [publish_eq value flight]
  have readers : (b.publish t value).readers = b.readers := by rw [publish_eq value flight]
  refine ⟨by rw [size]; exact valid.pos,?_,?_,?_,?_,?_,?_,?_,?_⟩
  · intro j lt
    rw [size] at lt
    rw [size,claims,publish_eq value flight]
    by_cases same : j = index % b.size
    · exact .inr ⟨index,same.symm,by simp [same],claimed⟩
    · simpa [same] using valid.cell j lt
  · intro u f after
    obtain ⟨ne,before⟩ := flying after
    obtain ⟨lt,hidden,none⟩ := valid.flight u f before
    have other : f.index ≠ index := fun eq => ne (valid.unique u t f _ before flight eq)
    refine ⟨by rw [claims]; exact lt,fun shows_ => ?_,?_⟩
    · rw [shows_publish flight] at shows_
      split at shows_
      · exact other shows_
      · exact hidden shows_
    · rw [sent,if_neg fun same => other same.2]
      exact none
  · intro u w f g first second eq
    exact valid.unique u w f g (flying first).2 (flying second).2 eq
  · intro k shows_ u r reader le
    rw [readers] at reader
    rw [shows_publish flight] at shows_
    rw [cells]
    split at shows_
    · subst shows_
      rw [if_pos rfl]
      exact valid.counted t k counted flight u r reader le
    · rw [if_neg ‹_›]
      exact valid.covered k shows_ u r reader le
  · intro u k counted' after w r reader
    rw [readers] at reader
    exact valid.counted u k counted' (flying after).2 w r reader
  · intro u r reader
    rw [readers] at reader
    rw [publish_eq value flight]
    exact valid.registered u r reader
  · intro k v is_sent
    rw [sent] at is_sent
    rw [claims]
    split at is_sent
    · rename_i here
      rw [here.2]
      exact claimed
    · exact valid.sent k v is_sent
  · intro k shows_ waits
    rw [shows_publish flight] at shows_
    rw [cells] at waits
    rw [sent]
    split at shows_
    · rw [if_pos ‹_›] at waits
      exact ⟨value,by rw [if_pos ⟨waits,shows_⟩]⟩
    · rename_i other
      rw [if_neg other] at waits
      rw [if_neg fun same => other (by rw [same.2])]
      exact valid.shown k shows_ waits

theorem Valid.enter {b : Board θ V} (valid : b.Valid) {t : θ} (mem : t ∈ b.registered) :
    (b.enter t).Valid := by
  have cases_ {u : θ} {r : Reader V} (reader : (b.enter t).readers u = some r) :
      u = t ∧ r.position = b.claims ∨ b.readers u = some r := by
    by_cases same : u = t
    · simp only [Board.enter,same,Function.update_self,Option.some.injEq] at reader
      exact .inl ⟨same,by rw [← reader]⟩
    · exact .inr (by simpa [Board.enter,same] using reader)
  refine { valid with covered := ?_, counted := ?_, registered := ?_, flight := valid.flight, shown := valid.shown }
  · intro k shows_ u r reader le
    rcases cases_ reader with ⟨_,eq⟩ | before
    · have := valid.shows_lt shows_
      omega
    · exact valid.covered k shows_ u r before le
  · intro w k counted flight u r reader le
    rcases cases_ reader with ⟨_,eq⟩ | before
    · have := (valid.flight w _ flight).1
      simp only at this
      omega
    · exact valid.counted w k counted flight u r before le
  · intro u r reader
    rcases cases_ reader with ⟨rfl,_⟩ | before
    · exact mem
    · exact valid.registered u r before

theorem Valid.leave {b : Board θ V} (valid : b.Valid) (t : θ) : (b.leave t).Valid := by
  have before {u : θ} {r : Reader V} (reader : (b.leave t).readers u = some r) :
      u ≠ t ∧ b.readers u = some r := by
    by_cases same : u = t
    · simp [Board.leave,same] at reader
    · exact ⟨same,by simpa [Board.leave,same] using reader⟩
  refine { valid with covered := ?_, counted := ?_, registered := ?_, flight := valid.flight, shown := valid.shown }
  · intro k shows_ u r reader
    exact valid.covered k shows_ u r (before reader).2
  · intro w k counted flight u r reader
    exact valid.counted w k counted flight u r (before reader).2
  · intro u r reader
    obtain ⟨ne,reader⟩ := before reader
    exact (List.mem_erase_of_ne ne).mpr (valid.registered u r reader)

/-- A reader that moves forward, or on to the next index to be claimed. -/
theorem Valid.modify {b : Board θ V} (valid : b.Valid) (t : θ) {f : Reader V → Reader V}
    (forward : ∀ r, b.readers t = some r →
      r.position ≤ (f r).position ∨ b.claims ≤ (f r).position) : (b.modify t f).Valid := by
  have before {u : θ} {r : Reader V} (reader : (b.modify t f).readers u = some r) :
      ∃ r', b.readers u = some r' ∧ (r'.position ≤ r.position ∨ b.claims ≤ r.position) := by
    by_cases same : u = t
    · subst same
      obtain ⟨r',reading,rfl⟩ : ∃ r', b.readers u = some r' ∧ f r' = r := by
        simpa [Board.modify] using reader
      exact ⟨r',reading,forward r' reading⟩
    · exact ⟨r,by simpa [Board.modify,same] using reader,.inl (Nat.le_refl _)⟩
  refine { valid with covered := ?_, counted := ?_, registered := ?_, flight := valid.flight, shown := valid.shown }
  · intro k shows_ u r reader le
    obtain ⟨r',reading,le' | le'⟩ := before reader
    · exact valid.covered k shows_ u r' reading (Nat.le_trans le' le)
    · exact absurd (valid.shows_lt shows_) (Nat.not_lt.mpr (Nat.le_trans le' le))
  · intro w k counted flight u r reader le
    obtain ⟨r',reading,le' | le'⟩ := before reader
    · exact valid.counted w k counted flight u r' reading (Nat.le_trans le' le)
    · exact absurd (valid.flight w _ flight).1 (Nat.not_lt.mpr (Nat.le_trans le' le))
  · intro u r reader
    obtain ⟨r',reading,_⟩ := before reader
    exact valid.registered u r' reading

/-- A reader at the index that a cell shows takes it. -/
theorem Valid.take {b : Board θ V} (valid : b.Valid) {t : θ} {r : Reader V}
    (reader : b.readers t = some r) (here : b.Shows r.position) :
    (b.take t (r.position % b.size)).Valid := by
  have moved := valid.modify t (f := fun r => { r with position := r.position + 1 })
    fun r _ => .inl (Nat.le_succ _)
  have numbers (j : Nat) : ((b.take t (r.position % b.size)).cells j).number =
      (b.cells j).number := by
    by_cases same : j = r.position % b.size <;> simp [Board.take,same]
  have shows_iff (k : Nat) : (b.take t (r.position % b.size)).Shows k ↔ b.Shows k := by
    rw [Shows,cellOf,numbers]
    rfl
  have kept {j : Nat} {u : θ} (ne : u ≠ t ∨ j ≠ r.position % b.size) :
      u ∈ ((b.take t (r.position % b.size)).cells j).expected ↔ u ∈ (b.cells j).expected := by
    by_cases same : j = r.position % b.size
    · have other : u ≠ t := ne.resolve_right fun ne => ne same
      simp [Board.take,same,List.mem_erase_of_ne other]
    · simp [Board.take,same]
  have fewer (j : Nat) (nobody : (b.cells j).expected = []) :
      ((b.take t (r.position % b.size)).cells j).expected = [] := by
    by_cases same : j = r.position % b.size
    · rw [same] at nobody
      simp [Board.take,same,nobody]
    · simp [Board.take,same,nobody]
  refine { moved with cell := ?_, flight := ?_, covered := ?_, shown := ?_ }
  · intro j lt
    rw [numbers]
    exact (valid.cell j lt).imp_left fun empty => ⟨empty.1,fewer j empty.2⟩
  · intro u f flight
    rw [shows_iff]
    exact valid.flight u f flight
  · intro k shows_ u r' reader' le
    rw [shows_iff] at shows_
    by_cases same : u = t
    · subst same
      simp only [Board.take,Board.modify,Function.update_self,reader,Option.map_some,
        Option.some.injEq] at reader'
      subst reader'
      have old := valid.covered k shows_ u r reader (Nat.le_of_succ_le le)
      refine (kept (.inr fun eq => ?_)).mpr old
      -- one cell shows one index, and the reader has passed that one
      have eq : k % b.size = r.position % b.size := eq
      rw [Shows,cellOf,eq] at shows_
      rw [Shows,cellOf,shows_] at here
      simp only at le
      omega
    · refine (kept (.inl same)).mpr (valid.covered k shows_ u r' ?_ le)
      simpa [Board.take,Board.modify,same] using reader'
  · intro k shows_ waits
    rw [shows_iff] at shows_
    exact valid.shown k shows_ fun nobody => waits (fewer _ nobody)

/-- Every claimed index is on its way to its cell, or the cell has come to it. -/
def Settled (b : Board θ V) : Prop :=
  ∀ i < b.claims, (∃ t f, b.flights t = some f ∧ f.index = i) ∨ i < (b.cellOf i).number

theorem settled_new {size : Nat} {t : θ} : (new size t : Board θ V).Settled := nofun

theorem Settled.claim {b : Board θ V} (settled : b.Settled) {t : θ} (free : b.flights t = none) :
    (b.claim t).Settled := by
  intro i lt
  rcases Nat.lt_or_eq_of_le (Nat.lt_succ_iff.mp lt) with old | rfl
  · rcases settled i old with ⟨u,f,flight,eq⟩ | number
    · have ne : u ≠ t := by
        rintro rfl
        simp [free] at flight
      exact .inl ⟨u,f,by simpa [Board.claim,ne] using flight,eq⟩
    · exact .inr number
  · exact .inl ⟨t,⟨b.claims,none⟩,by simp [Board.claim],rfl⟩

theorem Settled.count {b : Board θ V} (settled : b.Settled) (t : θ) : (b.count t).Settled := by
  intro i lt
  refine (settled i lt).imp_left fun ⟨u,f,flight,eq⟩ => ?_
  by_cases same : u = t
  · subst same
    exact ⟨u,{ f with counted := some b.registered },by simp [Board.count,flight],eq⟩
  · exact ⟨u,f,by simpa [Board.count,same] using flight,eq⟩

/-- The number of a cell grows when an index above it is shown. -/
theorem publish_number {b : Board θ V} {t : θ} {index : Nat} {counted : List θ} (value : V)
    (flight : b.flights t = some ⟨index,some counted⟩) (forward : (b.cellOf index).number ≤ index)
    (j : Nat) : (b.cells j).number ≤ ((b.publish t value).cells j).number := by
  rw [publish_eq value flight]
  by_cases same : j = index % b.size
  · have : (b.cells j).number ≤ index := by rw [same]; exact forward
    simp only [same,Function.update_self] at this ⊢
    omega
  · simp [same]

theorem Settled.publish {b : Board θ V} (settled : b.Settled) {t : θ} {index : Nat}
    {counted : List θ} (value : V) (flight : b.flights t = some ⟨index,some counted⟩)
    (forward : (b.cellOf index).number ≤ index) : (b.publish t value).Settled := by
  intro i lt
  have size : (b.publish t value).size = b.size := by rw [publish_eq value flight]
  have grows := publish_number value flight forward (i % b.size)
  rw [cellOf,size]
  rw [publish_eq value flight] at lt
  rcases settled i lt with ⟨u,f,flying,eq⟩ | number
  · by_cases same : u = t
    · subst same
      rw [flight,Option.some.injEq] at flying
      subst flying
      simp only at eq
      subst eq
      right
      simp [publish_eq value flight]
    · exact .inl ⟨u,f,by simpa [publish_eq value flight,same] using flying,eq⟩
  · exact .inr (Nat.lt_of_lt_of_le number grows)

theorem Settled.take {b : Board θ V} (settled : b.Settled) (t : θ) (j : Nat) :
    (b.take t j).Settled := by
  intro i lt
  refine (settled i lt).imp_right fun number => ?_
  rw [cellOf] at number ⊢
  by_cases same : i % b.size = j
  · simpa [Board.take,Board.modify,same] using number
  · simpa [Board.take,Board.modify,same] using number

end Board
