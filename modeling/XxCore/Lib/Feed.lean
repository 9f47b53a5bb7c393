import Mathlib.Algebra.GroupWithZero.Nat

/-! What a reader of a feed did with the indices it has passed: it got a value, or was told how
many it has missed, or asked to go on at the newest one. -/
namespace Feed

variable {V : Type u}

inductive Event (V : Type u) where
  | delivered (index : Nat) (value : V)
  | lagged (first missed : Nat)
  | synchronized (first next : Nat)

/-- The first index that the event is about. -/
def Event.first : Event V → Nat
  | .delivered index _ => index
  | .lagged first _ => first
  | .synchronized first _ => first

/-- The index at which the reader goes on. -/
def Event.next : Event V → Nat
  | .delivered index _ => index + 1
  | .lagged first missed => first + missed
  | .synchronized _ next => next

/-- The events pass every index between two positions exactly once, in order. -/
def Tiles : Nat → List (Event V) → Nat → Prop
  | start, [], position => start = position
  | start, event :: rest, position =>
    event.first = start ∧ start ≤ event.next ∧ Tiles event.next rest position

theorem tiles_append {start position : Nat} {events more : List (Event V)} :
    Tiles start (events ++ more) position ↔
      ∃ middle, Tiles start events middle ∧ Tiles middle more position := by
  induction events generalizing start with
  | nil =>
    constructor
    · intro tiles; exact ⟨start,rfl,tiles⟩
    · rintro ⟨_,rfl,tiles⟩; exact tiles
  | cons event rest ih =>
    simp only [List.cons_append,Tiles,ih]
    constructor
    · rintro ⟨first,le,middle,tiles,tiles'⟩; exact ⟨middle,⟨first,le,tiles⟩,tiles'⟩
    · rintro ⟨middle,⟨first,le,tiles⟩,tiles'⟩; exact ⟨first,le,middle,tiles,tiles'⟩

theorem Tiles.snoc {start : Nat} {events : List (Event V)} (event : Event V)
    (tiles : Tiles start events event.first) (le : event.first ≤ event.next) :
    Tiles start (events ++ [event]) event.next :=
  tiles_append.mpr ⟨_,tiles,rfl,le,rfl⟩

def Event.index? : Event V → Option Nat
  | .delivered index _ => some index
  | _ => none

theorem Tiles.indices_ge {start position : Nat} {events : List (Event V)}
    (tiles : Tiles start events position) :
    ∀ i ∈ events.filterMap Event.index?, start ≤ i := by
  induction events generalizing start with
  | nil => simp
  | cons event rest ih =>
    obtain ⟨first,le,more⟩ := tiles
    intro i mem
    have later (mem : i ∈ rest.filterMap Event.index?) : start ≤ i :=
      Nat.le_trans le (ih more i mem)
    cases event with
    | delivered index value =>
      simp only [List.filterMap_cons,Event.index?,List.mem_cons] at mem
      rcases mem with rfl | mem
      · exact Nat.le_of_eq first.symm
      · exact later mem
    | lagged first missed => exact later (by simpa [Event.index?] using mem)
    | synchronized first next => exact later (by simpa [Event.index?] using mem)

/-- The indices of the values grow. -/
theorem Tiles.increasing {start position : Nat} {events : List (Event V)}
    (tiles : Tiles start events position) :
    (events.filterMap Event.index?).Pairwise (· < ·) := by
  induction events generalizing start with
  | nil => exact .nil
  | cons event rest ih =>
    obtain ⟨_,_,more⟩ := tiles
    cases event with
    | delivered index value => exact .cons (fun i mem => more.indices_ge i mem) (ih more)
    | lagged first missed => exact ih more
    | synchronized first next => exact ih more

/-- The count that an event reports. -/
def Event.missed : Event V → Nat
  | .lagged _ missed => missed
  | _ => 0

/-- How many indices the reader itself chose to skip. -/
def Event.jumped : Event V → Nat
  | .synchronized first next => next - first
  | _ => 0

/-- Between two values the reader passes what was reported missing, and what it skipped. -/
theorem Tiles.gap {start position : Nat} {events : List (Event V)}
    (tiles : Tiles start events position) (none : events.filterMap Event.index? = []) :
    position = start + (events.map Event.missed).sum + (events.map Event.jumped).sum := by
  induction events generalizing start with
  | nil => exact tiles.symm
  | cons event rest ih =>
    obtain ⟨first,le,more⟩ := tiles
    cases event with
    | delivered index value => simp [Event.index?] at none
    | lagged p missed =>
      have := ih more (by simpa [Event.index?] using none)
      simp only [Event.first,Event.next] at first this
      simp only [List.map_cons,Event.missed,Event.jumped,List.sum_cons]
      omega
    | synchronized p next =>
      have := ih more (by simpa [Event.index?] using none)
      simp only [Event.first,Event.next] at first le this
      simp only [List.map_cons,Event.missed,Event.jumped,List.sum_cons]
      omega

theorem Tiles.between {start position i j : Nat} {v w : V} {before events after : List (Event V)}
    (tiles : Tiles start (before ++ .delivered i v :: events ++ .delivered j w :: after) position)
    (none : events.filterMap Event.index? = []) :
    j = i + 1 + (events.map Event.missed).sum + (events.map Event.jumped).sum := by
  obtain ⟨m,front,second,_⟩ := tiles_append.mp tiles
  obtain ⟨_,_,first,_,middle⟩ := tiles_append.mp front
  exact second.trans (middle.gap none)

def Event.valueAt (index : Nat) : Event V → Option V
  | .delivered i value => if i = index then some value else none
  | _ => none

/-- The values that were delivered for one index. -/
def deliveries (index : Nat) (events : List (Event V)) : List V :=
  events.filterMap (Event.valueAt index)

@[simp] theorem deliveries_nil {index : Nat} : deliveries index ([] : List (Event V)) = [] := rfl

@[simp] theorem deliveries_delivered {index i : Nat} {value : V} {rest : List (Event V)} :
    deliveries index (.delivered i value :: rest) =
      if i = index then value :: deliveries index rest else deliveries index rest := by
  by_cases same : i = index <;> simp [deliveries,Event.valueAt,same]

@[simp] theorem deliveries_lagged {index first missed : Nat} {rest : List (Event V)} :
    deliveries index (.lagged first missed :: rest) = deliveries index rest := rfl

@[simp] theorem deliveries_synchronized {index first next : Nat} {rest : List (Event V)} :
    deliveries index (.synchronized first next :: rest) = deliveries index rest := rfl

theorem Tiles.deliveries_nil {start position index : Nat} {events : List (Event V)}
    (tiles : Tiles start events position) (old : index < start) : deliveries index events = [] := by
  induction events generalizing start with
  | nil => rfl
  | cons event rest ih =>
    obtain ⟨first,le,more⟩ := tiles
    have later : deliveries index rest = [] := ih more (Nat.lt_of_lt_of_le old le)
    cases event with
    | delivered i value =>
      have ne : i ≠ index := by
        simp only [Event.first] at first
        omega
      simpa [ne] using later
    | lagged first missed => simpa using later
    | synchronized first next => simpa using later

/-- The index is among those that a report, or a jump of the reader, has passed. -/
def Skips (index : Nat) : Event V → Prop
  | .delivered _ _ => False
  | .lagged first missed => first ≤ index ∧ index < first + missed
  | .synchronized first next => first ≤ index ∧ index < next

/-- An index that was passed was delivered once, or skipped. -/
theorem Tiles.passed {start position index : Nat} {events : List (Event V)}
    (tiles : Tiles start events position) (le : start ≤ index) (lt : index < position) :
    (∃ value, deliveries index events = [value] ∧ .delivered index value ∈ events) ∨
      deliveries index events = [] ∧ ∃ event ∈ events, Skips index event := by
  induction events generalizing start with
  | nil => exact absurd (show start = position from tiles) (by omega)
  | cons event rest ih =>
    obtain ⟨first,forward,more⟩ := tiles
    rcases Nat.lt_or_ge index event.next with here | later
    · have none : deliveries index rest = [] := more.deliveries_nil here
      cases event with
      | delivered i value =>
        simp only [Event.first,Event.next] at first here
        obtain rfl : i = index := by omega
        exact .inl ⟨value,by simp [none],by simp⟩
      | lagged p missed =>
        simp only [Event.first,Event.next] at first here
        exact .inr ⟨by simpa using none,.lagged p missed,by simp,by omega,here⟩
      | synchronized p next =>
        simp only [Event.first,Event.next] at first here
        exact .inr ⟨by simpa using none,.synchronized p next,by simp,by omega,here⟩
    · have same : deliveries index (event :: rest) = deliveries index rest := by
        cases event with
        | delivered i value =>
          have ne : i ≠ index := by
            simp only [Event.next] at later
            omega
          simp [ne]
        | lagged first missed => simp
        | synchronized first next => simp
      rw [same]
      rcases ih more later with ⟨value,once,mem⟩ | ⟨none,e,mem,skips⟩
      · exact .inl ⟨value,once,by simp [mem]⟩
      · exact .inr ⟨none,e,by simp [mem],skips⟩

end Feed
