import XxCore.Io.ReadToEnd

/-! Strings that are read as vectors (`append_to_string` and `read_to_string` in
`async_std/io/read.rs`). A guard cuts the string's vector back on every way out but one. -/
namespace XxCore.Io

variable {ρ ε σ : Type} {β : Type}

/-- What `from_utf8` accepts. -/
def Utf8 (bytes : List UInt8) : Prop := bytes.toByteArray.IsValidUTF8

instance (bytes : List UInt8) : Decidable (Utf8 bytes) :=
  inferInstanceAs (Decidable (ByteArray.IsValidUTF8 _))

theorem Utf8.append {front back : List UInt8} (valid : Utf8 front) (valid' : Utf8 back) :
    Utf8 (front ++ back) := by
  rw [Utf8,List.toByteArray_append]
  exact ByteArray.IsValidUTF8.append valid valid'

/-- A vector that grows: its bytes, and a cut. -/
class Growable (β : Type) where
  bytes : β → List UInt8
  truncate : β → Nat → β
  bytes_truncate : ∀ buf len, bytes (truncate buf len) = (bytes buf).take len

export Growable (bytes)

instance : Growable Vec := ⟨Vec.bytes,Vec.truncate,fun _ _ => rfl⟩

instance : Growable (List UInt8) := ⟨id,fun buf len => buf.take len,fun _ _ => rfl⟩

/-- The guard is dropped: the vector is cut to the length that the guard has. -/
def guarded [Growable β] (len : Nat) (exit : Exit ε (Option Nat)) (vec : β) (world : σ) :
    Exit ε (Option Nat) × β × σ :=
  (exit,Growable.truncate vec len,world)

/-- `append_to_string`. The closure `read` gets the string's vector, and may not return. -/
def appendToString [Growable β] (E : ErrorKinds ε) (buf : β)
    (read : β → Option (Exit ε (Option Nat) × β × σ)) : Option (Exit ε (Option Nat) × β × σ) :=
  let len := (bytes buf).length
  (read buf).map fun
    | (.unwound,vec,world) => guarded len .unwound vec world
    | (.returned (.error e),vec,world) => guarded len (.returned (.error e)) vec world
    | (.returned (.ok none),vec,world) => guarded len (.returned (.ok none)) vec world
    | (.returned (.ok (some read)),vec,world) =>
      match Slice.range (bytes vec) len (bytes vec).length with
      | none => guarded len .unwound vec world
      | some new =>
        if Utf8 new then guarded (bytes vec).length (.returned (.ok (some read))) vec world
        else guarded len (.returned (.error E.invalidUtf8)) vec world

/-- `map(Some)`. -/
def Exit.some_ : Exit ε Nat → Exit ε (Option Nat)
  | .returned (.ok read) => .returned (.ok (some read))
  | .returned (.error e) => .returned (.error e)
  | .unwound => .unwound

/-- `map(Option::unwrap)`. -/
def Exit.unwrap : Exit ε (Option Nat) → Exit ε Nat
  | .returned (.ok (some read)) => .returned (.ok read)
  | .returned (.ok none) => .unwound
  | .returned (.error e) => .returned (.error e)
  | .unwound => .unwound

theorem Exit.of_some {exit : Exit ε Nat} {n : Nat} (is : exit.some_ = .returned (.ok (some n))) :
    exit = .returned (.ok n) := by
  rcases exit with (e | m) | _
  all_goals simp only [Exit.some_,Exit.returned.injEq,Except.ok.injEq,Option.some.injEq,reduceCtorEq] at is
  rw [is]

theorem Exit.of_unwrap {exit : Exit ε (Option Nat)} {n : Nat}
    (is : exit.unwrap = .returned (.ok n)) : exit = .returned (.ok (some n)) := by
  rcases exit with (e | _ | m) | _
  all_goals simp only [Exit.unwrap,Exit.returned.injEq,Except.ok.injEq,reduceCtorEq] at is
  rw [is]

/-- The closure of `read_to_string`. -/
def readVec (R : Read ρ ε) (E : ErrorKinds ε) (interrupted : ρ → Bool) (A : Allocator)
    (rounds : Nat) (r : ρ) (vec : Vec) : Option (Exit ε (Option Nat) × Vec × ρ) :=
  (readToEnd R E interrupted A rounds vec r).map fun (exit,vec,r) => (exit.some_,vec,r)

/-- `read_to_string`. -/
def readToString (R : Read ρ ε) (E : ErrorKinds ε) (interrupted : ρ → Bool) (A : Allocator)
    (rounds : Nat) (buf : Vec) (r : ρ) : Option (Exit ε Nat × Vec × ρ) :=
  (appendToString E buf (readVec R E interrupted A rounds r)).map
    fun (exit,buf,r) => (exit.unwrap,buf,r)

/-- What becomes of the exit of the closure and of the string `s`. -/
inductive Guarded (E : ErrorKinds ε) (s appended : List UInt8) :
    Exit ε (Option Nat) → Exit ε (Option Nat) → List UInt8 → Prop where
  | kept {read : Nat} (valid : Utf8 appended) : Guarded E s appended (.returned (.ok (some read)))
      (.returned (.ok (some read))) (s ++ appended)
  | invalid {read : Nat} (invalid : ¬ Utf8 appended) : Guarded E s appended
      (.returned (.ok (some read))) (.returned (.error E.invalidUtf8)) s
  | other {exit : Exit ε (Option Nat)} (other : ∀ read, exit ≠ .returned (.ok (some read))) :
      Guarded E s appended exit exit s

theorem appendToString_guarded [Growable β] {E : ErrorKinds ε} {s vec : β} {world : σ}
    {read : β → Option (Exit ε (Option Nat) × β × σ)} {exit : Exit ε (Option Nat)}
    {appended : List UInt8} (called : read s = some (exit,vec,world))
    (appends : bytes vec = bytes s ++ appended) :
    ∃ exit' s', appendToString E s read = some (exit',s',world) ∧
      Guarded E (bytes s) appended exit exit' (bytes s') := by
  have cut : bytes (Growable.truncate vec (bytes s).length) = bytes s := by
    rw [Growable.bytes_truncate,appends,List.take_left]
  have whole : bytes (Growable.truncate vec (bytes vec).length) = bytes s ++ appended := by
    rw [Growable.bytes_truncate,List.take_length,appends]
  have new : Slice.range (bytes vec) (bytes s).length (bytes vec).length = some appended := by
    rw [Slice.range,if_pos ⟨by rw [appends,List.length_append]; omega,Nat.le_refl _⟩,
      List.take_length,appends,List.drop_left]
  have other (failed : ∀ read, exit ≠ .returned (.ok (some read))) : Guarded E (bytes s) appended exit
      exit (bytes (Growable.truncate vec (bytes s).length)) := by
    rw [cut]
    exact .other failed
  simp only [appendToString,called,Option.map_some]
  rcases exit with (e | _ | n) | _
  · exact ⟨_,_,rfl,other (by simp)⟩
  · exact ⟨_,_,rfl,other (by simp)⟩
  · simp only [new]
    split
    next valid => exact ⟨_,_,rfl,by rw [whole]; exact .kept valid⟩
    next invalid => exact ⟨_,_,rfl,by rw [cut]; exact .invalid invalid⟩
  · exact ⟨_,_,rfl,other (by simp)⟩

theorem Guarded.valid {E : ErrorKinds ε} {s s' appended : List UInt8}
    {exit exit' : Exit ε (Option Nat)} (guarded : Guarded E s appended exit exit' s')
    (valid : Utf8 s) : Utf8 s' := by
  cases guarded with
  | kept valid' => exact valid.append valid'
  | invalid | other => exact valid

/-- The string has grown exactly if the closure has said so and appended UTF-8. -/
theorem Guarded.content {E : ErrorKinds ε} {s s' appended : List UInt8}
    {exit exit' : Exit ε (Option Nat)} (guarded : Guarded E s appended exit exit' s') :
    ((∃ read, exit = .returned (.ok (some read))) ∧ Utf8 appended → s' = s ++ appended) ∧
      (¬ ((∃ read, exit = .returned (.ok (some read))) ∧ Utf8 appended) → s' = s) := by
  cases guarded with
  | kept valid => exact ⟨fun _ => rfl,fun no => absurd ⟨⟨_,rfl⟩,valid⟩ no⟩
  | invalid invalid => exact ⟨fun both => absurd both.2 invalid,fun _ => rfl⟩
  | other other => exact ⟨fun ⟨⟨read,is⟩,_⟩ => absurd is (other read),fun _ => rfl⟩

/-- A string that has been appended to is UTF-8, and holds new bytes only if the closure has
succeeded and they are UTF-8 themselves; one that is read into has no bytes left of a call that
fails, however the reader behaves. -/
theorem strings_stay_valid (E : ErrorKinds ε) {s : Vec} (valid : Utf8 s.bytes) :
    (∀ (σ : Type) (read : Vec → Option (Exit ε (Option Nat) × Vec × σ))
      (exit : Exit ε (Option Nat)) (vec : Vec) (world : σ) (appended : List UInt8),
      read s = some (exit,vec,world) → vec.bytes = s.bytes ++ appended →
      ∃ exit' s', appendToString E s read = some (exit',s',world) ∧ Utf8 s'.bytes ∧
        ((∃ read, exit = .returned (.ok (some read))) ∧ Utf8 appended →
          s'.bytes = s.bytes ++ appended) ∧
        (¬ ((∃ read, exit = .returned (.ok (some read))) ∧ Utf8 appended) →
          s'.bytes = s.bytes)) ∧
    ∀ (ρ : Type) (R : Read ρ ε) (interrupted : ρ → Bool) (A : Allocator) (rounds : Nat) (r r' : ρ)
      (exit : Exit ε Nat) (s' : Vec), readToString R E interrupted A rounds s r = some (exit,s',r') →
      Utf8 s'.bytes ∧ ((∀ n, exit ≠ .returned (.ok n)) → s'.bytes = s.bytes) ∧
        ∀ n, exit = .returned (.ok n) →
          ∃ appended, s'.bytes = s.bytes ++ appended ∧ Utf8 appended ∧ appended.length = n := by
  constructor
  · intro σ read exit vec world appended called appends
    obtain ⟨exit',s',ran,guarded⟩ := appendToString_guarded (E := E) called appends
    exact ⟨exit',s',ran,guarded.valid valid,guarded.content⟩
  · intro ρ R interrupted A rounds r r' exit s' ran
    obtain ⟨⟨outer,s'',r''⟩,called,is⟩ := Option.map_eq_some_iff.mp ran
    obtain ⟨rfl,rest⟩ := Prod.mk.inj is
    obtain ⟨rfl,rfl⟩ := Prod.mk.inj rest
    obtain ⟨⟨inner,vec,world⟩,read,_⟩ := Option.map_eq_some_iff.mp called
    obtain ⟨⟨inner',vec',r₁⟩,ended,is⟩ := Option.map_eq_some_iff.mp read
    obtain ⟨rfl,rest⟩ := Prod.mk.inj is
    obtain ⟨rfl,rfl⟩ := Prod.mk.inj rest
    obtain ⟨appended,appends,count⟩ := readToEnd_appends ended
    have appends : bytes vec' = bytes s ++ appended := appends
    obtain ⟨exit',s₁,called',guarded⟩ := appendToString_guarded (E := E) read appends
    obtain ⟨rfl,rest⟩ := Prod.mk.inj (Option.some.inj (called.symm.trans called'))
    obtain ⟨rfl,rfl⟩ := Prod.mk.inj rest
    have content : bytes s'' = s''.bytes := rfl
    have held : bytes s = s.bytes := rfl
    rw [content,held] at guarded
    refine ⟨guarded.valid valid,?_⟩
    generalize same : inner'.some_ = inner at guarded
    generalize after : s''.bytes = after at guarded
    cases guarded with
    | @kept n valid' =>
      refine ⟨fun failed => absurd rfl (failed n),fun m ok => ⟨appended,rfl,valid',?_⟩⟩
      rw [count n (Exit.of_some same)]
      exact Except.ok.inj (Exit.returned.inj ok)
    | invalid => exact ⟨fun _ => rfl,nofun⟩
    | other other => exact ⟨fun _ => rfl,fun n ok => absurd (Exit.of_unwrap ok) (other n)⟩

/-- Two bytes of an `é` and the first of another, which an error follows; the string keeps neither. -/
theorem strings_stay_valid_player : ∃ s' p',
    readToString Player.reads faults Player.cut exactAllocator 9 ⟨[97],1,by decide,by decide⟩
      ⟨[.inl 0xc3,.inl 0xa9,.inl 0xc3,.inr .broken],[],false⟩ =
        some (.returned (.error .broken),s',p') ∧ s'.bytes = [97] := by
  have called : (readToString Player.reads faults Player.cut exactAllocator 9
      ⟨[97],1,by decide,by decide⟩ ⟨[.inl 0xc3,.inl 0xa9,.inl 0xc3,.inr .broken],[],false⟩).map
      (fun (exit,_) => exit.error) = some (some .broken) := by
    decide +kernel
  obtain ⟨⟨exit,s',p'⟩,ran,is⟩ := Option.map_eq_some_iff.mp called
  obtain rfl := Exit.of_error is
  refine ⟨s',p',ran,?_⟩
  have valid : Utf8 [97] := by decide +kernel
  exact ((strings_stay_valid faults (s := ⟨[97],1,by decide,by decide⟩) valid).2 _ _ _ _ _ _ _ _ _
    ran).2.1 (by simp)

end XxCore.Io
