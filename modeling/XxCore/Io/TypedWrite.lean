import XxCore.Io.TypedStream

/-! Values of a type on a stream: `io/typed.rs` and the typed methods of `async_std/io/typed.rs`. What
was written is read back. -/
namespace XxCore.Io

open Stream' (Seq)

variable {ρ ω ε T : Type} {N : Nat}

/-- `IntoBytes<N>` and `FromBytes<N>` of a type that loses nothing in its bytes. -/
structure BytesType (T : Type) (N : Nat) where
  intoBytes : T → List UInt8
  fromBytes : List UInt8 → T
  length_intoBytes : ∀ value, (intoBytes value).length = N
  fromBytes_intoBytes : ∀ value, fromBytes (intoBytes value) = value

/-- `[u8; N]` -/
def BytesType.array (N : Nat) : BytesType (Fin N → UInt8) N where
  intoBytes array := List.ofFn array
  fromBytes bytes i := bytes.getD i 0
  length_intoBytes _ := List.length_ofFn
  fromBytes_intoBytes array := by
    funext i
    simp

/-- The number types. A float stands for its bits. -/
inductive Num where
  | i8 | u8 | i16 | u16 | i32 | u32 | i64 | u64 | i128 | u128 | f32 | f64
  deriving DecidableEq, Repr

/-- `BYTES` -/
def Num.bytes : Num → Nat
  | .i8 | .u8 => 1
  | .i16 | .u16 => 2
  | .i32 | .u32 | .f32 => 4
  | .i64 | .u64 | .f64 => 8
  | .i128 | .u128 => 16

abbrev Num.Value (num : Num) : Type := BitVec (8 * num.bytes)

/-- The type of a number in little or in big endian order, such as `u16le`. -/
def BytesType.num (num : Num) (le : Bool) : BytesType num.Value num.bytes where
  intoBytes value :=
    if le then ByteValue.toLe num.bytes value.toNat else ByteValue.toBe num.bytes value.toNat
  fromBytes bytes :=
    BitVec.ofNat _ (if le then ByteValue.ofLe bytes else ByteValue.ofBe bytes)
  length_intoBytes value := by
    cases le
    all_goals simp
  fromBytes_intoBytes value := by
    have lt := value.isLt
    rw [← ByteValue.pow_256] at lt
    cases le
    all_goals simp [ByteValue.ofLe_toLe,ByteValue.ofBe_toBe,Nat.mod_eq_of_lt lt]

/-- What `read_type` makes of the result of `try_read_type`. -/
def orUnexpectedEof (E : ErrorKinds ε) : Except ε (Option T) → Except ε T
  | .error e => .error e
  | .ok none => .error E.unexpectedEof
  | .ok (some value) => .ok value

/-- `try_read_type`. -/
def Reader.tryReadType (R : Reader ρ ε) (E : ErrorKinds ε) (interrupted : ρ → Bool)
    (type : BytesType T N) (r : ρ) : Option (Except ε (Option T) × ρ) :=
  (R.readBytesN E interrupted N r).map fun (result,r) =>
    (result.map (Option.map type.fromBytes),r)

/-- `read_type`. -/
def Reader.readType (R : Reader ρ ε) (E : ErrorKinds ε) (interrupted : ρ → Bool)
    (type : BytesType T N) (r : ρ) : Option (Except ε T × ρ) :=
  (R.tryReadType E interrupted type r).map fun (result,r) => (orUnexpectedEof E result,r)

/-- `try_read_type` of a buffered reader. -/
def BufReader.tryReadType (R : Read ρ ε) (E : ErrorKinds ε) (interrupted : ρ → Bool)
    (type : BytesType T N) (b : BufReader ρ) : Option (Except ε (Option T) × BufReader ρ) :=
  (bufReadBytes R E interrupted N b).map fun (result,b) =>
    (result.map (Option.map type.fromBytes),b)

/-- `read_type` of a buffered reader. -/
def BufReader.readType (R : Read ρ ε) (E : ErrorKinds ε) (interrupted : ρ → Bool)
    (type : BytesType T N) (b : BufReader ρ) : Option (Except ε T × BufReader ρ) :=
  (tryReadType R E interrupted type b).map fun (result,b) => (orUnexpectedEof E result,b)

/-- `write_type`. -/
def Writer.writeType (W : Writer ω ε) (E : ErrorKinds ε) (interrupted : ω → Bool)
    (type : BytesType T N) (value : T) (w : ω) : Option (Except ε Nat × ω) :=
  W.tryWriteAll E interrupted (type.intoBytes value) w

/-- `try_read_u16_le` and the like. -/
def Reader.tryReadNum (R : Reader ρ ε) (E : ErrorKinds ε) (interrupted : ρ → Bool) (num : Num)
    (le : Bool) (r : ρ) : Option (Except ε (Option num.Value) × ρ) :=
  R.tryReadType E interrupted (.num num le) r

/-- `read_u16_le` and the like. -/
def Reader.readNum (R : Reader ρ ε) (E : ErrorKinds ε) (interrupted : ρ → Bool) (num : Num)
    (le : Bool) (r : ρ) : Option (Except ε num.Value × ρ) :=
  (R.tryReadNum E interrupted num le r).map fun (result,r) => (orUnexpectedEof E result,r)

/-- `write_u16_le` and the like. -/
def Writer.writeNum (W : Writer ω ε) (E : ErrorKinds ε) (interrupted : ω → Bool) (num : Num)
    (le : Bool) (value : num.Value) (w : ω) : Option (Except ε Nat × ω) :=
  W.writeType E interrupted (.num num le) value w

/-! Values one after the other. -/

/-- A value of some type that has bytes. -/
structure Item where
  {T : Type}
  {N : Nat}
  type : BytesType T N
  value : T
  pos : 1 ≤ N

def Item.bytes (item : Item) : List UInt8 := item.type.intoBytes item.value

@[simp] theorem Item.length_bytes (item : Item) : item.bytes.length = item.N :=
  item.type.length_intoBytes item.value

/-- A number as an item. -/
def Item.num (num : Num) (le : Bool) (value : num.Value) : Item where
  type := .num num le
  value := value
  pos := by
    cases num
    all_goals decide

/-- The bytes of some values. -/
def content (items : List Item) : List UInt8 := items.flatMap Item.bytes

@[simp] theorem content_cons (item : Item) (items : List Item) :
    content (item :: items) = item.bytes ++ content items := rfl

/-- Values are written one after the other; what the calls return. -/
def Writer.writeItems (W : Writer ω ε) (E : ErrorKinds ε) (interrupted : ω → Bool) :
    List Item → ω → Option (List (Except ε Nat) × ω)
  | [],w => some ([],w)
  | item :: items,w => (W.writeType E interrupted item.type item.value w).bind fun (result,w) =>
    (W.writeItems E interrupted items w).map fun (results,w) => (result :: results,w)

/-- The values are read, one after the other. -/
inductive Reads (read : (item : Item) → ρ → Option (Except ε item.T × ρ)) :
    List Item → ρ → ρ → Prop where
  | nil {r : ρ} : Reads read [] r r
  | cons {item : Item} {items : List Item} {r r' r'' : ρ}
      (one : read item r = some (.ok item.value,r')) (rest : Reads read items r' r'') :
      Reads read (item :: items) r r''

/-- A stream with the first `n` bytes of some values gives those values that it has as a whole. Where
there is no next one, that is reported as the end of the stream, or as an error if there are some of
its bytes. -/
structure ReadsBack (E : ErrorKinds ε) (items : List Item) (n : Nat)
    (tryRead : (item : Item) → ρ → Option (Except ε (Option item.T) × ρ))
    (read : (item : Item) → ρ → Option (Except ε item.T × ρ)) (held : ρ → Seq UInt8)
    (good : ρ → Prop) (interrupted : ρ → Bool) : Prop where
  whole : ∀ r rest, good r → n = (content items).length →
    held r = (Seq.ofList ((content items).take n)).append rest →
    ∃ r', Reads read items r r' ∧ held r' = rest
  cut : ∀ r, good r → n < (content items).length → held r = Seq.ofList ((content items).take n) →
    ∃ before item after r' r'', items = before ++ item :: after ∧ Reads read before r r' ∧
      (content before).length ≤ n ∧ n < (content before).length + item.N ∧
      tryRead item r' = some (if interrupted r'' then .error E.interrupted
        else if n = (content before).length then .ok none else .error E.unexpectedEof,r'')

section Write

variable {W : Writer ω ε} {E : ErrorKinds ε} {taken : ω → List UInt8} {room : ω → ℕ∞}

theorem tryWriteAll_takes (takes : W.Takes taken room) (interrupted : ω → Bool) (w : ω)
    {buf : List UInt8} (some_ : buf ≠ []) :
    ∃ (n : Nat) (w' : ω),
      W.tryWriteAll E interrupted buf w = some (checkInterruptIfZero E interrupted w' n,w') ∧
      (n : ℕ∞) = min (buf.length : ℕ∞) (room w) ∧ taken w' = taken w ++ buf.take n ∧
      room w = n + room w' := by
  obtain ⟨sound,gives⟩ := scalar_gives (E := E) takes
  obtain ⟨result,buf',w',ran,_⟩ := transferAll_sound interrupted sound (r := w) trivial buf
  obtain ⟨n,stop,cut,run,rfl,is⟩ := transferAll_run some_ ran
  obtain ⟨count,written,_,stopped⟩ := gives.run run
  have result_ : result = checkInterruptIfZero E interrupted w' n := by
    rcases stopped with rfl | rfl
    all_goals exact is
  refine ⟨n,w',?_,count,written,gives.run_room run⟩
  rw [Writer.tryWriteAll,ran,result_]
  rfl

theorem Item.bytes_ne_nil (item : Item) : item.bytes ≠ [] := by
  have pos := item.pos
  rw [← item.length_bytes] at pos
  exact List.ne_nil_of_length_pos pos

/-- What there is room for is written. By induction on the values: once one of them is not written as
a whole, there is no room left. -/
theorem writeItems_takes (takes : W.Takes taken room) (interrupted : ω → Bool) (items : List Item)
    (w : ω) :
    ∃ (n : Nat) (results : List (Except ε Nat)) (w' : ω),
      W.writeItems E interrupted items w = some (results,w') ∧
      (n : ℕ∞) = min ((content items).length : ℕ∞) (room w) ∧
      taken w' = taken w ++ (content items).take n ∧
      (n = (content items).length → results = items.map fun item => .ok item.N) := by
  induction items generalizing w with
  | nil => exact ⟨0,[],w,rfl,by simp [content],by simp,fun _ => rfl⟩
  | cons item items ih =>
    obtain ⟨n,w₁,ran,count,written,space⟩ :=
      tryWriteAll_takes (E := E) takes interrupted w item.bytes_ne_nil
    obtain ⟨m,results,w',more,count',written',all⟩ := ih w₁
    rw [Item.length_bytes] at count
    have few : n ≤ item.N := by
      rw [← Nat.cast_le (α := ℕ∞),count]
      exact min_le_left _ _
    have fewer : m ≤ (content items).length := by
      rw [← Nat.cast_le (α := ℕ∞),count']
      exact min_le_left _ _
    have called : W.writeItems E interrupted (item :: items) w =
        some (checkInterruptIfZero E interrupted w₁ n :: results,w') := by
      rw [Writer.writeItems,Writer.writeType]
      rw [Item.bytes] at ran
      rw [ran,Option.bind_some]
      dsimp only
      rw [more]
      rfl
    rw [content_cons,List.length_append,Item.length_bytes,Nat.cast_add]
    by_cases whole : n = item.N
    · subst whole
      refine ⟨item.N + m,_,w',called,?_,?_,fun full => ?_⟩
      · rw [space,min_add_add_left,← count',Nat.cast_add]
      · rw [written',written,List.take_of_length_le (Nat.le_of_eq item.length_bytes),
          ← item.length_bytes,List.take_length_add_append,List.append_assoc]
      · rw [all (Nat.add_left_cancel full),checkInterruptIfZero_eq,if_neg]
        · rfl
        · have := item.pos
          omega
    · have full : room w = n := by
        rcases min_choice (item.N : ℕ∞) (room w) with is | is
        · rw [is] at count
          exact absurd (Nat.cast_inj.mp count) whole
        · exact (count.trans is).symm
      have none : room w₁ = 0 := by
        apply ENat.add_right_injective_of_ne_top (ENat.natCast_ne_top n)
        exact (space.symm.trans full).trans (add_zero _).symm
      have nothing : m = 0 := by
        rw [none] at count'
        simpa using count'
      subst nothing
      refine ⟨n,_,w',called,?_,?_,fun full => ?_⟩
      · rw [full,min_eq_right]
        exact_mod_cast Nat.le_trans few (Nat.le_add_right _ _)
      · rw [written',written,List.take_zero,List.append_nil,
          List.take_append_of_le_length (by rw [Item.length_bytes]; exact few)]
      · omega

end Write

section Read

/-- Typed reads that take their bytes from a stream. -/
def Supplies (E : ErrorKinds ε) (tryRead : (item : Item) → ρ → Option (Except ε (Option item.T) × ρ))
    (held : ρ → Seq UInt8) (good : ρ → Prop) (interrupted : ρ → Bool) : Prop :=
  ∀ item r, good r → ∃ r', tryRead item r =
      some ((typedResult E (interrupted r') item.N ((held r).take item.N)
        ((held r).take item.N)).map (Option.map item.type.fromBytes),r') ∧
    good r' ∧ held r' = (held r).drop ((held r).take item.N).length

variable {E : ErrorKinds ε}
  {tryRead : (item : Item) → ρ → Option (Except ε (Option item.T) × ρ)}
  {read : (item : Item) → ρ → Option (Except ε item.T × ρ)} {held : ρ → Seq UInt8} {good : ρ → Prop}
  {interrupted : ρ → Bool} {r : ρ}

theorem Supplies.item (supplies : Supplies E tryRead held good interrupted) (start : good r)
    {item : Item} {rest : Seq UInt8} (stream : held r = (Seq.ofList item.bytes).append rest) :
    ∃ r', tryRead item r = some (.ok (some item.value),r') ∧ good r' ∧ held r' = rest := by
  obtain ⟨r',ran,good',left⟩ := supplies item r start
  have taken := Pump.take_ofList_append item.bytes rest 0
  have dropped := Pump.drop_ofList_append item.bytes rest 0
  rw [Nat.add_zero,← stream] at taken dropped
  rw [Seq.take_zero,List.append_nil,Item.length_bytes] at taken
  rw [taken] at ran left
  refine ⟨r',?_,good',left.trans dropped⟩
  rw [ran,typedResult,if_neg item.bytes_ne_nil,if_neg (by rw [Item.length_bytes]; omega)]
  simp only [Except.map,Option.map_some,Item.bytes,item.type.fromBytes_intoBytes]

/-- The stream ends before the value does. -/
theorem Supplies.short (supplies : Supplies E tryRead held good interrupted) (start : good r)
    {item : Item} {bytes : List UInt8} (stream : held r = Seq.ofList bytes)
    (short : bytes.length < item.N) :
    ∃ r', tryRead item r = some (if interrupted r' then .error E.interrupted
      else if bytes = [] then .ok none else .error E.unexpectedEof,r') := by
  obtain ⟨r',ran,_,_⟩ := supplies item r start
  have taken : (held r).take item.N = bytes := by
    have := Pump.take_ofList_append bytes .nil (item.N - bytes.length)
    rw [Seq.append_nil,← stream,Seq.take_nil,List.append_nil] at this
    rw [← this]
    congr 1
    omega
  refine ⟨r',ran.trans ?_⟩
  rw [taken,typedResult,if_pos short]
  cases interrupted r'
  all_goals
    by_cases empty : bytes = []
    all_goals simp [empty,Except.map]

variable (reads : ∀ item r, read item r =
  (tryRead item r).map fun (result,r) => (orUnexpectedEof E result,r))
include reads

theorem Supplies.items (supplies : Supplies E tryRead held good interrupted) {items : List Item}
    {rest : Seq UInt8} (start : good r) (stream : held r = (Seq.ofList (content items)).append rest) :
    ∃ r', Reads read items r r' ∧ good r' ∧ held r' = rest := by
  induction items generalizing r with
  | nil =>
    refine ⟨r,.nil,start,stream.trans ?_⟩
    rw [content,List.flatMap_nil,Seq.ofList_nil,Seq.nil_append]
  | cons item items ih =>
    rw [content_cons,Seq.ofList_append,Seq.append_assoc] at stream
    obtain ⟨r₁,ran,good₁,left⟩ := supplies.item start stream
    obtain ⟨r',rest,done⟩ := ih good₁ left
    refine ⟨r',.cons ?_ rest,done⟩
    rw [reads,ran]
    rfl

theorem Supplies.cut (supplies : Supplies E tryRead held good interrupted) {items : List Item}
    {n : Nat} (start : good r) (short : n < (content items).length)
    (stream : held r = Seq.ofList ((content items).take n)) :
    ∃ before item after r' r'', items = before ++ item :: after ∧ Reads read before r r' ∧
      (content before).length ≤ n ∧ n < (content before).length + item.N ∧
      tryRead item r' = some (if interrupted r'' then .error E.interrupted
        else if n = (content before).length then .ok none else .error E.unexpectedEof,r'') := by
  induction items generalizing r n with
  | nil => exact absurd short (Nat.not_lt_zero _)
  | cons item items ih =>
    rw [content_cons,List.length_append,Item.length_bytes] at short
    by_cases part : n < item.N
    · rw [content_cons,List.take_append_of_le_length
        (by rw [Item.length_bytes]; exact Nat.le_of_lt part)] at stream
      have length : (item.bytes.take n).length = n :=
        List.length_take_of_le (by rw [Item.length_bytes]; exact Nat.le_of_lt part)
      obtain ⟨r',ran⟩ := supplies.short start stream (length.symm ▸ part)
      refine ⟨[],item,items,r,r',rfl,.nil,Nat.zero_le _,by simpa [content] using part,?_⟩
      have empty : item.bytes.take n = [] ↔ n = (content []).length := by
        rw [← List.length_eq_zero_iff,length]
        rfl
      simpa only [empty] using ran
    · obtain ⟨m,rfl⟩ := Nat.exists_eq_add_of_le (Nat.le_of_not_lt part)
      have split : (content (item :: items)).take (item.N + m) =
          item.bytes ++ (content items).take m := by
        rw [content_cons,← item.length_bytes,List.take_length_add_append]
      rw [split,Seq.ofList_append] at stream
      obtain ⟨r₁,ran,good₁,left⟩ := supplies.item start stream
      obtain ⟨before,next,after,r',r'',is,done,fits,more,last⟩ := ih good₁ (by omega) left
      refine ⟨item :: before,next,after,r',r'',by rw [is]; rfl,.cons ?_ done,?_,?_,?_⟩
      · rw [reads,ran]
        rfl
      · rw [content_cons,List.length_append,Item.length_bytes]
        omega
      · rw [content_cons,List.length_append,Item.length_bytes]
        omega
      · rw [content_cons,List.length_append,Item.length_bytes]
        simpa only [Nat.add_left_cancel_iff] using last

theorem Supplies.readsBack (supplies : Supplies E tryRead held good interrupted) (items : List Item)
    (n : Nat) : ReadsBack E items n tryRead read held good interrupted where
  whole r rest start full stream := by
    rw [full,List.take_length] at stream
    obtain ⟨r',done,_,left⟩ := supplies.items reads start stream
    exact ⟨r',done,left⟩
  cut r start short stream := supplies.cut reads start short stream

end Read

section Readers

variable {E : ErrorKinds ε}

theorem readBytesN_good {R : Reader ρ ε} {interrupted : ρ → Bool} {held : ρ → Seq UInt8}
    {good : ρ → Prop} {r r' : ρ} {result : Except ε (Option (List UInt8))} (holds : R.Holds held good)
    (start : good r) (pos : 1 ≤ N) (ran : R.readBytesN E interrupted N r = some (result,r')) :
    good r' := by
  have some_ : List.replicate N (0 : UInt8) ≠ [] := by
    rw [Ne,List.replicate_eq_nil_iff]
    omega
  obtain ⟨buf,next,read,good',_⟩ := tryReadFully_holds (E := E) interrupted holds start some_
  obtain ⟨⟨_,_,_⟩,bytes,is⟩ := Option.map_eq_some_iff.mp ran
  suffices same : ∀ answer bytes' r'',
      R.readBytes E interrupted (List.replicate N 0) r = some (answer,bytes',r'') → r'' = next by
    obtain rfl := same _ _ _ bytes
    split at is
    all_goals
      obtain rfl := (Prod.mk.inj is).2
      rename_i eq
      obtain rfl := (Prod.mk.inj (Prod.mk.inj eq).2).2
      exact good'
  intro answer bytes' r'' ran
  rw [Reader.readBytes,read,Option.bind_some] at ran
  split at ran
  · rename_i eq
    obtain ⟨_,rest⟩ := Prod.mk.inj eq
    obtain ⟨rfl,rfl⟩ := Prod.mk.inj rest
    exact (Prod.mk.inj (Prod.mk.inj (Option.some.inj ran)).2).2.symm
  · rename_i eq
    obtain ⟨_,rest⟩ := Prod.mk.inj eq
    obtain ⟨rfl,rfl⟩ := Prod.mk.inj rest
    obtain ⟨_,_,is⟩ := Option.map_eq_some_iff.mp ran
    split at is
    all_goals exact (Prod.mk.inj (Prod.mk.inj is).2).2.symm

theorem reader_supplies {R : Reader ρ ε} {held : ρ → Seq UInt8} {good : ρ → Prop}
    (holds : R.Holds held good) (interrupted : ρ → Bool) :
    Supplies E (fun item => R.tryReadType E interrupted item.type) held good interrupted := by
  intro item r start
  obtain ⟨r',ran,left⟩ := readBytesN_holds (E := E) interrupted holds start item.pos
  refine ⟨r',?_,readBytesN_good holds start item.pos ran,left⟩
  exact congrArg (Option.map _) ran

theorem bufReader_supplies {R : Read ρ ε} {held : ρ → Seq UInt8}
    (holds : R.reader.Holds held fun _ => True) (interrupted : ρ → Bool) :
    Supplies E (fun item => BufReader.tryReadType R E interrupted item.type)
      (BufReader.remaining held) BufReader.Valid (fun b => interrupted b.reader) := by
  intro item b valid
  obtain ⟨b',ran,good,left⟩ :=
    reader_supplies (E := E) (BufReader.reads_holds holds) (fun b => interrupted b.reader) item b valid
  refine ⟨b',?_,good,left⟩
  exact (congrArg (Option.map _) (BufReader.bufReadBytes_eq valid item.pos)).trans ran

end Readers

/-- Values of any types that are written one after the other, to a writer that takes bytes in parts of
any size: it gets the first bytes of them that it has room for, and every call that there is room for
says so. A plain reader and a buffered one that give these bytes, in parts of any size, read the values
back that were written as a whole, and then report where the stream ends. -/
theorem typed_round_trip {W : Writer ω ε} {taken : ω → List UInt8} {room : ω → ℕ∞}
    (takes : W.Takes taken room) (E : ErrorKinds ε) (interrupted : ω → Bool) (items : List Item)
    (w : ω) :
    ∃ (n : Nat) (results : List (Except ε Nat)) (w' : ω),
      W.writeItems E interrupted items w = some (results,w') ∧
      (n : ℕ∞) = min ((content items).length : ℕ∞) (room w) ∧
      taken w' = taken w ++ (content items).take n ∧
      (n = (content items).length → results = items.map fun item => .ok item.N) ∧
      (∀ (ρ : Type) (R : Reader ρ ε) (cut : ρ → Bool) (held : ρ → Seq UInt8) (good : ρ → Prop),
        R.Holds held good → ReadsBack E items n (fun item => R.tryReadType E cut item.type)
          (fun item => R.readType E cut item.type) held good cut) ∧
      ∀ (ρ : Type) (R : Read ρ ε) (cut : ρ → Bool) (held : ρ → Seq UInt8),
        R.reader.Holds held (fun _ => True) →
          ReadsBack E items n (fun item => BufReader.tryReadType R E cut item.type)
            (fun item => BufReader.readType R E cut item.type) (BufReader.remaining held)
            BufReader.Valid fun b => cut b.reader := by
  obtain ⟨n,results,w',ran,count,written,all⟩ := writeItems_takes (E := E) takes interrupted items w
  refine ⟨n,results,w',ran,count,written,all,?_,?_⟩
  · intro ρ R cut held good holds
    exact (reader_supplies holds cut).readsBack (fun _ _ => rfl) items n
  · intro ρ R cut held holds
    exact (bufReader_supplies holds cut).readsBack (fun _ _ => rfl) items n

/-- A number in big and one in little endian order, written and read back byte by byte. -/
theorem typed_round_trip_numbers : ∃ (w' : Tank) (r' : Chunks),
    (Tank.writes (ε := PlayerError)).writeItems faults (fun _ => false)
      [.num .u16 false 0x0102,.num .i32 true 7] ⟨[9],6,[]⟩ = some ([.ok 2,.ok 4],w') ∧
    w'.got = [9,1,2,7,0,0,0] ∧
    Reads (fun item => Chunks.reads.reader.readType faults (fun _ => false) item.type)
      [.num .u16 false 0x0102,.num .i32 true 7] ⟨[1,2,7,0,0,0],[]⟩ r' := by
  obtain ⟨n,results,w',ran,count,written,all,plain,_⟩ :=
    typed_round_trip (tank_takes (ε := PlayerError)) faults (fun _ => false)
      [.num .u16 false 0x0102,.num .i32 true 7] ⟨[9],6,[]⟩
  have bytes : content [.num .u16 false 0x0102,.num .i32 true 7] = [1,2,7,0,0,0] := by
    decide
  rw [bytes] at count written all
  obtain rfl : n = 6 := by
    have : (n : ℕ∞) = (6 : Nat) := count.trans (min_self _)
    exact_mod_cast this
  have back := plain _ _ (fun _ => false) _ _ (follows_holds (chunks_follow (ε := PlayerError)))
  obtain ⟨r',reads,_⟩ := back.whole ⟨[1,2,7,0,0,0],[]⟩ .nil trivial (by rw [bytes]; rfl)
    (by rw [bytes,Seq.append_nil]; rfl)
  have returned : results = [.ok 2,.ok 4] := all rfl
  rw [returned] at ran
  exact ⟨w',r',ran,written,reads⟩

end XxCore.Io
