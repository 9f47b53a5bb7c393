import XxCore.Io.BufWriterSteps
import XxCore.Io.RawWriter

/-! Seeks of the buffered writer. A seek that stays in the window moves its end, which gives up the
bytes behind it, and takes the window's start for the position; one that goes by an absolute
position counts from the end of the buffer instead of the window's. -/
namespace XxCore.Io.BufWriter

open RawWriter (Op)

variable {ω ε : Type} {σ : Type u} {W : Write ω ε} {E : Errors ε} {K : Seek ω ε}
  {M : Medium σ UInt8} {content : ω → σ} {pos : ω → Nat}

/-- The stream that the buffered writer stands for: the window is written, the position is behind. -/
def stream (M : Medium σ UInt8) (content : ω → σ) (pos : ω → Nat) (b : BufWriter ω) : σ × Nat :=
  M.advance (content b.writer,pos b.writer) b.pending

theorem stream_of_empty {b : BufWriter ω} (empty : b.pending = []) :
    stream M content pos b = (content b.writer,pos b.writer) := by
  rw [stream,empty,Medium.advance_nil]

theorem stream_position (b : BufWriter ω) :
    (stream M content pos b).2 = pos b.writer + b.pending.length := rfl

theorem length_le_stream (b : BufWriter ω) :
    M.length (content b.writer) ≤ M.length (stream M content pos b).1 :=
  M.length_le_advance (content b.writer,pos b.writer) b.pending

theorem Extended.stream {b next : BufWriter ω} {new : List UInt8} (extended : Extended b next new) :
    stream M content pos next = M.advance (stream M content pos b) new := by
  rw [BufWriter.stream,extended.writer,extended.pending,Medium.advance_append]
  rfl

/-- A successful flush leaves the stream as it was. -/
theorem Flushes.stream {b next : BufWriter ω} (flushes : Flushes W E b (.ok ()) next)
    (seekable : SeekableWriter W K M content pos) (valid : b.Valid) :
    stream M content pos next = stream M content pos b := by
  generalize is : (Except.ok () : Except ε Unit) = result at flushes
  induction flushes with
  | done empty =>
    rw [stream_of_empty empty,stream_of_empty (pending_discard _)]
    rfl
  | failed | zero => contradiction
  | @more w n b result next ran le rest ih =>
    rw [ih (valid.advance le w) is]
    simp only [BufWriter.stream,pending_advance]
    rw [seekable.write ran,Medium.advance_take_drop]

theorem Writes.stream {b next : BufWriter ω} {buf : List UInt8} {n : Nat}
    (writes : Writes W E b buf (.ok n) next) (seekable : SeekableWriter W K M content pos)
    (valid : b.Valid) :
    n ≤ buf.length ∧ stream M content pos next = M.advance (stream M content pos b) (buf.take n) := by
  cases writes with
  | buffered le extended => exact ⟨le,extended.stream⟩
  | direct flushes ran =>
    have empty := flushes.empty valid
    have same := flushes.stream seekable valid
    have count := seekable.bounded _ _ n (congrArg Prod.fst ran)
    refine ⟨count,?_⟩
    rw [← same,stream_of_empty empty,stream_of_empty ((pending_writer _ _).trans empty)]
    exact seekable.write ran
  | flushed flushes le extended =>
    refine ⟨le,?_⟩
    rw [extended.stream,flushes.stream seekable valid]

/-- A seek of the writer, after the window was written. -/
theorem seekInner_stream {b next : BufWriter ω} {goal : SeekFrom} {p : UInt64}
    (seekable : SeekableWriter W K M content pos) (valid : b.Valid)
    (ran : seekInner W E K b goal = some (.ok p,next)) :
    next.Valid ∧ next.capacity = b.capacity ∧
      goal.target (M.length (stream M content pos b).1) (stream M content pos b).2 = p.toNat ∧
      stream M content pos next = ((stream M content pos b).1,p.toNat) := by
  obtain ⟨result,middle,called,flushes⟩ := flushBuf_flushes (E := E) seekable.bounded valid
  rw [seekInner,called,Option.map_some] at ran
  cases result with
  | error e => exact absurd (Prod.mk.inj (Option.some.inj ran)).1 nofun
  | ok =>
    obtain ⟨valid',capacity,_⟩ := flushes.kept valid
    have empty := flushes.empty valid
    have same := flushes.stream seekable valid
    rw [stream_of_empty empty] at same
    obtain ⟨is,rfl⟩ := Prod.mk.inj (Option.some.inj ran)
    obtain ⟨target,kept,moved⟩ := seekable.seek (Prod.ext is rfl)
    rw [← same]
    refine ⟨⟨valid'.le,valid'.bound,valid'.small⟩,capacity,target,?_⟩
    rw [stream_of_empty ((pending_writer _ _).trans empty),kept,moved]

/-- A relative seek that the code takes to end in the window. -/
def Inside (b : BufWriter ω) (rel : Int) : Prop := 0 ≤ rel ∧ rel ≤ b.pending.length

instance (b : BufWriter ω) (rel : Int) : Decidable (Inside b rel) :=
  inferInstanceAs (Decidable (_ ∧ _))

theorem streamPosition_stream {b next : BufWriter ω} {p : UInt64}
    (seekable : SeekableWriter W K M content pos)
    (ran : streamPosition K b = some (.ok p,next)) :
    p.toNat = pos b.writer + b.capacity ∧ ∃ w, next = { b with writer := w } ∧
      content w = content b.writer ∧ pos w = pos b.writer := by
  rw [streamPosition] at ran
  rcases called : K.streamPosition b.writer with ⟨e | q,w⟩
  · simp [called] at ran
  · obtain ⟨is,kept,same⟩ := seekable.position called
    simp only [called] at ran
    obtain ⟨sum,added,eq⟩ := Option.map_eq_some_iff.mp ran
    rw [add,Option.ite_none_right_eq_some] at added
    obtain ⟨fits,sum⟩ := added
    obtain rfl := Option.some.inj sum
    obtain ⟨found,rfl⟩ := Prod.mk.inj eq
    obtain rfl := Except.ok.inj found
    refine ⟨?_,w,rfl,kept,same⟩
    rw [UInt64.toNat_ofNat_of_lt' (by simp only [UInt64.size]; exact fits),is]
    rfl

/-- Where a relative seek goes: into the window, whose end it moves, or to the writer. -/
inductive SeeksRelative (W : Write ω ε) (E : Errors ε) (K : Seek ω ε) (M : Medium σ UInt8)
    (content : ω → σ) (pos : ω → Nat) (b : BufWriter ω) (rel : Int64) (next : BufWriter ω) : Prop where
  | inside (inside : Inside b rel.toInt) (valid : next.Valid) (capacity : next.capacity = b.capacity)
    (stream : stream M content pos next =
      M.advance (content b.writer,pos b.writer) (b.pending.take rel.toInt.toNat)) :
    SeeksRelative W E K M content pos b rel next
  | outside (outside : ¬ Inside b rel.toInt)
    (ran : seekInner W E K b (.current rel) = some (.ok p,next)) :
    SeeksRelative W E K M content pos b rel next

theorem seekRelative_seeks {b next : BufWriter ω} {rel : Int64} {p : UInt64}
    (seekable : SeekableWriter W K M content pos) (valid : b.Valid)
    (ran : seekRelative W E K b rel = some (.ok p,next)) :
    SeeksRelative W E K M content pos b rel next := by
  have length := valid.length_pending
  have le := valid.le
  have bound := valid.bound
  have small := valid.small
  rw [isizeMax] at small
  have start : (Int64.ofNat b.start).toInt = b.start := Int64.toInt_ofNat_of_lt (by omega)
  have stop : (Int64.ofNat b.stop).toInt = b.stop := Int64.toInt_ofNat_of_lt (by omega)
  have lower := rel.le_toInt
  have upper := rel.toInt_lt
  rw [seekRelative,start,stop] at ran
  split at ran
  · rename_i overflow
    refine .outside ?_ ran
    rw [checkedI64,ite_eq_right_iff] at overflow
    have := mt overflow (by simp)
    rintro ⟨above,below⟩
    omega
  · rename_i target checked
    have value := toInt_of_checkedI64 checked
    split at ran
    · rename_i beyond
      refine .outside ?_ ran
      rintro ⟨above,below⟩
      omega
    · rename_i within
      have inside : Inside b rel.toInt := ⟨by omega,by omega⟩
      obtain ⟨_,w,rfl,kept,same⟩ := streamPosition_stream seekable ran
      have stop : target.toInt.toNat = b.start + rel.toInt.toNat := by omega
      refine .inside inside ⟨?_,?_,valid.small⟩ rfl ?_
      · simp only
        omega
      · simp only
        omega
      · rw [BufWriter.stream,stop,pending_truncate valid (by have := inside.2; omega)]
        simp only [kept,same]

/-- Where a relative seek ends. -/
theorem SeeksRelative.position {b next : BufWriter ω} {rel : Int64}
    (seeks : SeeksRelative W E K M content pos b rel next)
    (seekable : SeekableWriter W K M content pos) (valid : b.Valid) :
    ((stream M content pos next).2 : Int) = pos b.writer + rel.toInt +
      if Inside b rel.toInt then 0 else b.pending.length := by
  cases seeks with
  | inside inside _ _ stream =>
    have few := inside.2
    have above := inside.1
    rw [if_pos inside,stream]
    simp only [Medium.advance,List.length_take]
    omega
  | outside outside ran =>
    obtain ⟨_,_,target,moved⟩ := seekInner_stream seekable valid ran
    rw [if_neg outside,moved]
    simp only [SeekFrom.target,stream_position] at target
    simp only
    omega

/-- A seek that gives up no bytes of the window leaves the content as it was. -/
theorem SeeksRelative.keeps {b next : BufWriter ω} {rel : Int64}
    (seeks : SeeksRelative W E K M content pos b rel next)
    (seekable : SeekableWriter W K M content pos) (valid : b.Valid)
    (harmless : Inside b rel.toInt → b.pending = []) :
    (stream M content pos next).1 = (stream M content pos b).1 := by
  cases seeks with
  | inside inside _ _ stream =>
    rw [stream,stream_of_empty (harmless inside),harmless inside,List.take_nil,Medium.advance_nil]
  | outside _ ran => rw [(seekInner_stream seekable valid ran).2.2.2]

theorem SeeksRelative.kept {b next : BufWriter ω} {rel : Int64}
    (seeks : SeeksRelative W E K M content pos b rel next)
    (seekable : SeekableWriter W K M content pos) (valid : b.Valid) :
    next.Valid ∧ next.capacity = b.capacity := by
  cases seeks with
  | inside _ valid' capacity => exact ⟨valid',capacity⟩
  | outside _ ran =>
    obtain ⟨valid',capacity,_⟩ := seekInner_stream seekable valid ran
    exact ⟨valid',capacity⟩

/-- A seek has left the content as it was and gone to `target`. -/
def Lands (M : Medium σ UInt8) (content : ω → σ) (pos : ω → Nat) (b next : BufWriter ω)
    (target : Int) : Prop :=
  (stream M content pos next).1 = (stream M content pos b).1 ∧
    target = (stream M content pos next).2

theorem SeeksRelative.lands_iff {b next : BufWriter ω} {rel : Int64}
    (seeks : SeeksRelative W E K M content pos b rel next)
    (seekable : SeekableWriter W K M content pos) (valid : b.Valid) :
    Lands M content pos b next ((stream M content pos b).2 + rel.toInt) ↔
      b.pending = [] ∨ ¬ Inside b rel.toInt := by
  have position := seeks.position seekable valid
  rw [Lands,stream_position b,position]
  constructor
  · rintro ⟨_,target⟩
    by_cases inside : Inside b rel.toInt
    · rw [if_pos inside] at target
      exact .inl (List.length_eq_zero_iff.mp (by omega))
    · exact .inr inside
  · intro right
    refine ⟨seeks.keeps seekable valid fun inside => right.resolve_right (not_not_intro inside),?_⟩
    rcases right with empty | outside
    · simp only [empty,List.length_nil]
      split
      all_goals omega
    · rw [if_neg outside]
      omega

/-- The distance of an absolute position from where the code takes itself to be. -/
def distance (pos : ω → Nat) (b : BufWriter ω) (abs : Int) : Int :=
  abs - (pos b.writer + b.capacity)

/-- When a seek by an absolute position goes right: the buffer has no capacity, the distance is no
`i64`, or the window is the whole buffer, the seek ends outside, and the window does not make the
stream longer if the position was counted from its end. -/
def Measured (pos : ω → Nat) (b : BufWriter ω) (abs : Int) (longer : Nat) : Prop :=
  b.capacity = 0 ∨ ¬ (-2 ^ 63 ≤ distance pos b abs ∧ distance pos b abs < 2 ^ 63) ∨
    b.pending.length = b.capacity ∧ ¬ Inside b (distance pos b abs) ∧ longer = 0

theorem seekAbs_lands_iff {b next : BufWriter ω} {abs p : UInt64} {goal : SeekFrom} (target : Int)
    (longer : Nat) (seekable : SeekableWriter W K M content pos) (valid : b.Valid)
    (absolute : goal.target (M.length (stream M content pos b).1) (stream M content pos b).2 = target)
    (is : target = abs.toNat + longer) (none : b.pending = [] → longer = 0)
    (ran : seekAbs W E K b abs goal = some (.ok p,next)) :
    next.Valid ∧ next.capacity = b.capacity ∧
      (Lands M content pos b next target ↔ Measured pos b abs.toNat longer) := by
  have length := valid.length_pending
  have bound := valid.bound
  have capacity : b.capacity = b.data.length := rfl
  rw [seekAbs] at ran
  obtain ⟨⟨result | q,middle⟩,called,ran⟩ := Option.bind_eq_some_iff.mp ran
  · exact absurd (Prod.mk.inj (Option.some.inj ran)).1 nofun
  obtain ⟨here,w,rfl,kept,same⟩ := streamPosition_stream seekable called
  have stays : stream M content pos { b with writer := w } = stream M content pos b := by
    simp only [BufWriter.stream,pending_writer,kept,same]
  have valid' : Valid { b with writer := w } := ⟨valid.le,valid.bound,valid.small⟩
  have there : distance pos b abs.toNat = abs.toNat - q.toNat := by
    rw [distance,here]
    omega
  simp only at ran
  split at ran
  · rename_i rel checked
    have value := toInt_of_checkedSignedDiff checked
    have lower := rel.le_toInt
    have upper := rel.toInt_lt
    have seeks := seekRelative_seeks seekable valid' ran
    have position := seeks.position seekable valid'
    obtain ⟨next_valid,next_capacity⟩ := seeks.kept seekable valid'
    have inside : Inside { b with writer := w } rel.toInt ↔ Inside b (distance pos b abs.toNat) := by
      rw [there,← value]
      rfl
    refine ⟨next_valid,next_capacity,?_⟩
    simp only [pending_writer,inside,same] at position
    rw [Lands,Measured,position,there,← value]
    constructor
    · rintro ⟨_,target⟩
      split at target
      · exact .inl (by omega)
      · rename_i outside
        exact .inr (.inr ⟨by omega,outside,by omega⟩)
    · intro measured
      have empty (zero : b.capacity = 0) : b.pending = [] :=
        List.length_eq_zero_iff.mp (by omega)
      rcases measured with zero | far | ⟨full,outside,zero⟩
      · have nothing := none (empty zero)
        have content_ := seeks.keeps seekable valid' fun _ => empty zero
        rw [stays] at content_
        refine ⟨content_,?_⟩
        rw [empty zero,List.length_nil]
        split
        all_goals omega
      · omega
      · have content_ := seeks.keeps seekable valid' fun within =>
          absurd within outside
        rw [stays] at content_
        refine ⟨content_,?_⟩
        rw [if_neg outside]
        omega
  · rename_i overflow
    have far := far_of_checkedSignedDiff overflow
    rw [← there] at far
    obtain ⟨next_valid,next_capacity,target',moved⟩ := seekInner_stream seekable valid' ran
    rw [stays] at target' moved
    refine ⟨next_valid,next_capacity,iff_of_true ?_ (.inr (.inl far))⟩
    rw [Lands,moved]
    exact ⟨rfl,absolute.symm.trans target'⟩

/-- When a seek of the buffered writer is one of the stream. -/
def Faithful (K : Seek ω ε) (M : Medium σ UInt8) (content : ω → σ) (pos : ω → Nat)
    (b : BufWriter ω) : SeekFrom → Prop
  | .current rel => b.pending = [] ∨ ¬ Inside b rel.toInt
  | .start abs => K.streamPositionFast b.writer → Measured pos b abs.toNat 0
  | .end_ rel => K.streamPositionFast b.writer → K.streamLenFast b.writer →
      Measured pos b (M.length (content b.writer) + rel.toInt)
        (M.length (stream M content pos b).1 - M.length (content b.writer))

theorem seekInner_lands {b next : BufWriter ω} {goal : SeekFrom} {p : UInt64}
    (seekable : SeekableWriter W K M content pos) (valid : b.Valid)
    (ran : seekInner W E K b goal = some (.ok p,next)) :
    next.Valid ∧ Lands M content pos b next
      (goal.target (M.length (stream M content pos b).1) (stream M content pos b).2) := by
  obtain ⟨valid',_,target,moved⟩ := seekInner_stream seekable valid ran
  refine ⟨valid',?_⟩
  rw [Lands,moved]
  exact ⟨rfl,target⟩

/-- A successful seek is one of the stream if and only if it is faithful. -/
theorem seek_lands_iff {b next : BufWriter ω} {goal : SeekFrom} {p : UInt64}
    (seekable : SeekableWriter W K M content pos) (valid : b.Valid)
    (ran : seek W E K b goal = some (.ok p,next)) :
    next.Valid ∧ (Lands M content pos b next
      (goal.target (M.length (stream M content pos b).1) (stream M content pos b).2) ↔
        Faithful K M content pos b goal) := by
  cases goal with
  | current rel =>
    have seeks := seekRelative_seeks seekable valid ran
    exact ⟨(seeks.kept seekable valid).1,seeks.lands_iff seekable valid⟩
  | start abs =>
    simp only [seek] at ran
    split at ran
    · rename_i fast
      obtain ⟨valid',_,lands⟩ := seekAbs_lands_iff abs.toNat 0 seekable valid rfl
        (Int.add_zero _).symm (fun _ => rfl) ran
      refine ⟨valid',lands.trans ?_⟩
      exact ⟨fun measured _ => measured,fun measured => measured fast⟩
    · rename_i slow
      obtain ⟨valid',lands⟩ := seekInner_lands seekable valid ran
      exact ⟨valid',iff_of_true lands fun fast => absurd fast slow⟩
  | end_ rel =>
    simp only [seek] at ran
    split at ran
    · rename_i slow
      obtain ⟨valid',lands⟩ := seekInner_lands seekable valid ran
      exact ⟨valid',iff_of_true lands fun fast => absurd fast (by simp [slow])⟩
    split at ran
    · rename_i slow
      obtain ⟨valid',lands⟩ := seekInner_lands seekable valid ran
      exact ⟨valid',iff_of_true lands fun _ fast => absurd fast (by simp [slow])⟩
    rename_i fast fast'
    rcases called : K.streamLen b.writer with ⟨e | len,w⟩
    · simp [called] at ran
    obtain ⟨is,kept,same⟩ := seekable.len called
    simp only [called] at ran
    obtain ⟨abs,checked,ran⟩ := Option.bind_eq_some_iff.mp ran
    have value := toNat_of_checkedAddSigned checked
    have stays : stream M content pos { b with writer := w } = stream M content pos b := by
      simp only [BufWriter.stream,pending_writer,kept,same]
    have valid' : Valid { b with writer := w } := ⟨valid.le,valid.bound,valid.small⟩
    have shorter : M.length (content b.writer) ≤ M.length (stream M content pos b).1 :=
      length_le_stream b
    have closer : ((abs.toNat : Nat) : Int) = M.length (content b.writer) + rel.toInt := by omega
    obtain ⟨next_valid,_,lands⟩ := seekAbs_lands_iff
      (M.length (stream M content pos b).1 + rel.toInt)
      (M.length (stream M content pos b).1 - M.length (content b.writer))
      seekable valid' (by rw [stays]; rfl) (by omega)
      (fun empty => by rw [stream_of_empty (b := b) empty]; exact Nat.sub_self _) ran
    rw [Lands,stays] at lands
    refine ⟨next_valid,lands.trans ?_⟩
    rw [closer]
    have measured : Measured pos { b with writer := w } (M.length (content b.writer) + rel.toInt)
        (M.length (stream M content pos b).1 - M.length (content b.writer)) ↔
        Measured pos b (M.length (content b.writer) + rel.toInt)
        (M.length (stream M content pos b).1 - M.length (content b.writer)) := by
      simp only [Measured,distance,same]
      rfl
    rw [measured]
    have both : K.streamPositionFast b.writer = true ∧ K.streamLenFast b.writer = true := by
      simp only [Bool.not_eq_false] at fast fast'
      exact ⟨fast,fast'⟩
    exact ⟨fun measured _ _ => measured,fun measured => measured both.1 both.2⟩

/-- A successful write or seek. -/
def seekStep (W : Write ω ε) (E : Errors ε) (K : Seek ω ε) (b : BufWriter ω) :
    Op → Option (BufWriter ω)
  | .write buf accepted =>
    match write W E b buf with
    | some (.ok n,next) => if n = accepted then some next else none
    | _ => none
  | .seek goal =>
    match seek W E K b goal with
    | some (.ok _,next) => some next
    | _ => none

/-- The seeks of a run are faithful. -/
def FaithfulStep (K : Seek ω ε) (M : Medium σ UInt8) (content : ω → σ) (pos : ω → Nat)
    (b : BufWriter ω) : Op → Prop
  | .write _ _ => True
  | .seek goal => Faithful K M content pos b goal

theorem seekStep_stream {b next : BufWriter ω} {op : Op}
    (seekable : SeekableWriter W K M content pos) (valid : b.Valid)
    (faithful : FaithfulStep K M content pos b op) (stepped : seekStep W E K b op = some next) :
    next.Valid ∧ RawWriter.Step M (stream M content pos b) op (stream M content pos next) := by
  cases op with
  | write buf accepted =>
    simp only [seekStep] at stepped
    split at stepped
    · rename_i n after ran
      rw [Option.ite_none_right_eq_some] at stepped
      obtain ⟨rfl,same⟩ := stepped
      obtain rfl := Option.some.inj same
      obtain ⟨result,after',ran',writes⟩ := write_writes (E := E) seekable.bounded valid buf
      obtain ⟨rfl,rfl⟩ := Prod.mk.inj (Option.some.inj (ran'.symm.trans ran))
      obtain ⟨le,moved⟩ := writes.stream seekable valid
      rw [moved]
      refine ⟨?_,.write le⟩
      cases writes with
      | buffered _ extended => exact extended.valid
      | direct flushes _ =>
        have valid' := (flushes.kept valid).1
        exact ⟨valid'.le,valid'.bound,valid'.small⟩
      | flushed _ _ extended => exact extended.valid
    · contradiction
  | seek goal =>
    simp only [seekStep] at stepped
    split at stepped
    · rename_i p after ran
      obtain rfl := Option.some.inj stepped
      obtain ⟨valid',lands⟩ := seek_lands_iff seekable valid ran
      obtain ⟨content_,target⟩ := lands.mpr faithful
      refine ⟨valid',?_⟩
      have step := RawWriter.Step.seek (M := M) target
      rwa [← content_] at step
    · contradiction

/-- A run whose seeks are faithful, and a flush, do to the writer what its operations do to the
stream. -/
theorem seeks_agree (seekable : SeekableWriter W K M content pos) {w : ω} {requested allocated : Nat}
    {b c d : BufWriter ω} (made : withCapacity w requested allocated = some b) {trace : List Op}
    (path : Transition.Path (seekStep W E K) (FaithfulStep K M content pos) b trace c)
    (flushed : flush W E c = some (.ok (),d)) {final : σ × Nat} :
    RawWriter.Run M (content w,pos w) trace final ↔ final = (content d.writer,pos d.writer) := by
  obtain ⟨valid,rfl⟩ := withCapacity_eq_some made
  obtain ⟨valid',run⟩ := path.refines Valid (stream M content pos)
    (fun b op next valid faithful stepped => seekStep_stream seekable valid faithful stepped) valid
  have start : stream M content pos ⟨List.replicate allocated 0,0,0,w⟩ = (content w,pos w) :=
    stream_of_empty (by simp [pending])
  -- the flush writes the window, and nothing else
  have finish : stream M content pos c = (content d.writer,pos d.writer) := by
    obtain ⟨result,d',flushed',flush⟩ := flush_flushed (E := E) seekable.bounded valid'
    obtain ⟨rfl,rfl⟩ := Prod.mk.inj (Option.some.inj (flushed'.symm.trans flushed))
    cases flush with
    | down flushes ran =>
      obtain ⟨kept,same⟩ := seekable.flush ran
      rw [← flushes.stream seekable valid',stream_of_empty (flushes.empty valid')]
      simp only [kept,same]
  rw [start,finish] at run
  constructor
  · intro run'
    exact run'.unique run
  · rintro rfl
    exact run

instance (b : BufWriter ω) : (goal : SeekFrom) → Decidable (Faithful K M content pos b goal)
  | .current _ => inferInstanceAs (Decidable (_ ∨ ¬ _))
  | .start _ => inferInstanceAs (Decidable (_ → (_ = 0 ∨ ¬ (_ ∧ _) ∨ _ = _ ∧ ¬ _ ∧ _ = 0)))
  | .end_ _ => inferInstanceAs (Decidable (_ → _ → (_ = 0 ∨ ¬ (_ ∧ _) ∨ _ = _ ∧ ¬ _ ∧ _ = 0)))

instance (b : BufWriter ω) : (op : Op) → Decidable (FaithfulStep K M content pos b op)
  | .write _ _ => inferInstanceAs (Decidable True)
  | .seek goal => inferInstanceAs (Decidable (Faithful K M content pos b goal))

def noErrors : Errors Unit := ⟨(),fun _ => false⟩

/-- Relative seeks out of the window, and absolute ones with a window that fills the buffer. -/
def seekTrace : List Op :=
  [.write [1,2,3] 3,.seek (.current 4),.write [4,5,6,7] 4,.seek (.start 1),.write [8] 1,
    .seek (.current (-1)),.write [8,9,8,9] 4,.seek (.end_ (-1)),.write [7,7] 2]

theorem seeks_agree_file : ∃ b c d, withCapacity (⟨[],0,3⟩ : File) 4 4 = some b ∧
    Transition.run (seekStep File.writes noErrors File.seeks) seekTrace b = some c ∧
    flush File.writes noErrors c = some (.ok (),d) ∧
    (d.writer.bytes,d.writer.pos.toNat) = ([1,8,9,8,9,0,0,4,5,6,7,7],12) ∧
    RawWriter.Run (Medium.filled 0) ([],0) seekTrace (d.writer.bytes,d.writer.pos.toNat) := by
  obtain ⟨b,made⟩ : ∃ b, withCapacity (⟨[],0,3⟩ : File) 4 4 = some b := ⟨_,rfl⟩
  have finished : ((Transition.run (fun b op =>
      if decide (FaithfulStep File.seeks (Medium.filled 0) File.bytes (fun w => w.pos.toNat) b op) then
        seekStep File.writes noErrors File.seeks b op else none) seekTrace b).bind fun c =>
      (flush File.writes noErrors c).bind fun (result,d) =>
        result.toOption.map fun _ => (d.writer.bytes,d.writer.pos.toNat)) =
      some ([1,8,9,8,9,0,0,4,5,6,7,7],12) := by
    obtain rfl := Option.some.inj made
    decide +kernel
  obtain ⟨c,checked,finished⟩ := Option.bind_eq_some_iff.mp finished
  obtain ⟨⟨result,d⟩,flushed,finished⟩ := Option.bind_eq_some_iff.mp finished
  rcases result with _ | ⟨⟩
  · simp [Except.toOption] at finished
  have path := Transition.run_path_checked _ (fun _ _ => of_decide_eq_true) checked
  have run := (seeks_agree file_seekable made path flushed).mpr rfl
  exact ⟨b,c,d,made,path.executed,flushed,Option.some.inj finished,run⟩

/-- After a seek by nothing the three bytes before it are gone. -/
theorem seeks_not_always_agree : ¬ ∀ (trace : List Op) (b c d : BufWriter File),
    withCapacity ⟨[],0,3⟩ 4 4 = some b →
    Transition.Path (seekStep File.writes noErrors File.seeks) Transition.anyStep b trace c →
    flush File.writes noErrors c = some (.ok (),d) →
    RawWriter.Run (Medium.filled 0) ([],0) trace (d.writer.bytes,d.writer.pos.toNat) := by
  intro always
  obtain ⟨b,made⟩ : ∃ b, withCapacity (⟨[],0,3⟩ : File) 4 4 = some b := ⟨_,rfl⟩
  have finished : ((Transition.run (seekStep File.writes noErrors File.seeks)
      [.write [1,2,3] 3,.seek (.current 0)] b).bind fun c =>
      (flush File.writes noErrors c).bind fun (result,d) =>
        result.toOption.map fun _ => (d.writer.bytes,d.writer.pos.toNat)) = some ([],0) := by
    obtain rfl := Option.some.inj made
    decide +kernel
  obtain ⟨c,executed,finished⟩ := Option.bind_eq_some_iff.mp finished
  obtain ⟨⟨result,d⟩,flushed,finished⟩ := Option.bind_eq_some_iff.mp finished
  rcases result with _ | ⟨⟩
  · simp [Except.toOption] at finished
  have run := always _ b c d made (Transition.run_path (fun _ _ _ => trivial) executed) flushed
  have lost := Option.some.inj finished
  simp only at lost
  rw [lost] at run
  -- the stream has them, and is at position 3
  rcases run with _ | ⟨first,_ | ⟨second,rest⟩⟩
  cases first
  cases second
  cases rest

end XxCore.Io.BufWriter
