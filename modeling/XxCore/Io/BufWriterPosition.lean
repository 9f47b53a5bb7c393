import XxCore.Io.BufWriterFlow

/-! The position of the buffered writer. The code adds the size of the buffer to the position of
the writer, not that of the window, and so it is right only while the window is the whole buffer. -/
namespace XxCore.Io.BufWriter

variable {ω ε : Type}

/-- `stream_position` returns what the writer says and the size of the window behind it. -/
def Positioned (K : Seek ω ε) (b : BufWriter ω) (at_ : UInt64) : Prop :=
  ∃ p next, streamPosition K b = some (.ok p,next) ∧ p.toNat = at_.toNat + (b.stop - b.start)

/-- The window is the buffer, and its end is a position. -/
structure Full (b : BufWriter ω) (at_ : UInt64) : Prop where
  start : b.start = 0
  stop : b.stop = b.capacity
  fits : at_.toNat + b.capacity < 2 ^ 64

instance (b : BufWriter ω) (at_ : UInt64) : Decidable (Full b at_) :=
  decidable_of_iff (b.start = 0 ∧ b.stop = b.capacity ∧ at_.toNat + b.capacity < 2 ^ 64)
    ⟨fun ⟨start,stop,fits⟩ => ⟨start,stop,fits⟩,fun full => ⟨full.start,full.stop,full.fits⟩⟩

theorem streamPosition_eq {K : Seek ω ε} {b : BufWriter ω} {at_ : UInt64} {w : ω}
    (answers : K.streamPosition b.writer = (.ok at_,w)) :
    streamPosition K b = (add at_.toNat b.capacity).map fun pos => (.ok (.ofNat pos),{ b with writer := w }) := by
  simp only [streamPosition,answers,capacity]

/-- The code's answer, where it does not overflow, counts the whole buffer. -/
theorem streamPosition_counts {K : Seek ω ε} {b next : BufWriter ω} {at_ p : UInt64} {w : ω}
    (answers : K.streamPosition b.writer = (.ok at_,w))
    (ran : streamPosition K b = some (.ok p,next)) :
    at_.toNat + b.capacity < 2 ^ 64 ∧ p.toNat = at_.toNat + b.capacity := by
  rw [streamPosition_eq answers] at ran
  obtain ⟨sum,added,eq⟩ := Option.map_eq_some_iff.mp ran
  rw [add,Option.ite_none_right_eq_some] at added
  obtain ⟨fits,sum⟩ := added
  obtain rfl := Option.some.inj sum
  obtain rfl := Except.ok.inj (Prod.mk.inj eq).1
  exact ⟨fits,UInt64.toNat_ofNat_of_lt' (by simp only [UInt64.size]; exact fits)⟩

theorem positioned_iff_full {K : Seek ω ε} {b : BufWriter ω} {at_ : UInt64} {w : ω} (valid : b.Valid)
    (answers : K.streamPosition b.writer = (.ok at_,w)) : Positioned K b at_ ↔ Full b at_ := by
  have le := valid.le
  have bound : b.stop ≤ b.capacity := valid.bound
  constructor
  · rintro ⟨p,next,ran,right⟩
    obtain ⟨fits,counted⟩ := streamPosition_counts answers ran
    exact ⟨by omega,by omega,fits⟩
  · intro full
    have ran := streamPosition_eq answers
    rw [add_of_lt full.fits,Option.map_some] at ran
    obtain ⟨_,counted⟩ := streamPosition_counts answers ran
    refine ⟨_,_,ran,?_⟩
    rw [counted,full.start,full.stop,Nat.sub_zero]

/-- In every run, also through flushes that fail midway, the window holds the bytes that were
accepted and not written yet, and `stream_position` is right exactly if it is the whole buffer. -/
theorem streamPosition_right_iff {W : Write ω ε} {E : Errors ε} {K : Seek ω ε}
    {accepted : ω → List UInt8} (accepts : W.Accepts accepted) {w w' : ω} {buf : Vec} {pos : Nat}
    {b : BufWriter ω} (made : fromParts w buf pos = some b) {calls : List (Call ε)} {c : Flow ω}
    (path : Transition.Path (step W E) Transition.anyStep ⟨b,[]⟩ calls c) {at_ : UInt64}
    (answers : K.streamPosition c.buf.writer = (.ok at_,w')) :
    (accepted c.buf.writer).length + (c.buf.stop - c.buf.start) =
        (accepted w ++ b.pending ++ c.taken).length ∧
      (Positioned K c.buf at_ ↔ Full c.buf at_) := by
  have writer : b.writer = w := by
    rw [fromParts,Option.ite_none_right_eq_some] at made
    obtain rfl := Option.some.inj made.2
    rfl
  have balanced : Balanced accepted (accepted w ++ b.pending) b.capacity c := by
    apply path.invariant (Balanced accepted (accepted w ++ b.pending) b.capacity)
    · intro c call next balanced _ stepped
      exact balanced.step accepts stepped
    · exact ⟨fromParts_valid made,rfl,by rw [writer,List.append_nil]⟩
  refine ⟨?_,positioned_iff_full balanced.valid answers⟩
  rw [← balanced.account,List.length_append,balanced.valid.length_pending]

/-- A sink tells its position, and cannot seek. -/
def Sink.seeks : Seek Sink Unit where
  seek s _ := (.error (),s)
  streamLenFast _ := false
  streamLen s := (.error (),s)
  streamPositionFast _ := true
  streamPosition s := (.ok (.ofNat s.got.length),s)

/-- A buffer that was filled after a flush that failed midway and was taken up again. -/
def fillCalls : List (Call Unit) := [.write [1,2,3],.flush,.flush,.write [4,5,6,7]]

theorem streamPosition_right_sink : ∃ b c,
    fromParts (⟨[],[some 1,none]⟩ : Sink) ⟨[],4,Nat.zero_le _,by decide⟩ 0 = some b ∧
    Transition.run (step Sink.writes interruptible) fillCalls ⟨b,[]⟩ = some c ∧
    c.buf.writer.got = [1,2,3] ∧ Positioned Sink.seeks c.buf 3 := by
  obtain ⟨b,made⟩ : ∃ b,
      fromParts (⟨[],[some 1,none]⟩ : Sink) ⟨[],4,Nat.zero_le _,by decide⟩ 0 = some b := ⟨_,rfl⟩
  have filled : ((Transition.run (step Sink.writes interruptible) fillCalls ⟨b,[]⟩).map fun c =>
      (c.buf.writer.got,decide (Full c.buf 3))) = some ([1,2,3],true) := by
    obtain rfl := Option.some.inj made
    decide +kernel
  obtain ⟨c,executed,is⟩ := Option.map_eq_some_iff.mp filled
  obtain ⟨got,full⟩ := Prod.mk.inj is
  have path := Transition.run_path (fun _ _ _ => trivial) executed
  have answers : Sink.seeks.streamPosition c.buf.writer = (.ok 3,c.buf.writer) := by
    simp only [Sink.seeks,got]
    rfl
  exact ⟨b,c,made,executed,got,
    (streamPosition_right_iff sink_accepts made path answers).2.mpr (of_decide_eq_true full)⟩

/-- After a flush that has written one of three bytes the position is 3; the code says 5. -/
theorem streamPosition_not_always_right : ¬ ∀ (calls : List (Call Unit)) (b : BufWriter Sink)
    (c : Flow Sink) (at_ : UInt64), withCapacity ⟨[],[some 1,none]⟩ 4 4 = some b →
    Transition.Path (step Sink.writes interruptible) Transition.anyStep ⟨b,[]⟩ calls c →
    Sink.seeks.streamPosition c.buf.writer = (.ok at_,c.buf.writer) →
    Positioned Sink.seeks c.buf at_ := by
  intro always
  obtain ⟨b,made⟩ : ∃ b, withCapacity (⟨[],[some 1,none]⟩ : Sink) 4 4 = some b := ⟨_,rfl⟩
  have ran : ((Transition.run (step Sink.writes interruptible) [.write [1,2,3],.flush] ⟨b,[]⟩).map
      fun c => (c.buf.writer.got,c.buf.start,c.buf.stop,c.buf.capacity)) = some ([1],1,3,4) := by
    obtain rfl := Option.some.inj made
    decide +kernel
  obtain ⟨c,executed,is⟩ := Option.map_eq_some_iff.mp ran
  simp only [Prod.mk.injEq] at is
  obtain ⟨got,start,stop,capacity⟩ := is
  have answers : Sink.seeks.streamPosition c.buf.writer = (.ok 1,c.buf.writer) := by
    simp only [Sink.seeks,got]
    rfl
  obtain ⟨p,next,answered,right⟩ :=
    always _ b c 1 made (Transition.run_path (fun _ _ _ => trivial) executed) answers
  obtain ⟨_,counted⟩ := streamPosition_counts answers answered
  rw [start,stop] at right
  omega

end XxCore.Io.BufWriter
