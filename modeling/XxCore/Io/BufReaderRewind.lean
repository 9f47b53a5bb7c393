import XxCore.Io.BufReaderSteps
import XxCore.Io.RawStream

/-! Repositioning. The bytes before the window are read again by `unconsume` and by seeks inside
the buffer, so they have to be those of the stream; a read around the buffer can break that. -/
namespace XxCore.Io.BufReader

open RawStream (Op Out)

variable {ρ ε : Type} {R : Read ρ ε} {K : Seek ρ ε} {content : List UInt8} {pos : ρ → Nat}

/-- The position of the buffered reader in the stream. -/
def logical (pos : ρ → Nat) (b : BufReader ρ) : Nat := pos b.reader - (b.stop - b.start)

/-- The buffer up to the end of the window holds the bytes just before the reader's position. -/
structure Aligned (content : List UInt8) (pos : ρ → Nat) (b : BufReader ρ) : Prop where
  valid : b.Valid
  behind : b.stop ≤ pos b.reader
  inside : b.stop = 0 ∨ pos b.reader ≤ content.length
  data : b.data.take b.stop = (content.take (pos b.reader)).drop (pos b.reader - b.stop)

theorem Aligned.logical_add {b : BufReader ρ} (aligned : Aligned content pos b) :
    logical pos b + b.buffer.length = pos b.reader := by
  have behind := aligned.behind
  rw [aligned.valid.length_buffer,logical]
  omega

theorem Aligned.buffer {b : BufReader ρ} (aligned : Aligned content pos b) :
    b.buffer = (content.take (pos b.reader)).drop (logical pos b) := by
  have behind := aligned.behind
  have le := aligned.valid.le
  rw [BufReader.buffer,aligned.data,List.drop_drop,logical]
  congr 1
  omega

/-- The first bytes of the window are those of the stream at the position. -/
theorem Aligned.take_buffer {b : BufReader ρ} (aligned : Aligned content pos b) {n : Nat}
    (le : n ≤ b.buffer.length) : b.buffer.take n = (content.drop (logical pos b)).take n := by
  have position := aligned.logical_add
  rw [aligned.buffer,List.drop_take,List.take_take,Nat.min_eq_left (by omega)]

/-- Nothing but the position of the reader and the bytes after the window have changed. -/
theorem Aligned.same {b next : BufReader ρ} (aligned : Aligned content pos b)
    (length : next.data.length = b.data.length) (stop : next.stop = b.stop)
    (start : next.start ≤ next.stop) (position : pos next.reader = pos b.reader)
    (data : next.data.take b.stop = b.data.take b.stop) : Aligned content pos next := by
  refine ⟨⟨start,?_,?_⟩,?_,?_,?_⟩
  · rw [stop,length]
    exact aligned.valid.bound
  · rw [length]
    exact aligned.valid.small
  · rw [stop,position]
    exact aligned.behind
  · rw [stop,position]
    exact aligned.inside
  · rw [stop,position,data]
    exact aligned.data

theorem Aligned.discard {b : BufReader ρ} (valid : b.Valid) : Aligned content pos b.discard :=
  ⟨⟨Nat.le_refl _,Nat.zero_le _,valid.small⟩,Nat.zero_le _,.inl rfl,by
    simp [BufReader.discard]⟩

theorem logical_discard (b : BufReader ρ) : logical pos b.discard = pos b.reader := rfl

/-- A range of the buffer that is filled after the window. -/
theorem Filled.appends {b next : BufReader ρ} {hi n : Nat} (seekable : Seekable R K content pos)
    (aligned : Aligned content pos b) (filled : Filled R b b.stop hi (.ok n) next)
    (le : b.stop ≤ hi) (bound : hi ≤ b.data.length) :
    Aligned content pos next ∧ logical pos next = logical pos b := by
  have length := filled.length le bound
  have stop := filled.bound aligned.valid le bound
  have start := aligned.valid.le
  have behind := aligned.behind
  have small : next.data.length ≤ isizeMax := by
    rw [length]
    exact aligned.valid.small
  cases filled with
  | zero ran =>
    have same := seekable.advance ran
    refine ⟨aligned.same length rfl start same ?_,?_⟩
    · exact Slice.take_splice (Nat.le_refl _) aligned.valid.bound
    · simp only [logical,same,Nat.add_zero]
  | more ran more few =>
    have advance := seekable.advance ran
    have within := seekable.within ran more
    refine ⟨⟨⟨?_,stop,small⟩,?_,.inr ?_,?_⟩,?_⟩
    · exact Nat.le_trans start (Nat.le_add_right _ _)
    · simp only [advance]
      omega
    · simp only [advance]
      exact within
    · simp only [advance,Nat.add_sub_add_right]
      rw [Slice.take_splice_add few aligned.valid.bound,aligned.data,seekable.bytes ran]
      exact drop_take_add (Nat.sub_le _ _) (Nat.le_trans (Nat.le_add_right _ _) within)
    · simp only [logical,advance]
      omega

/-- An empty window that is filled from the beginning of the buffer. -/
theorem Filled.restarts {b next : BufReader ρ} {hi n : Nat} (seekable : Seekable R K content pos)
    (aligned : Aligned content pos b) (filled : Filled R b 0 hi (.ok n) next)
    (empty : b.stop ≤ b.start) (bound : hi ≤ b.data.length) :
    Aligned content pos (rewindIfRead ((.ok n : Except ε Nat),next)).2 ∧
      logical pos (rewindIfRead ((.ok n : Except ε Nat),next)).2 = logical pos b := by
  have length := filled.length (Nat.zero_le _) bound
  have stop := filled.bound aligned.valid (Nat.zero_le _) bound
  have small : next.data.length ≤ isizeMax := by
    rw [length]
    exact aligned.valid.small
  cases filled with
  | zero ran =>
    have same := seekable.advance ran
    have kept := (seekable.none ran).1
    refine ⟨aligned.same length rfl aligned.valid.le same ?_,?_⟩
    · simp only [rewindIfRead,if_true]
      rw [kept,List.drop_zero,Slice.splice_take bound]
    · simp only [rewindIfRead,if_true,logical,same,Nat.add_zero]
  | more ran more few =>
    have advance := seekable.advance ran
    have within := seekable.within ran more
    simp only [rewindIfRead,if_neg (Nat.ne_of_gt more)]
    refine ⟨⟨⟨Nat.zero_le _,stop,small⟩,?_,.inr ?_,?_⟩,?_⟩
    · simp only [advance]
      omega
    · simp only [advance]
      exact within
    · simp only [advance,Nat.zero_add,Nat.add_sub_cancel]
      rw [Slice.take_splice_zero few,seekable.bytes ran,List.take_add]
      rw [List.drop_append_of_le_length (by rw [List.length_take]; omega)]
      simp
    · simp only [logical,advance]
      omega

theorem Aligned.moved {b : BufReader ρ} (aligned : Aligned content pos b) :
    Aligned content pos b.moved ∧ logical pos b.moved = logical pos b := by
  have length := aligned.valid.length_buffer
  have le := aligned.valid.le
  have behind := aligned.behind
  have position := aligned.logical_add
  refine ⟨⟨moved_valid aligned.valid,?_,?_,?_⟩,?_⟩
  · simp only [BufReader.moved]
    omega
  · refine aligned.inside.imp_left fun none => ?_
    simp only [BufReader.moved]
    omega
  · simp only [BufReader.moved]
    rw [Slice.take_splice_zero (Nat.le_refl _),List.take_length]
    refine aligned.buffer.trans ?_
    congr 1
    omega
  · simp only [logical,BufReader.moved]
    omega

theorem Fills.aligned {b next : BufReader ρ} {amount n : Nat} (seekable : Seekable R K content pos)
    (aligned : Aligned content pos b) (fills : Fills R b amount (.ok n) next) :
    Aligned content pos next ∧ logical pos next = logical pos b := by
  have length := aligned.valid.length_buffer
  have stop := aligned.valid.bound
  generalize is : (Except.ok n : Except ε Nat) = result at fills
  cases fills with
  | enough => exact ⟨aligned,rfl⟩
  | append le bound filled =>
    subst is
    exact filled.appends seekable aligned le bound
  | @wrap result next empty bound filled =>
    cases result with
    | error e => simp [rewindIfRead] at is
    | ok k => exact filled.restarts seekable aligned empty bound
  | compact some le bound filled =>
    subst is
    obtain ⟨moved,same⟩ := aligned.moved
    have size : b.moved.data.length = b.data.length := Slice.length_splice (by omega)
    rw [← size] at bound
    obtain ⟨aligned',same'⟩ := Filled.appends seekable moved filled le bound
    exact ⟨aligned',same'.trans same⟩

/-- Bytes taken from the window. -/
theorem Taken.aligned {b next : BufReader ρ} {buf new : List UInt8} {n : Nat}
    (aligned : Aligned content pos b) (taken : Taken b buf n new next) :
    Aligned content pos next ∧ logical pos next = logical pos b + n ∧
      new.take n = (content.drop (logical pos b)).take n := by
  have length := aligned.valid.length_buffer
  have le := aligned.valid.le
  have behind := aligned.behind
  have count := taken.count
  refine ⟨?_,?_,?_⟩
  · rw [taken.next]
    refine aligned.same rfl rfl ?_ rfl rfl
    simp only
    omega
  · simp only [taken.next,logical]
    omega
  · rw [taken.bytes]
    exact aligned.take_buffer (by omega)

/-- The bytes before the window stay those of the stream, when a read goes around the buffer, if
and only if they are the same after the bytes that were read. -/
theorem direct_aligned_iff {b : BufReader ρ} {r : ρ} {buf new : List UInt8} {n : Nat}
    (seekable : Seekable R K content pos) (aligned : Aligned content pos b)
    (ran : R.read b.reader buf = (.ok n,new,r)) :
    Aligned content pos { b with reader := r } ↔
      (b.data.take b.stop ++ new.take n).drop n = b.data.take b.stop := by
  have advance := seekable.advance ran
  have behind := aligned.behind
  have bytes := seekable.bytes ran
  have within := seekable.within ran
  -- what the stream has before the new position
  have before : (content.take (pos r)).drop (pos r - b.stop) =
      (b.data.take b.stop ++ new.take n).drop n := by
    rw [aligned.data,bytes,advance]
    rcases Nat.eq_zero_or_pos n with zero | more
    · simp [zero]
    · rw [drop_take_add (Nat.sub_le _ _) (Nat.le_trans (Nat.le_add_right _ _) (within more)),
        List.drop_drop]
      congr 1
      omega
  rw [← before]
  constructor
  · exact fun aligned' => aligned'.data.symm
  · refine fun same => ⟨⟨aligned.valid.le,aligned.valid.bound,aligned.valid.small⟩,?_,?_,same.symm⟩
    · simp only [advance]
      omega
    · rcases Nat.eq_zero_or_pos n with zero | more
      · simpa only [advance,zero,Nat.add_zero] using aligned.inside
      · exact .inr (by simpa only [advance] using within more)

/-- A read around the buffer, after which the bytes before the window are those of the stream. -/
def Rewindable (R : Read ρ ε) (b : BufReader ρ) (op : Op) : Prop :=
  ∀ buf n new r, op = .read buf → b.buffer = [] → b.capacity ≤ buf.length →
    R.read b.reader buf = (.ok n,new,r) →
      (b.data.take b.stop ++ new.take n).drop n = b.data.take b.stop

/-- The bytes of a read are those at the position, and it comes back empty for a reason. -/
theorem step_of_read {b next : BufReader ρ} {buf new : List UInt8} {n : Nat} (le : n ≤ buf.length)
    (length : new.length = buf.length)
    (bytes : new.take n = (content.drop (logical pos b)).take n)
    (advance : logical pos next = logical pos b + n)
    (none : n = 0 → buf = [] ∨ content.length ≤ logical pos b) :
    RawStream.Step content (logical pos b) (.read buf,.bytes (new.take n)) (logical pos next) := by
  have count : (new.take n).length = n := List.length_take_of_le (by omega)
  rw [advance]
  have step : RawStream.Step content (logical pos b) (.read buf,.bytes (new.take n))
      (logical pos b + (new.take n).length) :=
    .read (by rw [count]; exact bytes) (by omega) fun nil => none (by
      rw [← count,nil,List.length_nil])
  rwa [count] at step

theorem Reads.aligned {b next : BufReader ρ} {buf new : List UInt8} {n : Nat}
    (seekable : Seekable R K content pos) (aligned : Aligned content pos b)
    (rewindable : Rewindable R b (.read buf)) (reads : Reads R b buf (.ok n) new next) :
    Aligned content pos next ∧
      RawStream.Step content (logical pos b) (.read buf,.bytes (new.take n)) (logical pos next) := by
  have length := aligned.valid.length_buffer
  have position := aligned.logical_add
  -- an empty window
  have here (empty : b.buffer = []) : logical pos b = pos b.reader := by
    simpa [empty] using position
  cases reads with
  | buffered some taken =>
    obtain ⟨aligned',advance,bytes⟩ := taken.aligned aligned
    have count := taken.count
    have some := List.length_pos_iff.mpr some
    refine ⟨aligned',step_of_read (by omega) taken.length bytes advance fun zero => .inl ?_⟩
    exact List.length_eq_zero_iff.mp (by omega)
  | @direct _ _ r empty large ran =>
    have count := seekable.count ran
    have kept := R.length_read b.reader buf
    rw [ran] at kept
    have zero : b.buffer.length = 0 := by rw [empty,List.length_nil]
    refine ⟨(direct_aligned_iff seekable aligned ran).mpr (rewindable _ _ _ _ rfl empty large ran),
      step_of_read count kept ?_ ?_ ?_⟩
    · rw [here empty]
      exact seekable.bytes ran
    · rw [here empty,← seekable.advance ran]
      simp only [logical]
      omega
    · rintro rfl
      rw [here empty]
      exact (seekable.none ran).2
  | eof empty small filled =>
    obtain ⟨aligned',same⟩ := filled.restarts seekable aligned (by
      rw [empty,List.length_nil] at length
      omega) (Nat.le_refl _)
    refine ⟨aligned',step_of_read (Nat.zero_le _) rfl rfl same fun _ => .inr ?_⟩
    rw [here empty]
    cases filled with
    | zero ran =>
      have nonempty : (b.data.take b.capacity).drop 0 ≠ [] := by
        rw [List.drop_zero,capacity,List.take_length]
        exact List.ne_nil_of_length_pos (by rw [← capacity]; omega)
      exact (seekable.none ran).2.resolve_left nonempty
    | more _ pos => contradiction
  | filled empty more filled taken =>
    obtain ⟨aligned',same⟩ := filled.restarts seekable aligned (by
      rw [empty,List.length_nil] at length
      omega) (Nat.le_refl _)
    simp only [rewindIfRead,if_neg (Nat.ne_of_gt more)] at aligned' same
    obtain ⟨aligned'',advance,bytes⟩ := taken.aligned aligned'
    rw [same] at advance bytes
    have count := taken.count
    have window := aligned'.valid.length_buffer
    have stop := filled.stop_pos more
    refine ⟨aligned'',step_of_read (by omega) taken.length bytes advance fun zero => .inl ?_⟩
    exact List.length_eq_zero_iff.mp (by simp only at window; omega)

/-- The seek has gone to its goal. -/
structure Sought (content : List UInt8) (pos : ρ → Nat) (next : BufReader ρ) (p : UInt64) : Prop where
  aligned : Aligned content pos next
  logical : logical pos next = p.toNat

theorem streamPosition_sought {b next : BufReader ρ} {p : UInt64}
    (seekable : Seekable R K content pos) (aligned : Aligned content pos b)
    (ran : streamPosition K b = some (.ok p,next)) :
    Sought content pos next p ∧ p.toNat = logical pos b := by
  have position := aligned.logical_add
  rw [streamPosition] at ran
  rcases called : K.streamPosition b.reader with ⟨result | q,r⟩
  · simp [called] at ran
  · obtain ⟨is,same⟩ := seekable.position called
    have le : b.buffer.length ≤ q.toNat := by omega
    have buffer : BufReader.buffer { b with reader := r } = b.buffer := rfl
    simp only [called,buffer,sub,if_pos le,Option.map_some] at ran
    obtain ⟨found,rfl⟩ := Prod.mk.inj (Option.some.inj ran)
    obtain rfl := Except.ok.inj found
    have small := q.toNat_lt
    have exact_ : (UInt64.ofNat (q.toNat - b.buffer.length)).toNat = logical pos b := by
      rw [UInt64.toNat_ofNat_of_lt' (by simp only [UInt64.size]; omega)]
      omega
    refine ⟨⟨aligned.same rfl rfl aligned.valid.le same rfl,?_⟩,exact_⟩
    rw [exact_]
    simp only [BufReader.logical,same]

theorem seekReader_sought {b next : BufReader ρ} {goal : SeekFrom} {p : UInt64}
    (seekable : Seekable R K content pos) (valid : b.Valid)
    (ran : seekReader K b goal = some (.ok p,next)) :
    Sought content pos next p ∧ goal.target content.length (pos b.reader) = p.toNat := by
  obtain ⟨found,rfl⟩ := Prod.mk.inj (Option.some.inj ran)
  obtain ⟨target,position⟩ := seekable.seek (Prod.ext found rfl)
  refine ⟨⟨Aligned.discard ⟨valid.le,valid.bound,valid.small⟩,?_⟩,target⟩
  rw [logical_discard]
  exact position

theorem seekInner_sought {b next : BufReader ρ} {goal : SeekFrom} {p : UInt64}
    (seekable : Seekable R K content pos) (aligned : Aligned content pos b)
    (ran : seekInner K b goal = some (.ok p,next)) :
    Sought content pos next p ∧ goal.target content.length (logical pos b) = p.toNat := by
  have valid := aligned.valid
  have position := aligned.logical_add
  have few : b.buffer.length ≤ isizeMax := by
    have length := valid.length_buffer
    have bound := valid.bound
    have small := valid.small
    omega
  rw [isizeMax] at few
  have remainder : (Int64.ofNat b.buffer.length).toInt = b.buffer.length :=
    Int64.toInt_ofNat_of_lt (by omega)
  cases goal with
  | start abs => exact seekReader_sought seekable valid ran
  | end_ rel => exact seekReader_sought seekable valid ran
  | current rel =>
    simp only [seekInner] at ran
    split at ran
    · rename_i p' checked
      have value := toInt_of_checkedI64 checked
      obtain ⟨sought,target⟩ := seekReader_sought seekable valid ran
      refine ⟨sought,?_⟩
      simp only [SeekFrom.target] at target ⊢
      omega
    · -- the buffered bytes are subtracted by a seek of their own
      rcases called : K.seek b.reader (.current (-Int64.ofNat b.buffer.length)) with ⟨result | q,r⟩
      · simp [called] at ran
      · obtain ⟨first,moved⟩ := seekable.seek called
        have negated := Int64.toInt_neg_ofNat_of_le (n := b.buffer.length) (by omega)
        simp only [called] at ran
        obtain ⟨sought,target⟩ := seekReader_sought (b := { b with reader := r }) seekable
          ⟨valid.le,valid.bound,valid.small⟩ ran
        refine ⟨sought,?_⟩
        simp only [SeekFrom.target] at first target ⊢
        omega

theorem seekRelative_sought {b next : BufReader ρ} {rel : Int64} {p : UInt64}
    (seekable : Seekable R K content pos) (aligned : Aligned content pos b)
    (ran : seekRelative K b rel = some (.ok p,next)) :
    Sought content pos next p ∧ logical pos b + rel.toInt = p.toNat := by
  have behind := aligned.behind
  have le := aligned.valid.le
  have bound := aligned.valid.bound
  have small := aligned.valid.small
  rw [isizeMax] at small
  have stop : (Int64.ofNat b.stop).toInt = b.stop := Int64.toInt_ofNat_of_lt (by omega)
  rw [seekRelative] at ran
  split at ran
  · exact seekInner_sought seekable aligned ran
  · rename_i target checked
    have value := toInt_of_checkedI64 checked
    split at ran
    · exact seekInner_sought seekable aligned ran
    · rename_i within
      have start : target.toInt.toNat ≤ b.stop := by omega
      have aligned' : Aligned content pos { b with start := target.toInt.toNat } :=
        aligned.same rfl rfl start rfl rfl
      obtain ⟨sought,is⟩ := streamPosition_sought seekable aligned' ran
      refine ⟨sought,?_⟩
      simp only [BufReader.logical] at is ⊢
      omega

/-- A seek to an absolute position, whatever the position is now. -/
theorem seekAbs_sought {b next : BufReader ρ} {abs : UInt64} {goal : SeekFrom} {p : UInt64}
    (seekable : Seekable R K content pos) (aligned : Aligned content pos b)
    (absolute : ∀ at_, goal.target content.length at_ = abs.toNat)
    (ran : seekAbs K b abs goal = some (.ok p,next)) :
    Sought content pos next p ∧ abs.toNat = p.toNat := by
  rw [seekAbs] at ran
  obtain ⟨⟨result | q,middle⟩,called,ran⟩ := Option.bind_eq_some_iff.mp ran
  · simp at ran
  · obtain ⟨sought,is⟩ := streamPosition_sought seekable aligned called
    simp only at ran
    split at ran
    · rename_i rel checked
      have value := toInt_of_checkedSignedDiff checked
      obtain ⟨sought',target⟩ := seekRelative_sought seekable sought.aligned ran
      have here := sought.logical
      refine ⟨sought',?_⟩
      omega
    · obtain ⟨sought',target⟩ := seekInner_sought seekable sought.aligned ran
      rw [absolute] at target
      exact ⟨sought',Int.ofNat_inj.mp target⟩

theorem seek_sought {b next : BufReader ρ} {goal : SeekFrom} {p : UInt64}
    (seekable : Seekable R K content pos) (aligned : Aligned content pos b)
    (ran : seek K b goal = some (.ok p,next)) :
    Sought content pos next p ∧ goal.target content.length (logical pos b) = p.toNat := by
  have seeks := seek_seeks ran
  clear ran
  cases seeks with
  | relative ran => exact seekRelative_sought seekable aligned ran
  | startInner _ ran | endInner _ ran => exact seekInner_sought seekable aligned ran
  | start _ ran =>
    obtain ⟨sought,is⟩ := seekAbs_sought seekable aligned (fun _ => rfl) ran
    exact ⟨sought,Int.ofNat_inj.mpr is⟩
  | failed _ ran =>
    cases ran
  | @end_ r len rel _ _ asked ran =>
    obtain ⟨is,same⟩ := seekable.len asked
    obtain ⟨abs,checked,ran⟩ := Option.bind_eq_some_iff.mp ran
    have value := toNat_of_checkedAddSigned checked
    have aligned' : Aligned content pos { b with reader := r } :=
      aligned.same rfl rfl aligned.valid.le same rfl
    obtain ⟨sought,is'⟩ := seekAbs_sought seekable aligned' (fun _ => by
      simp only [SeekFrom.target]
      omega) ran
    refine ⟨sought,?_⟩
    simp only [SeekFrom.target]
    omega

/-- An operation of the buffered reader. -/
def perform (R : Read ρ ε) (K : Seek ρ ε) (b : BufReader ρ) : Op → Outcome ρ ε Out
  | .read buf => (read R b buf).map fun (result,buf,b) => (result.map fun n => .bytes (buf.take n),b)
  | .fillAmount amount => (fillAmount R b amount).map fun (result,b) => (result.map fun _ => .unit,b)
  | .consume count => (b.consume count).map fun b => (.ok .unit,b)
  | .unconsume count => (b.unconsume count).map fun b => (.ok .unit,b)
  | .seek goal => (seek K b goal).map fun (result,b) => (result.map .pos,b)
  | .streamPosition => (streamPosition K b).map fun (result,b) => (result.map .pos,b)

/-- A successful operation, with what it returns. -/
def rewindStep (R : Read ρ ε) (K : Seek ρ ε) (b : BufReader ρ) (label : Op × Out) :
    Option (BufReader ρ) :=
  match perform R K b label.1 with
  | some (.ok out,next) => if out = label.2 then some next else none
  | _ => none

theorem rewindStep_eq_some {b next : BufReader ρ} {op : Op} {out : Out} :
    rewindStep R K b (op,out) = some next ↔ perform R K b op = some (.ok out,next) := by
  rw [rewindStep]
  split
  · rename_i out' next' ran
    simp only at ran
    rw [ran,Option.ite_none_right_eq_some]
    simp
  · rename_i other
    simp only [reduceCtorEq,false_iff]
    exact fun ran => other _ _ ran

/-- What a successful operation does to the position is what it does in the raw stream. -/
theorem perform_aligned {b next : BufReader ρ} {op : Op} {out : Out}
    (seekable : Seekable R K content pos) (aligned : Aligned content pos b)
    (rewindable : Rewindable R b op) (ran : perform R K b op = some (.ok out,next)) :
    Aligned content pos next ∧
      RawStream.Step content (logical pos b) (op,out) (logical pos next) := by
  have valid := aligned.valid
  have length := valid.length_buffer
  have behind := aligned.behind
  have le := valid.le
  have bounded := seekable.bounded
  cases op with
  | read buf =>
    obtain ⟨⟨result,new,next'⟩,called,eq⟩ := Option.map_eq_some_iff.mp ran
    obtain ⟨is,rfl⟩ := Prod.mk.inj eq
    obtain ⟨result',new',next'',called',reads⟩ := read_reads bounded valid buf
    obtain ⟨rfl,rest⟩ := Prod.mk.inj (Option.some.inj (called'.symm.trans called))
    obtain ⟨rfl,rfl⟩ := Prod.mk.inj rest
    cases result' with
    | error e => contradiction
    | ok n =>
      obtain rfl := Except.ok.inj is
      exact reads.aligned seekable aligned rewindable
  | fillAmount amount =>
    obtain ⟨⟨result,next'⟩,called,eq⟩ := Option.map_eq_some_iff.mp ran
    obtain ⟨is,rfl⟩ := Prod.mk.inj eq
    have fits : amount ≤ b.capacity := (Option.ite_none_right_eq_some.mp called).1
    obtain ⟨result',next'',called',fills⟩ := fillAmount_fills bounded valid fits
    obtain ⟨rfl,rfl⟩ := Prod.mk.inj (Option.some.inj (called'.symm.trans called))
    cases result' with
    | error e => contradiction
    | ok n =>
      obtain rfl := Except.ok.inj is
      obtain ⟨aligned',same⟩ := fills.aligned seekable aligned
      rw [same]
      exact ⟨aligned',.fillAmount⟩
  | consume count =>
    obtain ⟨next',called,eq⟩ := Option.map_eq_some_iff.mp ran
    obtain ⟨is,rfl⟩ := Prod.mk.inj eq
    obtain rfl := Except.ok.inj is
    have few : count ≤ b.buffer.length := (Option.ite_none_right_eq_some.mp called).1
    obtain rfl := Option.some.inj ((consume_eq valid few).symm.trans called)
    have position : logical pos { b with start := b.start + count } = logical pos b + count := by
      simp only [logical]
      omega
    rw [position]
    exact ⟨aligned.same rfl rfl (by simp only; omega) rfl rfl,.consume⟩
  | unconsume count =>
    obtain ⟨next',called,eq⟩ := Option.map_eq_some_iff.mp ran
    obtain ⟨is,rfl⟩ := Prod.mk.inj eq
    obtain rfl := Except.ok.inj is
    obtain ⟨start,subtracted,rfl⟩ := Option.map_eq_some_iff.mp called
    rw [sub,Option.ite_none_right_eq_some] at subtracted
    obtain ⟨few,is⟩ := subtracted
    obtain rfl := Option.some.inj is
    have position : logical pos { b with start := b.start - count } = logical pos b - count := by
      simp only [logical]
      omega
    rw [position]
    refine ⟨aligned.same rfl rfl (by simp only; omega) rfl rfl,.unconsume ?_⟩
    simp only [logical]
    omega
  | seek goal =>
    obtain ⟨⟨result,next'⟩,called,eq⟩ := Option.map_eq_some_iff.mp ran
    obtain ⟨is,rfl⟩ := Prod.mk.inj eq
    cases result with
    | error e => contradiction
    | ok p =>
      obtain rfl := Except.ok.inj is
      obtain ⟨sought,target⟩ := seek_sought seekable aligned called
      rw [sought.logical]
      exact ⟨sought.aligned,.seek target⟩
  | streamPosition =>
    obtain ⟨⟨result,next'⟩,called,eq⟩ := Option.map_eq_some_iff.mp ran
    obtain ⟨is,rfl⟩ := Prod.mk.inj eq
    cases result with
    | error e => contradiction
    | ok p =>
      obtain rfl := Except.ok.inj is
      obtain ⟨sought,position⟩ := streamPosition_sought seekable aligned called
      rw [sought.logical,position]
      exact ⟨sought.aligned,.streamPosition position⟩

/-- Every run in which the reads around the buffer leave it rewindable is one of the raw stream. -/
theorem reads_rewound (seekable : Seekable R K content pos) {r : ρ} {requested allocated : Nat}
    {b c : BufReader ρ} (made : withCapacity r requested allocated = some b)
    {trace : List (Op × Out)}
    (path : Transition.Path (rewindStep R K) (fun b label => Rewindable R b label.1) b trace c) :
    RawStream.Run content (pos r) trace (logical pos c) ∧ Aligned content pos c := by
  obtain ⟨valid,rfl⟩ := withCapacity_eq_some made
  have start : Aligned content pos ⟨List.replicate allocated 0,0,0,r⟩ :=
    ⟨valid,Nat.zero_le _,.inl rfl,by simp⟩
  obtain ⟨aligned,run⟩ := path.refines (Aligned content pos) (logical pos)
    (fun b label next aligned rewindable stepped =>
      perform_aligned seekable aligned rewindable (rewindStep_eq_some.mp stepped)) start
  exact ⟨run,aligned⟩

/-- The condition of `Rewindable`, for a reader that can be run. -/
def rewindable (R : Read ρ ε) (b : BufReader ρ) : Op → Bool
  | .read buf =>
    match R.read b.reader buf with
    | (.ok n,new,_) => !b.buffer.isEmpty || decide (buf.length < b.capacity) ||
        decide ((b.data.take b.stop ++ new.take n).drop n = b.data.take b.stop)
    | (.error _,_,_) => true
  | _ => true

theorem rewindable_sound {b : BufReader ρ} {op : Op} (checked : rewindable R b op = true) :
    Rewindable R b op := by
  rintro buf n new r rfl empty large ran
  simp only [rewindable,ran,empty,List.isEmpty_nil,Bool.not_true,Bool.false_or,Bool.or_eq_true,
    decide_eq_true_eq] at checked
  rcases checked with small | same
  · exact absurd large (Nat.not_le_of_lt small)
  · exact same

/-- Eight bytes, in a buffer of four. -/
def eight : List UInt8 := [0,1,2,3,4,5,6,7]

/-- Bytes read again after `unconsume` and a seek inside the buffer; then seeks around it. -/
def rewindTrace : List (Op × Out) :=
  [(.read [0,0,0],.bytes [0,1,2]),(.unconsume 2,.unit),(.read [0],.bytes [1]),
    (.seek (.current (-1)),.pos 1),(.fillAmount 4,.unit),(.consume 2,.unit),(.seek (.start 2),.pos 2),
    (.seek (.end_ (-2)),.pos 6),(.read [0,0,0,0,0],.bytes [6,7]),(.seek (.current (-7)),.pos 1),
    (.streamPosition,.pos 1),(.read [0],.bytes [1])]

theorem reads_rewound_eight : ∃ b c, withCapacity (⟨0,[9,9,9,9]⟩ : Cursor) 4 4 = some b ∧
    Transition.run (rewindStep (Cursor.reads eight) (Cursor.seeks eight)) rewindTrace b = some c ∧
    RawStream.Run eight 0 rewindTrace 2 := by
  obtain ⟨b,made⟩ : ∃ b, withCapacity (⟨0,[9,9,9,9]⟩ : Cursor) 4 4 = some b := ⟨_,rfl⟩
  obtain ⟨c,checked,executed,end_⟩ : ∃ c, Transition.run
      (fun b l => if rewindable (Cursor.reads eight) b l.1 then
        rewindStep (Cursor.reads eight) (Cursor.seeks eight) b l else none) rewindTrace b = some c ∧
      Transition.run (rewindStep (Cursor.reads eight) (Cursor.seeks eight)) rewindTrace b = some c ∧
      logical (fun r : Cursor => r.pos.toNat) c = 2 := by
    obtain rfl := Option.some.inj made
    exact ⟨_,rfl,rfl,rfl⟩
  have path := Transition.run_path_checked _ (fun _ _ => rewindable_sound) checked
  obtain ⟨run,_⟩ := reads_rewound (cursor_seekable (by decide)) made path
  rw [end_] at run
  exact ⟨b,c,made,executed,run⟩

/-- After two reads from the buffer a read goes around it, and `unconsume` gives the old bytes. -/
def staleTrace : List (Op × Out) :=
  [(.read [0,0],.bytes [0,1]),(.read [0,0],.bytes [2,3]),(.read [0,0,0,0],.bytes [4,5,6,7]),
    (.unconsume 2,.unit),(.read [0,0],.bytes [2,3])]

theorem reads_not_always_rewound : ¬ ∀ (trace : List (Op × Out)) (b c : BufReader Cursor),
    withCapacity ⟨0,[9,9]⟩ 4 4 = some b →
    Transition.Path (rewindStep (Cursor.reads eight) (Cursor.seeks eight)) Transition.anyStep b trace c →
    RawStream.Run eight 0 trace (logical (fun r : Cursor => r.pos.toNat) c) := by
  intro always
  obtain ⟨b,c,made,executed⟩ : ∃ b c, withCapacity (⟨0,[9,9]⟩ : Cursor) 4 4 = some b ∧
      Transition.run (rewindStep (Cursor.reads eight) (Cursor.seeks eight)) staleTrace b = some c :=
    ⟨_,_,rfl,rfl⟩
  have run := always _ b c made (Transition.run_path (fun _ _ _ => trivial) executed)
  -- the raw stream is at position 6 at the last read
  rcases run with _ | ⟨first,_ | ⟨second,_ | ⟨third,_ | ⟨fourth,_ | ⟨fifth,_⟩⟩⟩⟩⟩
  cases first
  cases second
  cases third
  cases fourth
  cases fifth with
  | read is => exact absurd is (by decide)

end XxCore.Io.BufReader
