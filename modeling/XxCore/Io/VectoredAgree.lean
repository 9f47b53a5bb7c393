import XxCore.Io.ReadToEnd
import XxCore.Io.Vectored

/-! `read_fully_vectored` and `write_all_vectored` against `read_fully` and `write_all` of the
concatenated slices. They agree but for slices that have no byte between them. -/
namespace XxCore.Io

variable {ρ ω ε : Type}

/-- What `total` bytes of the stream `s` are read as: all of them, or the error. -/
structure FullyRead (E : ErrorKinds ε) (s : Stream'.Seq UInt8) (total : Nat) (result : Except ε Nat)
    (content : List UInt8) : Prop where
  ok : result = .ok total ↔ (s.take total).length = total
  content : result = .ok total → content = s.take total
  short : (s.take total).length ≠ total → result = .error E.unexpectedEof

/-- What the bytes `buf` are written as, with all that the writer has taken before and after. -/
structure FullyWritten (E : ErrorKinds ε) (room : ℕ∞) (buf : List UInt8) (result : Except ε Nat)
    (before after : List UInt8) : Prop where
  ok : result = .ok buf.length ↔ (buf.length : ℕ∞) ≤ room
  content : result = .ok buf.length → after = before ++ buf
  short : ¬ (buf.length : ℕ∞) ≤ room → result = .error E.unexpectedEof

section Results

variable {E : ErrorKinds ε}

theorem fullyRead_of {s : Stream'.Seq UInt8} {total : Nat} {content rest : List UInt8}
    (is : content = s.take total ++ rest) (length : content.length = total) :
    FullyRead E s total (if (s.take total).length = total then .ok (s.take total).length
      else .error E.unexpectedEof) content := by
  have sum := congrArg List.length is
  rw [List.length_append,length] at sum
  by_cases all : (s.take total).length = total
  · rw [if_pos all]
    refine ⟨iff_of_true (congrArg Except.ok all) all,fun _ => ?_,fun short => absurd all short⟩
    rw [is,List.length_eq_zero_iff.mp (show rest.length = 0 by omega),List.append_nil]
  · rw [if_neg all]
    exact ⟨iff_of_false nofun all,nofun,fun _ => rfl⟩

theorem fullyWritten_of {room : ℕ∞} {buf : List UInt8} {n : Nat} (before : List UInt8)
    (count : (n : ℕ∞) = min (buf.length : ℕ∞) room) :
    FullyWritten E room buf (if n = buf.length then .ok n else .error E.unexpectedEof) before
      (before ++ buf.take n) := by
  have fits : n = buf.length ↔ (buf.length : ℕ∞) ≤ room := by
    rw [← Nat.cast_inj (R := ℕ∞),count,min_eq_left_iff]
  by_cases all : n = buf.length
  · rw [if_pos all]
    refine ⟨iff_of_true (congrArg Except.ok all) (fits.mp all),fun _ => ?_,fun short => ?_⟩
    · rw [all,List.take_length]
    · exact absurd (fits.mp all) short
  · rw [if_neg all]
    exact ⟨iff_of_false nofun fun le => all (fits.mpr le),nofun,fun _ => rfl⟩

/-- How many bytes there are decides the result. -/
theorem FullyRead.result_eq {s : Stream'.Seq UInt8} {total : Nat} {result result' : Except ε Nat}
    {content content' : List UInt8} (read : FullyRead E s total result content)
    (read' : FullyRead E s total result' content') : result = result' := by
  by_cases all : (s.take total).length = total
  · rw [read.ok.mpr all,read'.ok.mpr all]
  · rw [read.short all,read'.short all]

end Results

section Reader

variable {R : Reader ρ ε} {E : ErrorKinds ε} {interrupted : ρ → Bool} {held : ρ → Stream'.Seq UInt8}
  {good : ρ → Prop} {r : ρ}

theorem readFully_holds (holds : R.Holds held good) (running : ∀ r, interrupted r = false)
    (start : good r) (buf : List UInt8) :
    ∃ result buf' r', R.readFully E interrupted buf r = some (result,buf',r') ∧
      FullyRead E (held r) buf.length result buf' ∧
      held r' = (held r).drop ((held r).take buf.length).length := by
  rw [Reader.readFully]
  by_cases empty : buf = []
  · subst empty
    refine ⟨.ok 0,[],r,rfl,⟨?_,fun _ => ?_,fun short => ?_⟩,?_⟩
    all_goals simp at *
  · obtain ⟨buf',r',ran,_,rest,length,left,is⟩ :=
      tryReadFully_holds (E := E) interrupted holds start empty
    have few : ((held r).take buf.length).length ≤ buf.length := Stream'.Seq.length_take_le
    have checked : lengthCheck buf' ((held r).take buf.length).length =
        some ((held r).take buf.length).length := if_pos (by rw [length]; exact few)
    have uncut : checkInterruptIfZero E interrupted r' ((held r).take buf.length).length =
        .ok ((held r).take buf.length).length := by
      rw [checkInterruptIfZero_eq,running r',if_neg (by simp)]
    rw [if_neg (mt List.isEmpty_iff.mp empty),ran,uncut]
    simp only [Option.bind_some,checked,Option.map_some,length,ne_eq,ite_not,
      shortIoErrorUnlessInterrupt_eq (running r')]
    have read := fullyRead_of (E := E) is length
    split
    next all =>
      rw [if_pos all] at read
      exact ⟨_,_,_,rfl,read,rest⟩
    next short =>
      rw [if_neg short] at read
      exact ⟨_,_,_,rfl,read,rest⟩

theorem readFullyVectored_holds (holds : R.HoldsVectored held good)
    (running : ∀ r, interrupted r = false) (start : good r) (bufs : List (List UInt8)) :
    ∃ result bufs' r', R.readFullyVectored E interrupted bufs r = some (result,bufs',r') ∧
      bufs'.map List.length = bufs.map List.length ∧
      held r' = (held r).drop ((held r).take bufs.flatten.length).length ∧
      (FullyRead E (held r) bufs.flatten.length result bufs'.flatten ↔ Fillable bufs) := by
  obtain ⟨sound,draws⟩ := vectored_draws (E := E) holds
  obtain ⟨returned,bufs',r',ran,_⟩ := transferVectored_sound sound start bufs
  obtain ⟨n,stop,slices,run,rfl,is⟩ := transferVectored_run ran
  obtain ⟨_,count,passed,rest,size,stopped⟩ := draws.run start run
  have count : n = ((held r).take bufs.flatten.length).length := count
  have few : ((held r).take bufs.flatten.length).length ≤ bufs.flatten.length :=
    Stream'.Seq.length_take_le
  have exhausted := exhausted_iff run size (by rw [count]; exact few)
  have passed : slices.passed.flatten ++ slices.front = (held r).take bufs.flatten.length := passed
  have lengths := vectored_lengths run
  have content : slices.content.flatten =
      (held r).take bufs.flatten.length ++ slices.bufs.flatten := by
    rw [Slices.content,List.flatten_append,flatten_attach,← List.append_assoc,passed]
  have ok : returned = .ok (n,slices.bufs.isEmpty) := by
    rcases stopped with rfl | rfl
    all_goals exact is
  have read := fullyRead_of (E := E) content (length_flatten_of_lengths lengths)
  rw [← count] at read
  rw [Reader.readFullyVectored,Reader.defaultReadVectored,ran,ok,Option.map_some]
  simp only [shortIoErrorUnlessInterrupt_eq (running r')]
  refine ⟨if slices.bufs.isEmpty then .ok n else .error E.unexpectedEof,slices.content,r',?_,lengths,
    by rw [← count]; exact rest,?_⟩
  · split
    all_goals rfl
  · by_cases fillable : Fillable bufs
    · have same : slices.bufs.isEmpty = true ↔ n = bufs.flatten.length :=
        exhausted.trans (and_iff_left fillable)
      simp only [same]
      exact iff_of_true read fillable
    · have left : ¬ slices.bufs.isEmpty = true := fun all => fillable (exhausted.mp all).2
      rw [if_neg left]
      refine iff_of_false (fun read => ?_) fillable
      obtain ⟨_,nothing⟩ := not_or.mp (mt fillable_iff.mpr fillable)
      have none : bufs.flatten.length = 0 := by
        rw [Decidable.not_not.mp nothing]
        rfl
      have supplied : ((held r).take bufs.flatten.length).length = bufs.flatten.length := by
        rw [none,Stream'.Seq.take_zero]
        rfl
      cases read.ok.mpr supplied

end Reader

section Writer

variable {W : Writer ω ε} {E : ErrorKinds ε} {interrupted : ω → Bool} {taken : ω → List UInt8}
  {room : ω → ℕ∞}

theorem writeAll_takes (takes : W.Takes taken room) (running : ∀ w, interrupted w = false)
    (w : ω) (buf : List UInt8) :
    ∃ (n : Nat) (result : Except ε Nat) (w' : ω),
      W.writeAll E interrupted buf w = some (result,w') ∧
      (n : ℕ∞) = min (buf.length : ℕ∞) (room w) ∧ taken w' = taken w ++ buf.take n ∧
      result = if n = buf.length then .ok n else .error E.unexpectedEof := by
  rw [Writer.writeAll]
  by_cases empty : buf = []
  · subst empty
    refine ⟨0,.ok 0,w,rfl,?_,?_,rfl⟩
    all_goals simp
  · obtain ⟨sound,gives⟩ := scalar_gives (E := E) takes
    obtain ⟨result,buf',w',ran,_⟩ :=
      transferAll_sound interrupted sound (r := w) trivial buf
    obtain ⟨n,stop,cut,run,rfl,is⟩ := transferAll_run empty ran
    obtain ⟨count,content,_,stopped⟩ := gives.run run
    have few : n ≤ buf.length := by
      rw [← Nat.cast_le (α := ℕ∞),count]
      exact min_le_left _ _
    have checked : lengthCheck buf n = some n := if_pos few
    have ok : result = .ok n := by
      have uncut : checkInterruptIfZero E interrupted w' n = .ok n := by
        rw [checkInterruptIfZero_eq,running w',if_neg (by simp)]
      rcases stopped with rfl | rfl
      all_goals exact is.trans uncut
    rw [if_neg (mt List.isEmpty_iff.mp empty),Writer.tryWriteAll,ran,ok]
    simp only [Option.map_some,Option.bind_some,checked,shortIoErrorUnlessInterrupt_eq (running w')]
    by_cases all : n = buf.length
    · rw [if_neg (by omega)]
      exact ⟨n,_,w',rfl,count,content,(if_pos all).symm⟩
    · rw [if_pos (by omega)]
      exact ⟨n,_,w',rfl,count,content,(if_neg all).symm⟩

theorem writeAllVectored_takes (takes : W.TakesVectored taken room)
    (running : ∀ w, interrupted w = false) (w : ω) (bufs : List (List UInt8)) :
    ∃ (n : Nat) (result : Except ε Nat) (w' : ω),
      W.writeAllVectored E interrupted bufs w = some (result,w') ∧
      (n : ℕ∞) = min (bufs.flatten.length : ℕ∞) (room w) ∧
      taken w' = taken w ++ bufs.flatten.take n ∧
      result = if n = bufs.flatten.length ∧ Fillable bufs then .ok n else .error E.unexpectedEof := by
  obtain ⟨sound,gives⟩ := vectored_gives (E := E) takes
  obtain ⟨returned,bufs',w',ran,_⟩ := transferVectored_sound sound (r := w) trivial bufs
  obtain ⟨n,stop,slices,run,rfl,is⟩ := transferVectored_run ran
  obtain ⟨count,content,size,stopped⟩ := gives.run run
  have few : n ≤ bufs.flatten.length := by
    rw [← Nat.cast_le (α := ℕ∞),count]
    exact min_le_left _ _
  have exhausted := exhausted_iff run size few
  have ok : returned = .ok (n,slices.bufs.isEmpty) := by
    rcases stopped with rfl | rfl
    all_goals exact is
  rw [Writer.writeAllVectored,Writer.defaultWriteVectored,ran,ok]
  simp only [Option.map_some,shortIoErrorUnlessInterrupt_eq (running w')]
  refine ⟨n,_,w',?_,count,content,rfl⟩
  simp only [exhausted]
  split
  all_goals rfl

end Writer
/-- For every reader and every writer without errors and interrupts, whatever the sizes of its
transfers, the vectored calls do as they should, which is what the scalar calls do, exactly if the
list of the slices is empty or one of them is not. -/
theorem vectored_agrees_iff (E : ErrorKinds ε) (bufs : List (List UInt8)) :
    (∀ (ρ : Type) (R : Reader ρ ε) (interrupted : ρ → Bool) (held : ρ → Stream'.Seq UInt8)
      (good : ρ → Prop) (r : ρ), R.Holds held good → R.HoldsVectored held good →
      (∀ r, interrupted r = false) → good r → ∃ result bufs' r' result' buf' r'',
        R.readFullyVectored E interrupted bufs r = some (result,bufs',r') ∧
        R.readFully E interrupted bufs.flatten r = some (result',buf',r'') ∧
        bufs'.map List.length = bufs.map List.length ∧ held r' = held r'' ∧
        FullyRead E (held r) bufs.flatten.length result' buf' ∧
        (FullyRead E (held r) bufs.flatten.length result bufs'.flatten ∧ result = result' ↔
          Fillable bufs)) ∧
    ∀ (ω : Type) (W : Writer ω ε) (interrupted : ω → Bool) (taken : ω → List UInt8) (room : ω → ℕ∞)
      (w : ω), W.Takes taken room → W.TakesVectored taken room → (∀ w, interrupted w = false) →
      ∃ result w' result' w'',
        W.writeAllVectored E interrupted bufs w = some (result,w') ∧
        W.writeAll E interrupted bufs.flatten w = some (result',w'') ∧ taken w' = taken w'' ∧
        FullyWritten E (room w) bufs.flatten result' (taken w) (taken w'') ∧
        (FullyWritten E (room w) bufs.flatten result (taken w) (taken w') ∧ result = result' ↔
          Fillable bufs) := by
  constructor
  · intro ρ R interrupted held good r holds holdsVectored running start
    obtain ⟨result,bufs',r',ran,lengths,rest,read⟩ :=
      readFullyVectored_holds (E := E) holdsVectored running start bufs
    obtain ⟨result',buf',r'',ran',read',rest'⟩ :=
      readFully_holds (E := E) holds running start bufs.flatten
    refine ⟨result,bufs',r',result',buf',r'',ran,ran',lengths,rest.trans rest'.symm,read',?_⟩
    constructor
    · intro both
      exact read.mp both.1
    · intro fillable
      exact ⟨read.mpr fillable,(read.mpr fillable).result_eq read'⟩
  · intro ω W interrupted taken room w takes takesVectored running
    obtain ⟨n,result,w',ran,count,content,is⟩ :=
      writeAllVectored_takes (E := E) takesVectored running w bufs
    obtain ⟨m,result',w'',ran',count',content',is'⟩ :=
      writeAll_takes (E := E) takes running w bufs.flatten
    obtain rfl : n = m := Nat.cast_inj.mp (count.trans count'.symm)
    have written := fullyWritten_of (E := E) (taken w) count
    rw [← is',← content] at written
    refine ⟨result,w',result',w'',ran,ran',content.trans content'.symm,?_,?_⟩
    · rw [content',← content]
      exact written
    · by_cases fillable : Fillable bufs
      · have same : result = result' := by
          rw [is,is']
          simp only [fillable,and_true]
        rw [same]
        exact iff_of_true ⟨written,rfl⟩ fillable
      · refine iff_of_false (fun both => ?_) fillable
        obtain ⟨_,nothing⟩ := not_or.mp (mt fillable_iff.mpr fillable)
        have none : bufs.flatten.length = 0 := by
          rw [Decidable.not_not.mp nothing]
          rfl
        have ok := both.1.ok.mpr (by rw [none]; exact zero_le)
        rw [is,if_neg fun both => fillable both.2] at ok
        contradiction

/-- Three bytes between empty slices, read one by one, and written where there is room for two. -/
theorem vectored_agrees_slices :
    (∃ bufs' r', (Chunks.reads (ε := PlayerError)).reader.readFullyVectored faults (fun _ => false)
      [[],[0,0],[],[0],[]] ⟨[1,2,3,4],[]⟩ = some (.ok 3,bufs',r') ∧ bufs'.flatten = [1,2,3]) ∧
    ∃ w', (Tank.writes (ε := PlayerError)).writeAllVectored faults (fun _ => false)
      [[],[0,0],[],[0],[]] ⟨[9],2,[]⟩ = some (.error .unexpectedEof,w') := by
  have agrees := vectored_agrees_iff faults [[],[0,0],[],[0],[]]
  have fillable : Fillable [[],[0,0],[],[0],[]] := by decide
  have chunks := follows_holds (chunks_follow (ε := PlayerError))
  have tank := tank_takes (ε := PlayerError)
  constructor
  · obtain ⟨result,bufs',r',_,_,_,ran,_,_,_,_,read⟩ := agrees.1 _ _ (fun _ => false) _ _
      ⟨[1,2,3,4],[]⟩ chunks (reader_holds chunks) (fun _ => rfl) trivial
    obtain ⟨read,_⟩ := read.mpr fillable
    have all : result = .ok 3 := read.ok.mpr rfl
    refine ⟨bufs',r',?_,read.content all⟩
    rw [← all]
    exact ran
  · obtain ⟨result,w',_,_,ran,_,_,_,written⟩ := agrees.2 _ _ (fun _ => false) _ _
      ⟨[9],2,[]⟩ tank (ofWrite_takes tank) fun _ => rfl
    obtain ⟨written,_⟩ := written.mpr fillable
    refine ⟨w',?_⟩
    rw [ran,written.short (by decide)]
    rfl

/-- A slice without bytes cannot be read. -/
theorem vectored_not_always_agrees : ¬ ∀ (bufs bufs' : List (List UInt8)) (r r' : Chunks)
    (result : Except PlayerError Nat),
    Chunks.reads.reader.readFullyVectored faults (fun _ => false) bufs r = some (result,bufs',r') →
    FullyRead faults (Stream'.Seq.ofList r.held) bufs.flatten.length result bufs'.flatten := by
  intro always
  have chunks := follows_holds (chunks_follow (ε := PlayerError))
  have running : ∀ r : Chunks, (fun _ => false) r = false := fun _ => rfl
  obtain ⟨result,bufs',r',ran,_,_,read⟩ := readFullyVectored_holds (E := faults)
    (reader_holds chunks) running (r := ⟨[1],[]⟩) trivial [[]]
  exact absurd (read.mp (always _ _ _ _ _ ran)) (by decide)

end XxCore.Io
