import Mathlib.Data.List.ReduceOption
import XxCore.Lib.Slice

/-! The buffer of `io/mod.rs` that is filled from its front. A byte that was not written yet is
`none`; the first `filled` bytes were. A write gives the number of bytes that fit and never fails. -/
namespace XxCore.Io

open Slice

/-- `read_into_uninit_slice`: the new contents of `dest`, and the length of the part of it that is
handed back. -/
def readIntoUninitSlice (dest : List (Option UInt8)) (src : List UInt8) : List (Option UInt8) × Nat :=
  let len := min dest.length src.length
  (splice dest 0 ((src.take len).map some),len)

@[ext] structure UninitBuf (size : Nat) where
  data : List (Option UInt8)
  filled : Nat
  length_data : data.length = size
  filled_le : filled ≤ size
  initialized : ∀ byte ∈ data.take filled, byte.isSome

namespace UninitBuf

variable {size : Nat}

def new (size : Nat) : UninitBuf size where
  data := List.replicate size none
  filled := 0
  length_data := List.length_replicate
  filled_le := Nat.zero_le size
  initialized := by simp

def spareCapacity (buf : UninitBuf size) : Nat :=
  buf.data.length - buf.filled

/-- `data()`: what was written. -/
def bytes (buf : UninitBuf size) : List UInt8 :=
  (buf.data.take buf.filled).reduceOption

section Extend

theorem spareCapacity_eq (buf : UninitBuf size) : buf.spareCapacity = size - buf.filled := by
  rw [spareCapacity,buf.length_data]

theorem length_rest (buf : UninitBuf size) :
    (buf.data.drop buf.filled).length = buf.spareCapacity :=
  List.length_drop

theorem length_take_filled (buf : UninitBuf size) : (buf.data.take buf.filled).length = buf.filled :=
  List.length_take_of_le (buf.length_data.symm ▸ buf.filled_le)

theorem length_bytes (buf : UninitBuf size) : buf.bytes.length = buf.filled := by
  rw [bytes,List.reduceOption_length_eq_iff.mpr buf.initialized,buf.length_take_filled]

theorem take_append_read (buf : UninitBuf size) (src : List UInt8) :
    buf.data.take buf.filled ++ (readIntoUninitSlice (buf.data.drop buf.filled) src).1 =
      buf.data.take buf.filled ++ (src.take buf.spareCapacity).map some ++
        buf.data.drop (buf.filled + (src.take buf.spareCapacity).length) := by
  have same : src.take (min buf.spareCapacity src.length) = src.take buf.spareCapacity := by
    rw [← List.take_take,List.take_length]
  rw [readIntoUninitSlice,length_rest,splice,List.take_zero,List.nil_append,Nat.zero_add,
    List.length_map,List.drop_drop,same,List.append_assoc]

theorem length_extended (buf : UninitBuf size) (src : List UInt8) :
    (buf.data.take buf.filled ++ (readIntoUninitSlice (buf.data.drop buf.filled) src).1).length =
      size := by
  have length := buf.length_data
  have within := buf.filled_le
  rw [take_append_read,List.length_append,List.length_append,length_take_filled,List.length_map,
    List.length_drop,List.length_take,spareCapacity_eq]
  omega

theorem length_read (buf : UninitBuf size) (src : List UInt8) :
    (readIntoUninitSlice (buf.data.drop buf.filled) src).2 =
      (src.take buf.spareCapacity).length := by
  rw [readIntoUninitSlice,length_rest,List.length_take]

/-- The part of the new contents that counts as filled. -/
theorem take_extended (buf : UninitBuf size) (src : List UInt8) :
    (buf.data.take buf.filled ++ (readIntoUninitSlice (buf.data.drop buf.filled) src).1).take
        (buf.filled + (readIntoUninitSlice (buf.data.drop buf.filled) src).2) =
      buf.data.take buf.filled ++ (src.take buf.spareCapacity).map some := by
  have front : (buf.data.take buf.filled ++ (src.take buf.spareCapacity).map some).length =
      buf.filled + (src.take buf.spareCapacity).length := by
    rw [List.length_append,length_take_filled,List.length_map]
  rw [take_append_read,length_read,← front,List.take_left]

end Extend

def extendFromSlice (buf : UninitBuf size) (src : List UInt8) : Nat × UninitBuf size :=
  let read := readIntoUninitSlice (buf.data.drop buf.filled) src
  (read.2,{
    data := buf.data.take buf.filled ++ read.1
    filled := buf.filled + read.2
    length_data := buf.length_extended src
    filled_le := by
      have within := buf.filled_le
      rw [length_read,List.length_take,spareCapacity_eq]
      omega
    initialized := by
      intro byte has
      rw [take_extended,List.mem_append] at has
      rcases has with has | has
      · exact buf.initialized byte has
      · obtain ⟨_,_,rfl⟩ := List.mem_map.mp has
        rfl })

def write (buf : UninitBuf size) (src : List UInt8) : Nat × UninitBuf size :=
  buf.extendFromSlice src

/-- The loop of `write_vectored`, with the total so far. -/
def writeLoop (total : Nat) (buf : UninitBuf size) : List (List UInt8) → Nat × UninitBuf size
  | [] => (total,buf)
  | slice :: slices =>
    let (wrote,buf) := buf.extendFromSlice slice
    if wrote = 0 then (total,buf) else writeLoop (total + wrote) buf slices

def writeVectored (buf : UninitBuf size) (slices : List (List UInt8)) : Nat × UninitBuf size :=
  writeLoop 0 buf slices

section Write

variable (buf : UninitBuf size)

theorem extendFromSlice_fst (src : List UInt8) :
    (buf.extendFromSlice src).1 = (src.take buf.spareCapacity).length :=
  buf.length_read src

theorem data_extendFromSlice (src : List UInt8) :
    (buf.extendFromSlice src).2.data =
      buf.data.take buf.filled ++ (src.take buf.spareCapacity).map some ++
        buf.data.drop (buf.filled + (src.take buf.spareCapacity).length) :=
  buf.take_append_read src

theorem filled_extendFromSlice (src : List UInt8) :
    (buf.extendFromSlice src).2.filled = buf.filled + (src.take buf.spareCapacity).length := by
  rw [← extendFromSlice_fst]
  rfl

theorem bytes_extendFromSlice (src : List UInt8) :
    (buf.extendFromSlice src).2.bytes = buf.bytes ++ src.take buf.spareCapacity := by
  have front := buf.take_extended src
  rw [bytes,extendFromSlice,front,List.reduceOption_append,bytes]
  congr 1
  rw [List.reduceOption,List.filterMap_map]
  exact List.filterMap_some

theorem spareCapacity_extendFromSlice (src : List UInt8) :
    (buf.extendFromSlice src).2.spareCapacity = buf.spareCapacity - src.length := by
  rw [spareCapacity_eq,spareCapacity_eq,filled_extendFromSlice,List.length_take,spareCapacity_eq]
  omega

variable {buf}

/-- Only what fits decides what a write does. -/
theorem extendFromSlice_congr {src other : List UInt8}
    (same : src.take buf.spareCapacity = other.take buf.spareCapacity) :
    buf.extendFromSlice src = buf.extendFromSlice other := by
  apply Prod.ext
  · rw [extendFromSlice_fst,extendFromSlice_fst,same]
  · apply UninitBuf.ext
    · rw [data_extendFromSlice,data_extendFromSlice,same]
    · rw [filled_extendFromSlice,filled_extendFromSlice,same]

variable (buf)

theorem extendFromSlice_nil : buf.extendFromSlice [] = (0,buf) := by
  apply Prod.ext
  · rw [extendFromSlice_fst,List.take_nil,List.length_nil]
  · apply UninitBuf.ext
    · rw [data_extendFromSlice]
      simp
    · rw [filled_extendFromSlice]
      simp

/-- Two writes after one another are one write. -/
theorem extendFromSlice_append (src rest : List UInt8) :
    buf.extendFromSlice (src ++ rest) =
      ((buf.extendFromSlice src).1 + ((buf.extendFromSlice src).2.extendFromSlice rest).1,
        ((buf.extendFromSlice src).2.extendFromSlice rest).2) := by
  have split : (src ++ rest).take buf.spareCapacity =
      src.take buf.spareCapacity ++ rest.take (buf.spareCapacity - src.length) :=
    List.take_append
  have filled := buf.filled_extendFromSlice src
  apply Prod.ext
  · rw [extendFromSlice_fst,extendFromSlice_fst,extendFromSlice_fst,spareCapacity_extendFromSlice,
      split,List.length_append]
  · apply UninitBuf.ext
    · have front : (buf.extendFromSlice src).2.data.take (buf.extendFromSlice src).2.filled =
          buf.data.take buf.filled ++ (src.take buf.spareCapacity).map some :=
        buf.take_extended src
      have behind : (buf.extendFromSlice src).2.data.drop (buf.extendFromSlice src).2.filled =
          buf.data.drop (buf.extendFromSlice src).2.filled := by
        have length : (buf.data.take buf.filled ++ (src.take buf.spareCapacity).map some).length =
            (buf.extendFromSlice src).2.filled := by
          rw [List.length_append,length_take_filled,List.length_map,filled]
        rw [data_extendFromSlice,← length,List.drop_left,length,filled]
      have tail (n : Nat) : (buf.extendFromSlice src).2.data.drop
          ((buf.extendFromSlice src).2.filled + n) =
            buf.data.drop ((buf.extendFromSlice src).2.filled + n) := by
        rw [← List.drop_drop,behind,List.drop_drop]
      rw [data_extendFromSlice,data_extendFromSlice,front,tail,spareCapacity_extendFromSlice,split,
        List.map_append,List.length_append,filled]
      simp only [List.append_assoc,Nat.add_assoc]
    · rw [filled_extendFromSlice,filled_extendFromSlice,filled,spareCapacity_extendFromSlice,split,
        List.length_append,Nat.add_assoc]

end Write

section Vectored

/-- The slices before the first empty one. -/
def reached (slices : List (List UInt8)) : List (List UInt8) :=
  slices.takeWhile (!·.isEmpty)

/-- The slices from the first empty one on. -/
def unreached (slices : List (List UInt8)) : List (List UInt8) :=
  slices.dropWhile (!·.isEmpty)

theorem writeLoop_cons (total : Nat) (buf : UninitBuf size) (slice : List UInt8)
    (slices : List (List UInt8)) :
    writeLoop total buf (slice :: slices) =
      if (buf.extendFromSlice slice).1 = 0 then (total,(buf.extendFromSlice slice).2)
      else writeLoop (total + (buf.extendFromSlice slice).1) (buf.extendFromSlice slice).2 slices :=
  rfl

/-- The loop writes the slices before the first empty one, as one. -/
theorem writeLoop_eq (total : Nat) (buf : UninitBuf size) (slices : List (List UInt8)) :
    writeLoop total buf slices =
      (total + (buf.write (reached slices).flatten).1,(buf.write (reached slices).flatten).2) := by
  induction slices generalizing total buf with
  | nil =>
    rw [writeLoop,reached,List.takeWhile_nil,List.flatten_nil,write,extendFromSlice_nil]
    rfl
  | cons slice slices ih =>
    rw [writeLoop_cons]
    by_cases empty : slice = []
    · subst empty
      have none : reached ([] :: slices) = [] := rfl
      rw [extendFromSlice_nil,none,List.flatten_nil,write,extendFromSlice_nil]
      rfl
    have more : reached (slice :: slices) = slice :: reached slices := by
      rw [reached,List.takeWhile_cons_of_pos (by simpa using empty),reached]
    rw [more,List.flatten_cons,write,extendFromSlice_append]
    split
    next full =>
      -- the buffer is full, so the rest of the slices would not change it
      have room : buf.spareCapacity = 0 := by
        have positive := List.length_pos_iff.mpr empty
        rw [extendFromSlice_fst,List.length_take] at full
        omega
      have none (rest : List UInt8) : buf.extendFromSlice rest = (0,buf) := by
        have same : rest.take buf.spareCapacity = [].take buf.spareCapacity := by
          rw [room,List.take_zero,List.take_zero]
        rw [extendFromSlice_congr same,extendFromSlice_nil]
      rw [none,none]
      rfl
    next => rw [ih,write,Nat.add_assoc]

theorem writeVectored_eq (buf : UninitBuf size) (slices : List (List UInt8)) :
    buf.writeVectored slices = buf.write (reached slices).flatten := by
  rw [writeVectored,writeLoop_eq,Nat.zero_add]

theorem flatten_reached_append (slices : List (List UInt8)) :
    (reached slices).flatten ++ (unreached slices).flatten = slices.flatten := by
  rw [← List.flatten_append,reached,unreached,List.takeWhile_append_dropWhile]

/-- A vectored write that appends what fits of all the slices together. -/
structure Gathers (buf : UninitBuf size) (slices : List (List UInt8)) : Prop where
  appended : (buf.writeVectored slices).2.bytes =
    buf.bytes ++ slices.flatten.take buf.spareCapacity
  wrote : (buf.writeVectored slices).1 = (slices.flatten.take buf.spareCapacity).length
  whole : buf.writeVectored slices = buf.write slices.flatten
  zero : (buf.writeVectored slices).1 = 0 →
    (∀ slice ∈ slices, slice = []) ∨ buf.spareCapacity = 0

theorem gathers_of_eq {buf : UninitBuf size} {slices : List (List UInt8)}
    (whole : buf.writeVectored slices = buf.write slices.flatten) : Gathers buf slices where
  appended := by rw [whole,write,bytes_extendFromSlice]
  wrote := by rw [whole,write,extendFromSlice_fst]
  whole := whole
  zero := by
    intro nothing
    rw [whole,write,extendFromSlice_fst,List.length_take] at nothing
    by_cases full : buf.spareCapacity = 0
    · exact .inr full
    · have empty : slices.flatten.length = 0 := by omega
      exact .inl (List.flatten_eq_nil_iff.mp (List.length_eq_zero_iff.mp empty))

/-- `write_vectored` takes a write of nothing for a full buffer, also where the slice is empty. It
appends what fits of all the slices if and only if no byte behind the first empty slice would have
fit. Whatever the slices are, what was written before stays and the buffer does not overflow. -/
theorem writeVectored_gathers_iff (buf : UninitBuf size) (slices : List (List UInt8)) :
    (Gathers buf slices ↔ (∀ slice ∈ unreached slices, slice = []) ∨
        buf.spareCapacity ≤ (reached slices).flatten.length) ∧
      (buf.writeVectored slices).2.bytes.take buf.filled = buf.bytes ∧
      (buf.writeVectored slices).2.filled ≤ size := by
  have together := flatten_reached_append slices
  have which := buf.writeVectored_eq slices
  refine ⟨⟨fun gathers => ?_,fun enough => ?_⟩,?_,(buf.writeVectored slices).2.filled_le⟩
  · by_cases room : buf.spareCapacity ≤ (reached slices).flatten.length
    · exact .inr room
    · left
      have wrote := gathers.wrote
      rw [which,write,extendFromSlice_fst,List.length_take,List.length_take,← together,
        List.length_append] at wrote
      have empty : (unreached slices).flatten.length = 0 := by omega
      exact List.flatten_eq_nil_iff.mp (List.length_eq_zero_iff.mp empty)
  · apply gathers_of_eq
    rw [which,← together]
    apply extendFromSlice_congr
    rcases enough with empty | room
    · rw [List.flatten_eq_nil_iff.mpr empty,List.append_nil]
    · rw [List.take_append_of_le_length room]
  · rw [which,write,bytes_extendFromSlice,← length_bytes,List.take_left]

theorem not_gathers_empty_first :
    ¬ Gathers (new 4) [[],[1]] ∧ (writeVectored (new 4) [[],[1]]).1 = 0 := by
  refine ⟨fun gathers => ?_,by decide⟩
  have wrote : (writeVectored (new 4) [[],[1]]).1 = 1 := gathers.wrote
  exact absurd wrote (by decide)

end Vectored

end UninitBuf

end XxCore.Io
