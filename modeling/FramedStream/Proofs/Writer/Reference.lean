import FramedStream.Header
import Mathlib.Data.List.Basic

/-!
# What a stream is made of

The blocks of a stream are told by what was written and by where it was flushed, and by nothing
else. `Item` is one byte written or one flush; the items of a session are cut into segments at the
flushes, and each segment into chunks of exactly the block size, of which the last may be shorter.

* `Bytes.chunks` cuts a segment, `segments` the items, `blocksOf` gives all the blocks;
* `framed` is the stream of some blocks;
* `flatten_blocksOf`: nothing is lost or moved;
* `blocksOf_append_of_dvd`: complete blocks may be split off at the front.
-/

namespace FramedStream

namespace Bytes

/-- Consecutive chunks of exactly `size` bytes. Only the last one may be shorter. -/
def chunks (size : Nat) (bytes : Bytes) : List Bytes :=
  if size = 0 ∨ bytes = [] then [] else bytes.take size :: chunks size (bytes.drop size)
termination_by bytes.length
decreasing_by
  rename_i h
  obtain ⟨hsize, hbytes⟩ := not_or.1 h
  have := List.length_pos_iff.2 hbytes
  rw [List.length_drop]
  omega

@[simp] theorem chunks_nil (size : Nat) : chunks size [] = [] := by
  rw [chunks]
  simp

theorem chunks_of_ne_nil {size : Nat} (hsize : 0 < size) {bytes : Bytes} (h : bytes ≠ []) :
    chunks size bytes = bytes.take size :: chunks size (bytes.drop size) := by
  rw [chunks, if_neg]
  simp only [not_or]
  exact ⟨by omega, h⟩

/-- A segment that fits into one block is one, unless it is empty. -/
theorem chunks_of_length_le {size : Nat} (hsize : 0 < size) {bytes : Bytes}
    (h : bytes.length ≤ size) : chunks size bytes = if bytes = [] then [] else [bytes] := by
  split
  · next hnil => rw [hnil, chunks_nil]
  · next hne =>
    rw [chunks_of_ne_nil hsize hne, List.take_of_length_le h, List.drop_of_length_le h, chunks_nil]

/-- A first chunk that is complete may be split off. -/
theorem chunks_cons {size : Nat} (hsize : 0 < size) {front : Bytes} (h : front.length = size)
    (bytes : Bytes) : chunks size (front ++ bytes) = front :: chunks size bytes := by
  have hne : front ++ bytes ≠ [] := by
    intro hnil
    have := congrArg List.length hnil
    rw [List.length_append, List.length_nil] at this
    omega
  rw [chunks_of_ne_nil hsize hne, List.take_left' h, List.drop_left' h]

theorem chunks_append_of_dvd {size : Nat} (hsize : 0 < size) {front : Bytes}
    (h : size ∣ front.length) (bytes : Bytes) :
    chunks size (front ++ bytes) = chunks size front ++ chunks size bytes := by
  obtain ⟨count, hcount⟩ := h
  -- on the number of complete chunks in front
  induction count generalizing front with
  | zero =>
    have hnil : front = [] := List.length_eq_zero_iff.1 (by simpa using hcount)
    simp [hnil]
  | succ count ih =>
    rw [Nat.mul_succ] at hcount
    have htake : (front.take size).length = size := by rw [List.length_take]; omega
    have hdrop : (front.drop size).length = size * count := by rw [List.length_drop]; omega
    have hne : front ≠ [] := by
      intro hnil
      rw [hnil, List.length_nil] at hcount
      omega
    calc chunks size (front ++ bytes)
        = chunks size (front.take size ++ (front.drop size ++ bytes)) := by
          rw [← List.append_assoc, List.take_append_drop]
      _ = front.take size :: (chunks size (front.drop size) ++ chunks size bytes) := by
          rw [chunks_cons hsize htake, ih hdrop]
      _ = chunks size front ++ chunks size bytes := by
          rw [chunks_of_ne_nil hsize hne, List.cons_append]

@[simp] theorem flatten_chunks {size : Nat} (hsize : 0 < size) (bytes : Bytes) :
    (chunks size bytes).flatten = bytes := by
  fun_induction chunks size bytes with
  | case1 bytes h =>
    rcases h with h | h
    · omega
    · simp [h]
  | case2 bytes h ih => rw [List.flatten_cons, ih, List.take_append_drop]

/-- A segment is cut into as many chunks as it takes. -/
theorem length_chunks {size : Nat} (hsize : 0 < size) (bytes : Bytes) :
    (chunks size bytes).length = (bytes.length + size - 1) / size := by
  induction hlength : bytes.length using Nat.strongRecOn generalizing bytes with
  | ind length ih =>
  subst hlength
  by_cases hnil : bytes = []
  · subst hnil
    rw [chunks_nil, List.length_nil, List.length_nil, Nat.div_eq_of_lt (by omega)]
  have hpos := List.length_pos_iff.2 hnil
  rw [chunks_of_ne_nil hsize hnil, List.length_cons, ih _ (by rw [List.length_drop]; omega) _ rfl,
    List.length_drop]
  by_cases hlong : size ≤ bytes.length
  · have hsum : bytes.length + size - 1 = bytes.length - size + size - 1 + size := by omega
    rw [hsum, Nat.add_div_right _ hsize]
  · have hrest : bytes.length - size + size - 1 = size - 1 := by omega
    have hsum : bytes.length + size - 1 = bytes.length - 1 + size := by omega
    rw [hrest, hsum, Nat.add_div_right _ hsize, Nat.div_eq_of_lt (by omega),
      Nat.div_eq_of_lt (by omega)]

/-- No chunk is empty or longer than `size`. -/
theorem length_of_mem_chunks {size : Nat} {bytes chunk : Bytes} (h : chunk ∈ chunks size bytes) :
    chunk ≠ [] ∧ chunk.length ≤ size := by
  fun_induction chunks size bytes with
  | case1 => simp at h
  | case2 bytes hne ih =>
    obtain ⟨hsize, hbytes⟩ := not_or.1 hne
    rcases List.mem_cons.1 h with rfl | h
    · refine ⟨?_, by rw [List.length_take]; omega⟩
      rw [Ne, List.take_eq_nil_iff]
      exact not_or.2 ⟨hsize, hbytes⟩
    · exact ih h

end Bytes

/-- One byte that is written, or a flush. -/
inductive Item
  | byte (byte : UInt8)
  | flush
  deriving DecidableEq, Repr

namespace Item

/-- The items of a sequence of bytes. -/
def ofBytes (bytes : Bytes) : List Item := bytes.map .byte

/-- The bytes among the items. -/
def bytes (items : List Item) : Bytes :=
  items.filterMap fun
    | .byte b => some b
    | .flush => none

/-- The bytes between the flushes. There is always a last segment, which may be empty. -/
def segments : List Item → List Bytes
  | [] => [[]]
  | .flush :: items => [] :: segments items
  | .byte b :: items => (segments items).modifyHead (b :: ·)

/-- The blocks of a stream. -/
def blocksOf (size : Nat) (items : List Item) : List Bytes :=
  (segments items).flatMap (Bytes.chunks size)

@[simp] theorem ofBytes_nil : ofBytes [] = [] := rfl

@[simp] theorem ofBytes_append (xs ys : Bytes) : ofBytes (xs ++ ys) = ofBytes xs ++ ofBytes ys :=
  List.map_append

@[simp] theorem bytes_ofBytes (xs : Bytes) : bytes (ofBytes xs) = xs := by
  simp [bytes, ofBytes, List.filterMap_map]

@[simp] theorem count_flush_ofBytes (xs : Bytes) : (ofBytes xs).count .flush = 0 := by
  simp [ofBytes, List.count_eq_zero]

@[simp] theorem bytes_append (xs ys : List Item) : bytes (xs ++ ys) = bytes xs ++ bytes ys := by
  simp [bytes]

theorem bytes_flatMap {α : Type} (f : α → List Item) (xs : List α) :
    bytes (xs.flatMap f) = xs.flatMap fun x => bytes (f x) := by
  induction xs with
  | nil => rfl
  | cons x xs ih => rw [List.flatMap_cons, List.flatMap_cons, bytes_append, ih]

theorem segments_eq_cons (items : List Item) :
    ∃ segment rest, segments items = segment :: rest := by
  induction items with
  | nil => exact ⟨[], [], rfl⟩
  | cons item items ih =>
    obtain ⟨segment, rest, h⟩ := ih
    cases item with
    | byte b => exact ⟨b :: segment, rest, by simp [segments, h]⟩
    | flush => exact ⟨[], segments items, rfl⟩

theorem segments_ofBytes_append (xs : Bytes) (items : List Item) :
    segments (ofBytes xs ++ items) = (segments items).modifyHead (xs ++ ·) := by
  induction xs with
  | nil =>
    obtain ⟨segment, rest, h⟩ := segments_eq_cons items
    simp [h]
  | cons x xs ih =>
    show (segments (ofBytes xs ++ items)).modifyHead (x :: ·) = _
    rw [ih, List.modifyHead_modifyHead]
    rfl

/-- Complete blocks may be split off at the front. -/
theorem blocksOf_append_of_dvd {size : Nat} (hsize : 0 < size) {xs : Bytes}
    (h : size ∣ xs.length) (items : List Item) :
    blocksOf size (ofBytes xs ++ items) = Bytes.chunks size xs ++ blocksOf size items := by
  obtain ⟨segment, rest, hsegments⟩ := segments_eq_cons items
  simp only [blocksOf, segments_ofBytes_append, hsegments, List.modifyHead_cons,
    List.flatMap_cons]
  rw [Bytes.chunks_append_of_dvd hsize h, List.append_assoc]

/-- What comes before a flush is cut by itself. -/
theorem blocksOf_append_flush (size : Nat) (xs : Bytes) (items : List Item) :
    blocksOf size (ofBytes xs ++ .flush :: items) =
      Bytes.chunks size xs ++ blocksOf size items := by
  simp [blocksOf, segments_ofBytes_append, segments]

theorem blocksOf_ofBytes (size : Nat) (xs : Bytes) :
    blocksOf size (ofBytes xs) = Bytes.chunks size xs := by
  have h := segments_ofBytes_append xs []
  rw [List.append_nil] at h
  simp [blocksOf, h, segments]

/-- The blocks hold exactly the bytes written, in their order. -/
theorem flatten_blocksOf {size : Nat} (hsize : 0 < size) (items : List Item) :
    (blocksOf size items).flatten = bytes items := by
  have hchunks : ∀ segments : List Bytes,
      (segments.flatMap (Bytes.chunks size)).flatten = segments.flatten := by
    intro segments
    induction segments with
    | nil => rfl
    | cons segment segments ih => simp [ih, Bytes.flatten_chunks hsize]
  rw [blocksOf, hchunks]
  induction items with
  | nil => rfl
  | cons item items ih =>
    obtain ⟨segment, rest, h⟩ := segments_eq_cons items
    cases item with
    | byte b => simpa [segments, bytes, h] using ih
    | flush => simpa [segments, bytes] using ih

/-- No block is empty or longer than the block size. -/
theorem length_of_mem_blocksOf {size : Nat} {items : List Item} {block : Bytes}
    (h : block ∈ blocksOf size items) : block ≠ [] ∧ block.length ≤ size := by
  obtain ⟨segment, -, hmem⟩ := List.mem_flatMap.1 h
  exact Bytes.length_of_mem_chunks hmem

end Item

/-- The records of some blocks that `pack` compresses. -/
def records (pack : Bytes → Bytes) (blocks : List Bytes) : Bytes :=
  blocks.flatMap fun block => record (pack block)

@[simp] theorem records_nil (pack : Bytes → Bytes) : records pack [] = [] := rfl

/-- The records of blocks are those of their payloads. -/
theorem records_eq (pack : Bytes → Bytes) (blocks : List Bytes) :
    records pack blocks = (blocks.map pack).flatMap record :=
  (List.flatMap_map pack record blocks).symm

@[simp] theorem records_append (pack : Bytes → Bytes) (xs ys : List Bytes) :
    records pack (xs ++ ys) = records pack xs ++ records pack ys :=
  List.flatMap_append

/-- A stream of some blocks: the current header of the codec, then their records. -/
def framed (codecId : UInt16) (pack : Bytes → Bytes) (blocks : List Bytes) : Bytes :=
  (Header.current codecId).encode ++ records pack blocks

end FramedStream
