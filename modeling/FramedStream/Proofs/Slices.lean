import FramedStream.Buffer

/-!
# Slices

A program that works on buffers in place names their parts by two places. Where these are no part
of the buffer the program does not go on, and nor does it where a difference would be less than
zero. An operation that may come to such an end is one with an `Option`: `none` is a trap.

* `minus?` is a difference, `Bytes.slice?` a part that is read, and `Bytes.put?` one that is
  overwritten, by as many bytes; `minus?_eq_none_iff`, `slice?_eq_none_iff` and `put?_eq_none_iff`
  say when they trap;
* `Bytes.splice` is what a buffer holds once a piece was put somewhere (`put?_at`), and pieces that
  are put one behind the other are one piece (`splice_splice`);
* `Bytes.resized` and `Bytes.under` are what a resized buffer holds, and one with other bytes at its
  front. They are those of a `Buffer` that is refilled (`Buffer.toList_refill_eq`).
-/

namespace FramedStream

/-- The difference of two numbers. It traps if that is less than zero. -/
def minus? (a b : Nat) : Option Nat := if b ≤ a then some (a - b) else none

theorem minus?_of_le {a b : Nat} (h : b ≤ a) : minus? a b = some (a - b) := if_pos h

theorem minus?_eq_none_iff {a b : Nat} : minus? a b = none ↔ a < b := by
  simp [minus?]

namespace Bytes

variable {bs piece : Bytes} {first last length : Nat}

/-- The bytes from `first` up to `last`. It traps if they are not all there. -/
def slice? (bs : Bytes) (first last : Nat) : Option Bytes :=
  if first ≤ last ∧ last ≤ bs.length then some ((bs.take last).drop first) else none

theorem slice?_of_le (h : first ≤ last) (h' : last ≤ bs.length) :
    bs.slice? first last = some ((bs.take last).drop first) :=
  if_pos ⟨h, h'⟩

theorem slice?_eq_none_iff : bs.slice? first last = none ↔ last < first ∨ bs.length < last := by
  unfold slice?
  constructor
  · intro h
    split at h
    · cases h
    · next hrange => omega
  · intro h
    rw [if_neg (by omega)]

/-- The front of a buffer. -/
theorem slice?_front (h : last ≤ bs.length) : bs.slice? 0 last = some (bs.take last) := by
  rw [slice?_of_le (Nat.zero_le _) h, List.drop_zero]

/-- A buffer without its front. -/
theorem slice?_back (h : first ≤ bs.length) : bs.slice? first bs.length = some (bs.drop first) := by
  rw [slice?_of_le h (Nat.le_refl _), List.take_length]

/-- The buffer with a piece in place of the bytes from `first` up to `last`. It traps if these are
not all there, or are not as many. -/
def put? (bs : Bytes) (first last : Nat) (piece : Bytes) : Option Bytes :=
  if first ≤ last ∧ last ≤ bs.length ∧ piece.length = last - first then
    some (bs.take first ++ piece ++ bs.drop last)
  else none

theorem put?_of_le (h : first ≤ last) (h' : last ≤ bs.length)
    (hpiece : piece.length = last - first) :
    bs.put? first last piece = some (bs.take first ++ piece ++ bs.drop last) :=
  if_pos ⟨h, h', hpiece⟩

theorem put?_eq_none_iff : bs.put? first last piece = none ↔
    last < first ∨ bs.length < last ∨ piece.length ≠ last - first := by
  unfold put?
  constructor
  · intro h
    split at h
    · cases h
    · next hrange => omega
  · intro h
    rw [if_neg (by omega)]

/-- A buffer with a piece at some place, over as many of its own bytes. -/
def splice (bs : Bytes) (first : Nat) (piece : Bytes) : Bytes :=
  bs.take first ++ piece ++ bs.drop (first + piece.length)

theorem put?_at (h : first + piece.length ≤ bs.length) :
    bs.put? first (first + piece.length) piece = some (bs.splice first piece) :=
  put?_of_le (Nat.le_add_right _ _) h (Nat.add_sub_cancel_left _ _).symm

theorem length_splice (h : first + piece.length ≤ bs.length) :
    (bs.splice first piece).length = bs.length := by
  rw [splice, List.length_append, List.length_append, List.length_drop,
    List.length_take_of_le (by omega)]
  omega

@[simp] theorem splice_nil (bs : Bytes) (first : Nat) : bs.splice first [] = bs := by
  rw [splice, List.append_nil, List.length_nil, Nat.add_zero, List.take_append_drop]

/-- The front as far as the piece goes. -/
theorem take_splice (h : first ≤ bs.length) :
    (bs.splice first piece).take (first + piece.length) = bs.take first ++ piece := by
  apply List.take_left'
  rw [List.length_append, List.length_take_of_le h]

/-- The piece is there to be read. -/
theorem slice?_splice (h : first + piece.length ≤ bs.length) :
    (bs.splice first piece).slice? first (first + piece.length) = some piece := by
  have hfirst : first ≤ bs.length := Nat.le_trans (Nat.le_add_right _ _) h
  have hfront := List.length_take_of_le hfirst
  rw [slice?_of_le (Nat.le_add_right _ _) (by rwa [length_splice h]), take_splice hfirst,
    List.drop_left' hfront]

/-- A piece that is put behind another one. -/
theorem splice_splice (h : first ≤ bs.length) (more : Bytes) :
    (bs.splice first piece).splice (first + piece.length) more =
      bs.splice first (piece ++ more) := by
  have hfront : (bs.take first ++ piece).length = first + piece.length := by
    rw [List.length_append, List.length_take_of_le h]
  have hback : (bs.splice first piece).drop (first + piece.length + more.length) =
      bs.drop (first + piece.length + more.length) := by
    rw [splice, ← List.drop_drop, List.drop_left' hfront, List.drop_drop]
  rw [splice, take_splice h, hback, splice, List.length_append, ← Nat.add_assoc,
    List.append_assoc (bs.take first)]

/-- A piece at the front of a buffer. -/
theorem put?_front (h : piece.length ≤ bs.length) :
    bs.put? 0 piece.length piece = some (piece ++ bs.drop piece.length) := by
  rw [put?_of_le (Nat.zero_le _) h (Nat.sub_zero _).symm, List.take_zero, List.nil_append]

/-- A buffer that is made `length` bytes long. What is new is zero. -/
def resized (bs : Bytes) (length : Nat) : Bytes := (bs ++ List.replicate length 0).take length

@[simp] theorem length_resized (bs : Bytes) (length : Nat) :
    (bs.resized length).length = length := by
  rw [resized, List.length_take, List.length_append, List.length_replicate]
  omega

theorem resized_nil (length : Nat) : resized [] length = List.replicate length 0 := by
  rw [resized, List.nil_append, List.take_replicate, Nat.min_self]

theorem resized_of_length (h : bs.length = length) : bs.resized length = bs := by
  rw [resized, List.take_append_of_le_length (Nat.le_of_eq h.symm), List.take_of_length_le]
  exact Nat.le_of_eq h

theorem resized_of_le (h : bs.length ≤ length) :
    bs.resized length = bs ++ List.replicate (length - bs.length) 0 := by
  rw [resized, List.take_append, List.take_of_length_le h, List.take_replicate,
    Nat.min_eq_left (Nat.sub_le _ _)]

/-- A buffer with other bytes at its front. -/
def under (bs front : Bytes) : Bytes := front ++ bs.drop front.length

theorem length_under (h : piece.length ≤ bs.length) : (bs.under piece).length = bs.length := by
  rw [under, List.length_append, List.length_drop]
  omega

theorem under_append (h : piece.length ≤ bs.length) (more : Bytes) :
    under (bs ++ more) piece = bs.under piece ++ more := by
  rw [under, under, List.drop_append_of_le_length h, List.append_assoc]

/-- A part at the front of a buffer, put back with other bytes at its own front. -/
theorem put?_under (h : piece.length ≤ last) (h' : last ≤ bs.length) :
    bs.put? 0 last (under (bs.take last) piece) = some (bs.under piece) := by
  have hpart : (bs.take last).length = last := List.length_take_of_le h'
  have hlength : (under (bs.take last) piece).length = last := by
    rw [length_under (hpart.symm ▸ h), hpart]
  have hrest : (bs.take last).drop piece.length ++ bs.drop last = bs.drop piece.length := by
    rw [← List.drop_append_of_le_length (hpart.symm ▸ h), List.take_append_drop]
  rw [put?_of_le (Nat.zero_le _) h' hlength, List.take_zero, List.nil_append, under, under,
    List.append_assoc, hrest]

end Bytes

/-- A buffer that is refilled is one that is resized and then has the bytes at its front. -/
theorem Buffer.toList_refill_eq (b : Buffer) {length : Nat} {bytes : Bytes}
    (h : bytes.length ≤ length) :
    (b.refill length bytes).toList = (Bytes.resized b.toList length).under bytes :=
  b.toList_refill h

end FramedStream
