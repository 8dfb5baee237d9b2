import FramedStream.Bytes

/-!
# Buffers

A buffer that is resized keeps its first bytes and gets zeros for what is new. It may be made much
longer than what is then put into it, so the zeros at its end are only counted.

`toList_refill` says what a refilled buffer holds; `toList_refill_full` is the case of a buffer
that is filled to its end. `take_refill` is why a buffer may be used again and again: what was put
at its front is all that is seen there, whatever the buffer held before.
-/

namespace FramedStream

/-- A buffer: its first bytes, and how many zeros follow them. -/
structure Buffer where
  front : Bytes := []
  zeros : Nat := 0
  deriving DecidableEq, Repr

namespace Buffer

/-- The bytes of a buffer. -/
def toList (b : Buffer) : Bytes := b.front ++ List.replicate b.zeros 0

/-- The length of a buffer. -/
def size (b : Buffer) : Nat := b.front.length + b.zeros

/-- The first `count` bytes of a buffer, or all if there are fewer. -/
def take (b : Buffer) (count : Nat) : Bytes :=
  b.front.take count ++ List.replicate (min (count - b.front.length) b.zeros) 0

/-- The buffer once it is `length` bytes long and `bytes` have been put at its front. -/
def refill (b : Buffer) (length : Nat) (bytes : Bytes) : Buffer :=
  let front := bytes ++ (b.front.take length).drop bytes.length
  { front, zeros := length - front.length }

theorem toList_refill (b : Buffer) {length : Nat} {bytes : Bytes} (h : bytes.length ≤ length) :
    (b.refill length bytes).toList =
      bytes ++ ((b.toList ++ List.replicate length 0).take length).drop bytes.length := by
  have hzeros : (b.toList ++ List.replicate length 0).take length =
      b.front.take length ++ List.replicate (length - b.front.length) 0 := by
    rw [toList, List.append_assoc, List.replicate_append_replicate, List.take_append,
      List.take_replicate, Nat.min_eq_left (by omega)]
  rw [hzeros, List.drop_append, List.drop_replicate, toList, refill, List.append_assoc]
  congr 3
  simp only [List.length_append, List.length_drop, List.length_take]
  omega

theorem toList_refill_full (b : Buffer) {length : Nat} {bytes : Bytes}
    (h : bytes.length = length) : (b.refill length bytes).toList = bytes := by
  subst h
  simp [toList_refill]

@[simp] theorem length_toList (b : Buffer) : b.toList.length = b.size := by
  simp [toList, size]

theorem take_eq (b : Buffer) (count : Nat) : b.take count = b.toList.take count := by
  simp [take, toList, List.take_append, List.take_replicate]

theorem size_refill (b : Buffer) {length : Nat} {bytes : Bytes} (h : bytes.length ≤ length) :
    (b.refill length bytes).size = length := by
  simp only [refill, size, List.length_append, List.length_drop, List.length_take]
  omega

/-- What was put at the front of a buffer is what is seen there. -/
theorem take_refill (b : Buffer) {length count : Nat} {bytes : Bytes} (h : bytes.length ≤ length)
    (hcount : count ≤ bytes.length) : (b.refill length bytes).take count = bytes.take count := by
  rw [take_eq, toList_refill b h, List.take_append_of_le_length hcount]

/-- As many bytes are seen as are asked for, if the buffer is long enough. -/
theorem length_take_refill (b : Buffer) {length count : Nat} {bytes : Bytes}
    (h : bytes.length ≤ length) (hcount : count ≤ length) :
    ((b.refill length bytes).take count).length = count := by
  rw [take_eq, List.length_take, length_toList, size_refill b h]
  omega

end Buffer

end FramedStream
