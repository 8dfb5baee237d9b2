import FramedStream.Bytes

/-!
# Numeric elements

Typed writes and reads move arrays of fixed-width numbers as their bytes, least significant
first. An element is its bit pattern, so a float keeps every bit, that of a NaN included.

* `bytesOf` and `wordsOf` go from elements to bytes and back;
* `drop_bytesOf`, `take_bytesOf`: a range of elements is the range of their bytes;
* `wordsOf_bytesOf`: nothing is lost on the way;
* `byteRange?` turns a range of elements into the range of their bytes.
-/

namespace FramedStream

/-- The types of number that a stream carries. -/
inductive ElementType
  | u8 | i8 | u16 | i16 | u32 | i32 | u64 | i64 | f32 | f64
  deriving DecidableEq, Repr

namespace ElementType

/-- The bytes of one element. -/
def width : ElementType → Nat
  | u8 | i8 => 1
  | u16 | i16 => 2
  | u32 | i32 | f32 => 4
  | u64 | i64 | f64 => 8

/-- The bit patterns of a type. -/
abbrev Word (t : ElementType) := BitVec (8 * t.width)

theorem width_pos (t : ElementType) : 0 < t.width := by
  cases t <;> decide

/-- The bytes of a sequence of elements. -/
def bytesOf (t : ElementType) (words : List t.Word) : Bytes :=
  words.flatMap fun word => Bytes.ofNatLE t.width word.toNat

/-- The element that starts a sequence of bytes. -/
def wordOf (t : ElementType) (bytes : Bytes) : t.Word :=
  BitVec.ofNat _ (Bytes.toNatLE (bytes.take t.width))

/-- The first `count` elements of a sequence of bytes. -/
def wordsOf (t : ElementType) : (count : Nat) → Bytes → List t.Word
  | 0, _ => []
  | count + 1, bytes => wordOf t bytes :: wordsOf t count (bytes.drop t.width)

/-- The byte offset and byte length of `count` elements from `offset` in an array of `size`,
unless they reach past its end. -/
def byteRange? (t : ElementType) (size offset count : Nat) : Option (Nat × Nat) :=
  if offset + count ≤ size then some (offset * t.width, count * t.width) else none

@[simp] theorem length_bytesOf (t : ElementType) (words : List t.Word) :
    (t.bytesOf words).length = words.length * t.width := by
  induction words with
  | nil => simp [bytesOf]
  | cons word words ih =>
    simp only [bytesOf, List.flatMap_cons, List.length_append, Bytes.length_ofNatLE,
      List.length_cons, Nat.succ_mul] at ih ⊢
    omega

theorem drop_bytesOf (t : ElementType) (words : List t.Word) (count : Nat) :
    (t.bytesOf words).drop (count * t.width) = t.bytesOf (words.drop count) := by
  induction count generalizing words with
  | zero => simp
  | succ count ih =>
    cases words with
    | nil => simp [bytesOf]
    | cons word words =>
      rw [List.drop_succ_cons, ← ih, Nat.succ_mul, Nat.add_comm, ← List.drop_drop, bytesOf,
        List.flatMap_cons, List.drop_left' (Bytes.length_ofNatLE _ _), bytesOf]

theorem take_bytesOf (t : ElementType) (words : List t.Word) (count : Nat) :
    (t.bytesOf words).take (count * t.width) = t.bytesOf (words.take count) := by
  induction count generalizing words with
  | zero => simp [bytesOf]
  | succ count ih =>
    cases words with
    | nil => simp [bytesOf]
    | cons word words =>
      have hword : (Bytes.ofNatLE t.width word.toNat).length = t.width := Bytes.length_ofNatLE _ _
      have hwidth : (count + 1) * t.width = t.width + count * t.width := by
        rw [Nat.succ_mul, Nat.add_comm]
      have hrest := ih words
      simp only [bytesOf, List.take_succ_cons, List.flatMap_cons] at hrest ⊢
      rw [List.take_append, hword, List.take_of_length_le (by omega), hwidth,
        Nat.add_sub_cancel_left, hrest]

@[simp] theorem length_wordsOf (t : ElementType) (count : Nat) (bytes : Bytes) :
    (t.wordsOf count bytes).length = count := by
  induction count generalizing bytes with
  | zero => rfl
  | succ count ih => simp [wordsOf, ih]

theorem wordOf_ofNatLE (t : ElementType) (word : t.Word) (rest : Bytes) :
    t.wordOf (Bytes.ofNatLE t.width word.toNat ++ rest) = word := by
  have hlt : word.toNat < 256 ^ t.width := by
    have h := word.isLt
    rwa [Nat.pow_mul] at h
  apply BitVec.eq_of_toNat_eq
  rw [wordOf, BitVec.toNat_ofNat, List.take_left' (Bytes.length_ofNatLE _ _),
    Bytes.toNatLE_ofNatLE, Nat.mod_eq_of_lt hlt, Nat.mod_eq_of_lt word.isLt]

theorem wordsOf_bytesOf (t : ElementType) (words : List t.Word) (rest : Bytes) :
    t.wordsOf words.length (t.bytesOf words ++ rest) = words := by
  induction words with
  | nil => rfl
  | cons word words ih =>
    simp only [bytesOf, List.flatMap_cons, List.append_assoc, List.length_cons, wordsOf] at ih ⊢
    rw [wordOf_ofNatLE, List.drop_left' (Bytes.length_ofNatLE _ _), ih]

end ElementType

end FramedStream
