/-!
# Bytes and words

A byte sequence is a list of `UInt8`. A number of known width is written with its least
significant byte first (`ofNatLE`) or last (`ofNatBE`) and read back by `toNatLE`, `toNatBE`.

* `toNatLE_ofNatLE`, `toNatBE_ofNatBE`: reading what was written gives the number modulo the
  width;
* `ofNatLE_toNatLE`, `ofNatBE_toNatBE`: writing what was read gives the bytes back.

A format is taken apart with `split?`, which fails where bytes are missing (`split?_eq_some`).
-/

namespace FramedStream

-- powers and the zero of a sum are those of `Nat` itself, whatever else is imported
attribute [instance (high), default_instance (high)] instPowNat
attribute [instance (high)] Zero.ofOfNat0

/-- A finite sequence of bytes. -/
abbrev Bytes := List UInt8

namespace Bytes

/-- The number whose digits to base 256 are the bytes, least significant first. -/
def toNatLE : Bytes → Nat
  | [] => 0
  | b :: bs => b.toNat + 256 * toNatLE bs

/-- The number whose digits to base 256 are the bytes, most significant first. -/
def toNatBE (bs : Bytes) : Nat :=
  toNatLE bs.reverse

/-- The low `width` bytes of a number, least significant first. -/
def ofNatLE : (width n : Nat) → Bytes
  | 0, _ => []
  | width + 1, n => UInt8.ofNat n :: ofNatLE width (n / 256)

/-- The low `width` bytes of a number, most significant first. -/
def ofNatBE (width n : Nat) : Bytes :=
  (ofNatLE width n).reverse

@[simp] theorem length_ofNatLE (width n : Nat) : (ofNatLE width n).length = width := by
  induction width generalizing n with
  | zero => rfl
  | succ width ih => simp [ofNatLE, ih]

@[simp] theorem length_ofNatBE (width n : Nat) : (ofNatBE width n).length = width := by
  simp [ofNatBE]

/-- The last byte that is written is the most significant one. -/
theorem ofNatLE_succ (width n : Nat) :
    ofNatLE (width + 1) n = ofNatLE width n ++ [UInt8.ofNat (n / 256 ^ width)] := by
  induction width generalizing n with
  | zero => simp [ofNatLE]
  | succ width ih =>
    rw [ofNatLE, ih, Nat.div_div_eq_div_mul, ← Nat.pow_succ']
    rfl

theorem toNatLE_lt (bs : Bytes) : toNatLE bs < 256 ^ bs.length := by
  induction bs with
  | nil => simp [toNatLE]
  | cons b bs ih =>
    have hb := b.toNat_lt
    simp only [toNatLE, List.length_cons, Nat.pow_succ]
    omega

theorem toNatBE_lt (bs : Bytes) : toNatBE bs < 256 ^ bs.length := by
  simpa [toNatBE] using toNatLE_lt bs.reverse

theorem toNatLE_ofNatLE (width n : Nat) : toNatLE (ofNatLE width n) = n % 256 ^ width := by
  induction width generalizing n with
  | zero => simp [ofNatLE, toNatLE, Nat.mod_one]
  | succ width ih =>
    rw [ofNatLE, toNatLE, ih, Nat.pow_succ, Nat.mul_comm (256 ^ width) 256, Nat.mod_mul]
    simp [UInt8.toNat_ofNat']

theorem toNatBE_ofNatBE (width n : Nat) : toNatBE (ofNatBE width n) = n % 256 ^ width := by
  simp [toNatBE, ofNatBE, toNatLE_ofNatLE]

theorem ofNatLE_toNatLE (bs : Bytes) : ofNatLE bs.length (toNatLE bs) = bs := by
  induction bs with
  | nil => rfl
  | cons b bs ih =>
    have hb := b.toNat_lt
    have hdiv : (b.toNat + 256 * toNatLE bs) / 256 = toNatLE bs := by omega
    simp only [List.length_cons, toNatLE, ofNatLE, hdiv, ih, List.cons.injEq, and_true]
    apply UInt8.toNat_inj.1
    rw [UInt8.toNat_ofNat']
    omega

theorem ofNatBE_toNatBE (bs : Bytes) : ofNatBE bs.length (toNatBE bs) = bs := by
  have h := ofNatLE_toNatLE bs.reverse
  rw [List.length_reverse] at h
  simp [ofNatBE, toNatBE, h]

/-- The first `count` bytes and the rest, unless there are fewer. -/
def split? (count : Nat) (bs : Bytes) : Option (Bytes × Bytes) :=
  let front := bs.take count
  if front.length = count then some (front, bs.drop count) else none

theorem split?_eq_some {count : Nat} {bs front rest : Bytes} :
    split? count bs = some (front, rest) ↔ bs = front ++ rest ∧ front.length = count := by
  simp only [split?]
  constructor
  · intro h
    split at h
    · next hlen =>
      obtain ⟨rfl, rfl⟩ := Prod.mk.inj (Option.some.inj h)
      exact ⟨(List.take_append_drop _ _).symm, hlen⟩
    · cases h
  · rintro ⟨rfl, rfl⟩
    simp

theorem split?_append {count : Nat} {front : Bytes} (h : front.length = count) (rest : Bytes) :
    split? count (front ++ rest) = some (front, rest) :=
  split?_eq_some.2 ⟨rfl, h⟩

theorem length_split? {count : Nat} {bs front rest : Bytes}
    (h : split? count bs = some (front, rest)) : bs.length = count + rest.length := by
  obtain ⟨rfl, hlen⟩ := split?_eq_some.1 h
  rw [List.length_append, hlen]

end Bytes

end FramedStream
