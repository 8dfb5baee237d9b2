import FramedStream.Bytes

/-!
# Bits

The bits of a byte sequence are numbered from the low bit of the first byte. A table description
is read upwards (`bitsFrom`). A bitstream is read downwards, from below the highest bit that is
set: that bit marks the end (`BitReader.ofBytes?`).

Reading below the first bit gives zeros and is remembered, so a stream that was used up exactly
can be told from any other (`BitReader.isFinished`). Where the end of a stream is not looked at,
reading goes around instead: below the first bit come the first 64 bits once more
(`BitReader.peekAround`, `BitReader.skipAround`).
-/

namespace FramedStream.Zstd

/-- The number that `count` bytes from `first` on make, the first being least significant. Bytes
beyond the end are zero. -/
def window (bytes : Array UInt8) (first : Nat) : (count : Nat) → Nat
  | 0 => 0
  | count + 1 => (bytes.getD first 0).toNat + 256 * window bytes (first + 1) count

/-- The `count` bits from bit `low` on, as a number. -/
def bitsFrom (bytes : Array UInt8) (low count : Nat) : Nat :=
  window bytes (low / 8) ((low % 8 + count + 7) / 8) / 2 ^ (low % 8) % 2 ^ count

/-- A bitstream that is read downwards. -/
structure BitReader where
  bytes : Array UInt8
  /-- The bits that have not been read. -/
  left : Nat
  /-- Whether more was read than there was. -/
  overrun : Bool
  deriving Repr

namespace BitReader

/-- The bitstream in some bytes, unless they are empty or the last one has no bit set. -/
def ofBytes? (bytes : Array UInt8) : Option BitReader :=
  match bytes.back? with
  | none => none
  | some last =>
      if last = 0 then none
      else some ⟨bytes, 8 * (bytes.size - 1) + last.toNat.log2, false⟩

/-- The bitstream that ends with the byte before `stop`. It goes down to the first byte of all. If
the byte has no bit set, the stream starts with its highest bit. -/
def endingAt (bytes : Array UInt8) (stop : Nat) : BitReader :=
  let last := bytes.getD (stop - 1) 0
  ⟨bytes, if last = 0 then 8 * stop else 8 * (stop - 1) + last.toNat.log2, false⟩

/-- The next `count` bits as a number, the first one most significant. -/
def peek (r : BitReader) (count : Nat) : Nat :=
  if count ≤ r.left then bitsFrom r.bytes (r.left - count) count
  else bitsFrom r.bytes 0 r.left * 2 ^ (count - r.left)

/-- The stream after the next `count` bits. -/
def skip (r : BitReader) (count : Nat) : BitReader :=
  { r with left := r.left - count, overrun := r.overrun || r.left < count }

/-- The next `count` bits, and the stream after them. -/
def read (r : BitReader) (count : Nat) : Nat × BitReader :=
  (r.peek count, r.skip count)

/-- The next `count` bits. After the last one the first 64 bits follow. -/
def peekAround (r : BitReader) (count : Nat) : Nat :=
  { r with left := if r.left = 0 then 64 else r.left }.peek count

/-- The stream after `count` bits, where the first 64 bits follow the last one. -/
def skipAround (r : BitReader) (count : Nat) : BitReader :=
  { r with left := if count ≤ r.left then r.left - count else r.left + 64 - count }

/-- Whether exactly the bits that there were have been read. -/
def isFinished (r : BitReader) : Bool :=
  r.left = 0 && !r.overrun

@[simp] theorem read_zero (r : BitReader) : r.read 0 = (0, r) := by
  simp [read, peek, skip, bitsFrom, Nat.mod_one]

end BitReader

end FramedStream.Zstd
