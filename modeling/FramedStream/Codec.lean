import FramedStream.Buffer
import FramedStream.Error

/-!
# Codecs

A codec compresses each block by itself. Writer and reader know of it only what stands here: an
id for the header, a name, a bound on the size of what it makes, and three operations. An
operation is told how often it was called before on this codec, so a codec may be anything that
reacts to its calls, one that fails now and then or reports wrong numbers included; a codec that
ignores the count is *deterministic*.

The room that an operation is given is a number of bytes. What it puts there comes back as an
`Output`: the count that it reports, and the bytes at the front of the room. The two need not
agree, and whoever calls has to check the count. The room is the front of a buffer that the caller
uses again for every block (`Output.into`), so where a codec reports more than it has put there,
the rest is what the buffer held before; `Output.view` is the case of a buffer of zeros.
-/

namespace FramedStream

/-- What an operation of a codec puts into the room that it was given. -/
structure Output where
  reported : Nat
  bytes : Bytes
  deriving Repr, DecidableEq

/-- The output of an operation that reports what it did. -/
def Output.ofBytes (bytes : Bytes) : Output := ⟨bytes.length, bytes⟩

/-- The reported bytes, in a room of zeros. -/
def Output.view (o : Output) : Bytes :=
  if o.bytes.length = o.reported then o.bytes
  else o.bytes.take o.reported ++ List.replicate (o.reported - o.bytes.length) 0

/-- A buffer of some length after the output was put into a room at its front. -/
def Output.into (o : Output) (buffer : Buffer) (length room : Nat) : Buffer :=
  buffer.refill length (o.bytes.take room)

theorem Output.length_take_into (o : Output) (buffer : Buffer) {length room count : Nat}
    (hroom : room ≤ length) (hcount : count ≤ length) :
    ((o.into buffer length room).take count).length = count :=
  buffer.length_take_refill (by rw [List.length_take]; omega) hcount

theorem Output.size_into (o : Output) (buffer : Buffer) {length room : Nat}
    (hroom : room ≤ length) : (o.into buffer length room).size = length :=
  buffer.size_refill (by rw [List.length_take]; omega)

/-- The reported bytes are seen as they were put, whatever follows them in the room and whatever
the buffer held before. -/
theorem Output.take_into (buffer : Buffer) {bytes : Bytes} (more : Bytes) {length room : Nat}
    (hbytes : bytes.length ≤ room) (hroom : room ≤ length) :
    ((Output.mk bytes.length (bytes ++ more)).into buffer length room).take bytes.length =
      bytes := by
  have hfits : ((bytes ++ more).take room).length ≤ length := by rw [List.length_take]; omega
  have hcount : bytes.length ≤ ((bytes ++ more).take room).length := by
    rw [List.length_take, List.length_append]
    omega
  rw [into, buffer.take_refill hfits hcount, List.take_take, Nat.min_eq_left hbytes,
    List.take_left]

/-- How blocks are compressed and decompressed. -/
structure Codec where
  id : UInt16
  name : String
  /-- A bound on the compressed size of a block of this many raw bytes. -/
  maxCompressedLength : Nat → Nat
  /-- Compress a block into the room. -/
  compress : (call : Nat) → (raw : Bytes) → (room : Nat) → Except Error Output
  /-- The raw size that a payload declares. -/
  declaredLength : (call : Nat) → (payload : Bytes) → Except Error Nat
  /-- Decompress a payload into the room, which is of the declared size. -/
  decompress : (call : Nat) → (payload : Bytes) → (room : Nat) → Except Error Output

end FramedStream
