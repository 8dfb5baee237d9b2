import FramedStream.Bytes

/-!
# The layout of a stream

A stream is a header of `headerSize` bytes followed by records. A record is the length of a
payload as `blockLengthSize` bytes, most significant first, and the payload itself.
-/

namespace FramedStream

/-- The bytes that open every stream. The first is no ASCII, so no text is taken for a stream. -/
def magic : Bytes := [0x82, 0x42, 0x4c, 0x4b, 0x46, 0x52, 0x4d, 0x00]

/-- The format version that a writer states. -/
def formatVersion : UInt32 := 1

/-- The oldest reader version that decodes what a writer makes. -/
def minCompatibleVersion : UInt32 := 1

/-- Magic, version, oldest reader version, codec id and two reserved bytes: 8 + 4 + 4 + 2 + 2. -/
def headerSize : Nat := 20

/-- The width of the length in front of each payload. -/
def blockLengthSize : Nat := 4

/-- The raw bytes in a block unless a writer is told otherwise: 32 KB. -/
def defaultBlockSize : Nat := 32 * 1024

/-- The most raw bytes in a block: 64 MB. -/
def maxBlockSize : Nat := 64 * 1024 * 1024

/-- The bytes of a record. -/
def record (payload : Bytes) : Bytes :=
  Bytes.ofNatBE blockLengthSize payload.length ++ payload

@[simp] theorem length_record (payload : Bytes) :
    (record payload).length = blockLengthSize + payload.length := by
  simp [record]

end FramedStream
