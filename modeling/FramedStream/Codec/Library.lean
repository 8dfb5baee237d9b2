import FramedStream.Layout
import FramedStream.Lz4.Block
import FramedStream.Zstd.Encode

/-!
# Compression libraries

The bundled codecs leave the compressing to libraries of the two formats, and any libraries will
do: they are an argument of whatever uses them, up to the commands of the program. A library is
given a room and either stays within it or says in words why it does not.

`Libraries.plain` are ones that a program can be put together with. `Libraries.Inverse` is what
readers rely on: a block that was compressed into enough room is decompressed to what it was.
-/

namespace FramedStream

/-- Libraries that compress blocks and decompress them again. -/
structure Libraries where
  zstdCompress : (level : Int) → (raw : Bytes) → (room : Nat) → Except String Bytes
  zstdDecompress : (body : Bytes) → (room : Nat) → Except String Bytes
  lz4Compress : (raw : Bytes) → (room : Nat) → Except String Bytes
  lz4Decompress : (body : Bytes) → (room : Nat) → Except String Bytes

namespace Libraries

/-- Zstandard frames that are only as small as a simple search makes them, and LZ4 blocks, for
which the room has to be that of the worst case, whatever the block needs. -/
def plain : Libraries where
  zstdCompress level raw room :=
    let body := Zstd.encode level raw
    if room < body.length then .error "the frame does not fit into the room" else .ok body
  zstdDecompress body room := (Zstd.decode room body).mapError Zstd.Fault.message
  lz4Compress raw room :=
    if room < Lz4.maxEncodedLength raw.length then
      .error "the room is too small for the worst case"
    else .ok (Lz4.encode raw)
  lz4Decompress body room := (Lz4.decode room body).mapError Lz4.Fault.message

/-- `compress` succeeds in a room of at least `bound` bytes and stays within it, and `decompress`
undoes it, for blocks of up to `maxBlockSize` bytes. -/
def InverseOf (bound : Nat → Nat) (compress decompress : Bytes → Nat → Except String Bytes) :
    Prop :=
  ∀ raw room, raw.length ≤ maxBlockSize → bound raw.length ≤ room →
    ∃ body, compress raw room = .ok body ∧ body.length ≤ room ∧
      decompress body raw.length = .ok raw

/-- Both libraries undo what they do. -/
structure Inverse (libs : Libraries) : Prop where
  zstd : ∀ level, InverseOf Zstd.maxEncodedLength (libs.zstdCompress level) libs.zstdDecompress
  lz4 : InverseOf Lz4.maxEncodedLength libs.lz4Compress libs.lz4Decompress

end Libraries

end FramedStream
