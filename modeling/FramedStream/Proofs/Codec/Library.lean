import FramedStream.Codec.Library
import FramedStream.Proofs.Lz4
import FramedStream.Proofs.Zstd.Frame

/-!
# The libraries of this project undo what they do

`Libraries.plain` compress every block of up to `maxBlockSize` bytes that has the room of the worst
case, stay within that room, and get the block back. So the assumption on libraries that is made of
the bundled codecs can be met.
-/

namespace FramedStream

namespace Libraries

theorem plain_zstd (level : Int) :
    InverseOf Zstd.maxEncodedLength (plain.zstdCompress level) plain.zstdDecompress := by
  intro raw room hraw hroom
  have hfits := Nat.le_trans (Zstd.length_encode_le level raw) hroom
  have hdecode := Zstd.decode_encode level (Nat.lt_of_le_of_lt hraw (by decide))
  refine ⟨Zstd.encode level raw, if_neg (Nat.not_lt.2 hfits), hfits, ?_⟩
  show (Zstd.decode raw.length (Zstd.encode level raw)).mapError _ = _
  rw [hdecode]
  rfl

theorem plain_lz4 : InverseOf Lz4.maxEncodedLength plain.lz4Compress plain.lz4Decompress := by
  intro raw room hraw hroom
  refine ⟨Lz4.encode raw, if_neg (Nat.not_lt.2 hroom),
    Nat.le_trans (Lz4.length_encode_le raw) hroom, ?_⟩
  show (Lz4.decode raw.length (Lz4.encode raw)).mapError _ = _
  rw [Lz4.decode_encode]
  rfl

/-- Both of the libraries are inverse to themselves. -/
theorem plain_inverse : plain.Inverse := ⟨plain_zstd, plain_lz4⟩

end Libraries

end FramedStream
