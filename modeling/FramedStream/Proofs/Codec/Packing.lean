import FramedStream.Proofs.Codec.Decoding
import Mathlib.Order.Monotone.Basic
import Mathlib.Order.Nat

/-!
# Codecs that compress every block

`Codec.Packs` is what a writer needs of its codec to send every block. The bundled codecs meet it,
`ofLibrary` if the library compresses whatever has enough room; the room for a short block is that
of the longest one, hence the bound on the compressed size has to be monotone.

`Codec.Restores` adds what a reader needs to get the blocks back, and `restores_bundled` says that
the bundled codecs meet this too if their libraries do.
-/

namespace FramedStream

namespace Codec

/-- A codec that compresses all blocks of up to `blockSize` bytes, as `pack` says, to a size that
fits the room for the largest block and the length field. What it leaves in the room behind the
compressed block does not matter. -/
structure Packs (c : Codec) (blockSize : Nat) (pack : Bytes → Bytes) : Prop where
  compress : ∀ call raw, raw ≠ [] → raw.length ≤ blockSize → ∃ more,
    c.compress call raw (c.maxCompressedLength blockSize) =
      .ok ⟨(pack raw).length, pack raw ++ more⟩
  room : ∀ raw, raw ≠ [] → raw.length ≤ blockSize →
    (pack raw).length ≤ c.maxCompressedLength blockSize
  field : ∀ raw, raw ≠ [] → raw.length ≤ blockSize → (pack raw).length < 2 ^ 32

/-- The payload of a block kept verbatim. -/
def verbatim (raw : Bytes) : Bytes := Payload.encode raw.length raw

/-- The payload of a block that a library compresses into the room for `bound` bytes. -/
def packed (compress : Bytes → Nat → Except String Bytes) (room : Nat) (raw : Bytes) : Bytes :=
  Payload.encode raw.length ((compress raw room).toOption.getD [])

theorem packs_passthrough {blockSize : Nat} (hmax : blockSize ≤ maxBlockSize) :
    passthrough.Packs blockSize verbatim where
  compress _ raw _ _ := ⟨[], by simp [passthrough, verbatim, Output.ofBytes]⟩
  room raw _ hraw := by
    rw [verbatim, Payload.length_encode]
    exact Nat.add_le_add_left hraw _
  field raw _ hraw := by
    rw [verbatim, Payload.length_encode]
    simp only [maxBlockSize, Payload.rawLengthSize] at *
    omega

section Library

variable {id : UInt16} {name : String} {bound : Nat → Nat}
  {compress decompress : Bytes → Nat → Except String Bytes} {blockSize : Nat}

/-- A block that is compressed within the bound for a larger one. -/
theorem compress_within (hbound : Monotone bound)
    (hinverse : Libraries.InverseOf bound compress decompress) (hmax : blockSize ≤ maxBlockSize)
    {raw : Bytes} (hraw : raw.length ≤ blockSize) :
    ∃ body, compress raw (bound blockSize) = .ok body ∧ body.length ≤ bound blockSize ∧
      decompress body raw.length = .ok raw ∧
      packed compress (bound blockSize) raw = Payload.encode raw.length body := by
  obtain ⟨body, hok, hlength, hback⟩ :=
    hinverse raw (bound blockSize) (hraw.trans hmax) (hbound hraw)
  exact ⟨body, hok, hlength, hback, by rw [packed, hok]; rfl⟩

theorem packs_ofLibrary (hbound : Monotone bound)
    (hinverse : Libraries.InverseOf bound compress decompress) (hmax : blockSize ≤ maxBlockSize)
    (hfield : Payload.rawLengthSize + bound maxBlockSize < 2 ^ 32) :
    (ofLibrary id name bound compress decompress).Packs blockSize
      (packed compress (bound blockSize)) where
  compress _ raw _ hraw := by
    obtain ⟨body, hok, -, -, hpacked⟩ := compress_within hbound hinverse hmax hraw
    refine ⟨[], ?_⟩
    simp only [ofLibrary, Nat.add_sub_cancel_left, hok, hpacked, List.append_nil, Output.ofBytes]
  room raw _ hraw := by
    obtain ⟨body, -, hlength, -, hpacked⟩ := compress_within hbound hinverse hmax hraw
    rw [hpacked, Payload.length_encode]
    exact Nat.add_le_add_left hlength _
  field raw _ hraw := by
    obtain ⟨body, -, hlength, -, hpacked⟩ := compress_within hbound hinverse hmax hraw
    have := hbound hmax
    rw [hpacked, Payload.length_encode]
    omega

end Library

/-! ### Getting blocks back -/

/-- Blocks that are compressed can be got back from their payloads, and these are as readers take
them. -/
structure Restores (c : Codec) (blockSize : Nat) (pack : Bytes → Bytes) (limit : Nat)
    (block? : Bytes → Option Bytes) : Prop extends Packs c blockSize pack where
  positive : ∀ raw, raw ≠ [] → raw.length ≤ blockSize → 1 ≤ (pack raw).length
  bounded : ∀ raw, raw ≠ [] → raw.length ≤ blockSize → (pack raw).length ≤ limit
  restored : ∀ raw, raw ≠ [] → raw.length ≤ blockSize → block? (pack raw) = some raw

/-- The block of a payload that was made for it. -/
theorem block?_encode {body? : Bytes → Nat → Option Bytes} {raw body : Bytes} (hne : raw ≠ [])
    (hmax : raw.length ≤ maxBlockSize) (hbody : body? body raw.length = some raw) :
    Payload.block? body? (Payload.encode raw.length body) = some raw := by
  have hfield : (Bytes.ofNatLE 4 raw.length).length = 4 := Bytes.length_ofNatLE _ _
  have hencode : Payload.encode raw.length body = Bytes.ofNatLE 4 raw.length ++ body := rfl
  have hlt : raw.length < 256 ^ 4 := Nat.lt_of_le_of_lt hmax (by decide)
  refine Payload.block?_eq_some.2 ⟨?_, ?_, hne, hmax, ?_⟩
  · rw [hencode, List.length_append, hfield]
    exact Nat.le_add_right _ _
  · rw [hencode, List.take_left' hfield, Bytes.toNatLE_ofNatLE, Nat.mod_eq_of_lt hlt]
  · rw [hencode, List.drop_left' hfield]
    exact hbody

theorem restores_passthrough {blockSize : Nat} (hmax : blockSize ≤ maxBlockSize) :
    passthrough.Restores blockSize verbatim (4 + maxBlockSize)
      (Payload.block? fun body _ => some body) where
  toPacks := packs_passthrough hmax
  positive raw _ _ := by
    rw [verbatim, Payload.length_encode, Payload.rawLengthSize]
    omega
  bounded raw _ hraw := by
    rw [verbatim, Payload.length_encode, Payload.rawLengthSize]
    omega
  restored raw hne hraw := block?_encode hne (Nat.le_trans hraw hmax) rfl

theorem restores_ofLibrary {id : UInt16} {name : String} {bound : Nat → Nat}
    {compress decompress : Bytes → Nat → Except String Bytes} {blockSize : Nat}
    (hbound : Monotone bound) (hinverse : Libraries.InverseOf bound compress decompress)
    (hmax : blockSize ≤ maxBlockSize) (hfield : 4 + bound maxBlockSize < 2 ^ 32) :
    (ofLibrary id name bound compress decompress).Restores blockSize
      (packed compress (bound blockSize)) (4 + bound maxBlockSize)
      (Payload.block? fun body size => (decompress body size).toOption) where
  toPacks := packs_ofLibrary hbound hinverse hmax hfield
  positive raw _ hraw := by
    obtain ⟨body, -, -, -, hpacked⟩ := compress_within hbound hinverse hmax hraw
    rw [hpacked, Payload.length_encode, Payload.rawLengthSize]
    omega
  bounded raw _ hraw := by
    obtain ⟨body, -, hlength, -, hpacked⟩ := compress_within hbound hinverse hmax hraw
    have := hbound hmax
    rw [hpacked, Payload.length_encode, Payload.rawLengthSize]
    omega
  restored raw hne hraw := by
    obtain ⟨body, -, -, hback, hpacked⟩ := compress_within hbound hinverse hmax hraw
    rw [hpacked]
    exact block?_encode hne (Nat.le_trans hraw hmax) (by rw [hback]; rfl)

theorem monotone_zstd : Monotone Zstd.maxEncodedLength := by
  intro m n h
  have hblock : Zstd.maxBlock = 131072 := rfl
  unfold Zstd.maxEncodedLength
  split
  · split <;> omega
  · split <;> omega

theorem monotone_lz4 : Monotone Lz4.maxEncodedLength := by
  intro m n h
  simp only [Lz4.maxEncodedLength]
  omega

/-- The bundled codecs over some libraries. -/
inductive Bundled (libs : Libraries) : Codec → Prop
  | passthrough : Bundled libs passthrough
  | zstd (level : Int) : Bundled libs (zstd level libs)
  | lz4 : Bundled libs (lz4 libs)

/-- If the libraries undo what they do, so do the bundled codecs, and the reader that is opened for
their id takes their payloads. -/
theorem restores_bundled {libs : Libraries} (hlibs : libs.Inverse) {c : Codec}
    (hc : Bundled libs c) {blockSize : Nat} (hmax : blockSize ≤ maxBlockSize) :
    c.id.toNat ≤ 2 ∧ ∃ pack,
      c.Restores blockSize pack (payloadLimit c.id) (Payload.block? (body? libs c.id)) := by
  cases hc with
  | passthrough => exact ⟨by decide, _, restores_passthrough hmax⟩
  | zstd level =>
    exact ⟨by simp [zstd, ofLibrary], _,
      restores_ofLibrary monotone_zstd (hlibs.zstd level) hmax (by decide)⟩
  | lz4 =>
    exact ⟨by simp [lz4, ofLibrary], _,
      restores_ofLibrary monotone_lz4 hlibs.lz4 hmax (by decide)⟩

end Codec

end FramedStream
