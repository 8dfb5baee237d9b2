import FramedStream.Proofs.Codec.Library
import FramedStream.Proofs.Lz4.Extent
import FramedStream.Proofs.Zstd.Extent

/-!
# Libraries that are exact

A reader has no checksum, so whether damage is noticed depends on what a library decompresses beside
what was compressed. `Libraries.Exacting` is what the two formats say about it, and
`Libraries.plain_exacting` that the libraries of this project keep to them:

* an LZ4 block that is decompressed makes as much as its lengths add up to, to the last byte of the
  input, and a block of something starts with literals;
* a Zstandard frame (`OneFrame`) starts with its magic number, makes what it states or fails, and
  fails if it is cut or followed by bytes that start no frame.

Of this, `Libraries.Leading` is what concerns the first bytes of a body only, and is enough where
nothing damaged is decompressed. `Codec.Exact` is what comes of it for the body of a payload,
whichever codec made it.
-/

namespace FramedStream

namespace Libraries

/-- What a decompressor of Zstandard makes of a body that was compressed as one frame. -/
structure OneFrame (decompress : Bytes → Nat → Except String Bytes) (raw body : Bytes) : Prop where
  /-- The first byte is that of a frame or of one to be skipped. -/
  magic : ∃ first second rest, body = first :: second :: rest ∧
    (first.toNat = 0x28 ∨ 0x50 ≤ first.toNat ∧ first.toNat ≤ 0x5f)
  size : ∀ room out, decompress body room = .ok out → out.length = raw.length
  cut : ∀ part, part <+: body → part ≠ [] → part ≠ body →
    ∀ out, decompress part raw.length ≠ .ok out
  trailing : ∀ extra, Zstd.StartsNoFrame extra →
    ∀ out, decompress (body ++ extra) raw.length ≠ .ok out

/-- Libraries that keep to the formats, also where they decompress what they have not compressed. -/
structure Exacting (libs : Libraries) : Prop where
  zstd : ∀ level raw room body, raw.length ≤ maxBlockSize →
    libs.zstdCompress level raw room = .ok body → OneFrame libs.zstdDecompress raw body
  zstdEmpty : ∀ room out, libs.zstdDecompress [] room = .ok out → out = []
  lz4 : ∀ body room out, libs.lz4Decompress body room = .ok out → Lz4.Measures body out.length
  lz4First : ∀ raw room body, raw ≠ [] → libs.lz4Compress raw room = .ok body →
    ∃ token next rest, body = token :: next :: rest ∧ 16 ≤ token.toNat

/-- Libraries of which the bodies start as their formats say: a frame with the magic number of one,
and a block of something with a token that counts literals and with the first of these. -/
structure Leading (libs : Libraries) : Prop where
  zstd : ∀ level raw room body, raw.length ≤ maxBlockSize →
    libs.zstdCompress level raw room = .ok body →
    ∃ first second rest, body = first :: second :: rest ∧
      (first.toNat = 0x28 ∨ 0x50 ≤ first.toNat ∧ first.toNat ≤ 0x5f)
  lz4 : ∀ raw room body, raw ≠ [] → libs.lz4Compress raw room = .ok body →
    ∃ token literal rest, body = token :: literal :: rest ∧ 16 ≤ token.toNat

theorem Exacting.leading {libs : Libraries} (h : libs.Exacting) : libs.Leading where
  zstd level raw room body hraw hcompress := (h.zstd level raw room body hraw hcompress).magic
  lz4 := h.lz4First

/-- What is compressed does not depend on the room, once there is enough of it. -/
theorem plain_zstdCompress {level : Int} {raw body : Bytes} {room : Nat}
    (h : plain.zstdCompress level raw room = .ok body) : body = Zstd.encode level raw := by
  have h : (if room < (Zstd.encode level raw).length then
    .error "the frame does not fit into the room" else .ok (Zstd.encode level raw)) =
      (.ok body : Except String Bytes) := h
  split at h
  · cases h
  · exact (Except.ok.inj h).symm

theorem plain_lz4Compress {raw body : Bytes} {room : Nat}
    (h : plain.lz4Compress raw room = .ok body) : body = Lz4.encode raw := by
  have h : (if room < Lz4.maxEncodedLength raw.length then
    .error "the room is too small for the worst case" else .ok (Lz4.encode raw)) =
      (.ok body : Except String Bytes) := h
  split at h
  · cases h
  · exact (Except.ok.inj h).symm

theorem plain_zstdDecompress {body out : Bytes} {room : Nat}
    (h : plain.zstdDecompress body room = .ok out) : Zstd.decode room body = .ok out := by
  have h : (Zstd.decode room body).mapError Zstd.Fault.message = .ok out := h
  cases hdecode : Zstd.decode room body with
  | error fault => rw [hdecode] at h; cases h
  | ok raw => rw [hdecode] at h; exact congrArg _ (Except.ok.inj h)

theorem plain_lz4Decompress {body out : Bytes} {room : Nat}
    (h : plain.lz4Decompress body room = .ok out) : Lz4.decode room body = .ok out := by
  have h : (Lz4.decode room body).mapError Lz4.Fault.message = .ok out := h
  cases hdecode : Lz4.decode room body with
  | error fault => rw [hdecode] at h; cases h
  | ok raw => rw [hdecode] at h; exact congrArg _ (Except.ok.inj h)

theorem oneFrame_plain {raw body : Bytes} (h : Zstd.FrameOf raw body) :
    OneFrame plain.zstdDecompress raw body where
  magic := by
    cases h with
    | intro => exact ⟨0x28, 0xb5, _, rfl, .inl rfl⟩
  size room out hout := h.size_of_decode (plain_zstdDecompress hout)
  cut part hpart hne hshort out hout := h.cut hpart hne hshort out (plain_zstdDecompress hout)
  trailing extra hextra out hout := h.trailing hextra out (plain_zstdDecompress hout)

/-- The plain libraries are exact. -/
theorem plain_exacting : plain.Exacting where
  zstd level raw room body hraw hcompress := by
    rw [plain_zstdCompress hcompress]
    exact oneFrame_plain (Zstd.frameOf_encode level (Nat.lt_of_le_of_lt hraw (by decide)))
  zstdEmpty room out hout := by
    have hdecode := plain_zstdDecompress hout
    rw [Zstd.decode, Zstd.decodeFrames] at hdecode
    exact (Except.ok.inj hdecode).symm
  lz4 body room out hout := Lz4.measures_of_decode (plain_lz4Decompress hout)
  lz4First raw room body hne hcompress := by
    rw [plain_lz4Compress hcompress]
    exact Lz4.first_of_decode (Lz4.decode_encode raw) hne

end Libraries

namespace Codec

/-- The body of a block: it declares no other size, and neither a part of it nor itself with bytes
behind that start no frame makes as much as the block has. -/
structure Exact (body? : Bytes → Nat → Option Bytes) (raw body : Bytes) : Prop where
  size : ∀ out, body? body out.length = some out → out.length = raw.length
  cut : ∀ part, part <+: body → part ≠ body →
    ∀ out, body? part raw.length = some out → out.length ≠ raw.length
  trailing : ∀ extra, Zstd.StartsNoFrame extra →
    ∀ out, body? (body ++ extra) raw.length = some out → out.length ≠ raw.length

theorem exact_verbatim (raw : Bytes) : Exact (fun body _ => some body) raw raw where
  size out hout := by rw [Option.some.inj hout]
  cut part hpart hshort out hout := by
    cases hout
    exact fun h => hshort (hpart.eq_of_length h)
  trailing extra hextra out hout := by
    cases hout
    obtain ⟨first, rest, rfl, -⟩ := hextra
    simp

variable {libs : Libraries} {raw body : Bytes}

theorem eq_ok_of_toOption {result : Except String Bytes} {out : Bytes}
    (h : result.toOption = some out) : result = .ok out := by
  cases result with
  | error reason => cases h
  | ok raw => exact congrArg _ (Option.some.inj h)

theorem exact_zstd (hlibs : libs.Exacting) (hbody : Libraries.OneFrame libs.zstdDecompress raw body)
    (hne : raw ≠ []) :
    Exact (fun body size => (libs.zstdDecompress body size).toOption) raw body where
  size out hout := hbody.size _ _ (eq_ok_of_toOption hout)
  cut part hpart hshort out hout := by
    have hout := eq_ok_of_toOption hout
    by_cases hnil : part = []
    · rw [hnil] at hout
      rw [hlibs.zstdEmpty _ _ hout]
      exact fun h => hne (List.length_eq_zero_iff.1 h.symm)
    · exact absurd hout (hbody.cut part hpart hnil hshort out)
  trailing extra hextra out hout :=
    absurd (eq_ok_of_toOption hout) (hbody.trailing extra hextra out)

theorem exact_lz4 (hlibs : libs.Exacting) (hbody : libs.lz4Decompress body raw.length = .ok raw) :
    Exact (fun body size => (libs.lz4Decompress body size).toOption) raw body := by
  have hraw := hlibs.lz4 _ _ _ hbody
  have hcopy : 0 < Lz4.leastCopy := by decide
  refine ⟨fun out hout => ?_, fun part hpart hshort out hout => ?_, fun extra hextra out hout => ?_⟩
  · have hsize := hlibs.lz4 _ _ _ (eq_ok_of_toOption hout)
    rw [← List.append_nil body] at hsize
    rcases hraw.compare hsize with ⟨-, heq⟩ | ⟨hnil, -⟩
    · exact heq
    · exact absurd rfl hnil
  · have hsize := hlibs.lz4 _ _ _ (eq_ok_of_toOption hout)
    obtain ⟨more, rfl⟩ := hpart
    rcases hsize.compare hraw with ⟨rfl, -⟩ | ⟨-, hle⟩
    · exact absurd (List.append_nil part).symm hshort
    · omega
  · have hsize := hlibs.lz4 _ _ _ (eq_ok_of_toOption hout)
    rcases hraw.compare hsize with ⟨rfl, -⟩ | ⟨-, hle⟩
    · obtain ⟨first, rest, hnil, -⟩ := hextra
      cases hnil
    · omega

/-- A body of which the first byte is not one of the lowest: as the highest byte of a size it would
declare more than a block may have. -/
def Leads (body : Bytes) : Prop := ∃ first second rest, body = first :: second :: rest ∧
  16 ≤ first.toNat

theorem leads_zstd (hlibs : libs.Leading) {level : Int} {room : Nat}
    (hraw : raw.length ≤ maxBlockSize)
    (hbody : libs.zstdCompress level raw room = .ok body) : Leads body := by
  obtain ⟨first, second, rest, hbytes, hfirst⟩ := hlibs.zstd level raw room body hraw hbody
  exact ⟨first, second, rest, hbytes, by omega⟩

theorem leads_lz4 (hlibs : libs.Leading) {room : Nat}
    (hbody : libs.lz4Compress raw room = .ok body) (hne : raw ≠ []) : Leads body :=
  hlibs.lz4 raw room body hne hbody

end Codec

end FramedStream
