import FramedStream.Proofs.Codec.Exacting
import FramedStream.Proofs.Codec.Packing
import FramedStream.Proofs.Reader.Grammar

/-!
# Payloads that are not mistaken for others

A payload declares the size of its block, and its body is exact (`Codec.Exact`). So it has no block
if it declares another size, if it is cut or if bytes follow it.

A reader that is one byte behind takes its next length from three bytes of a length field and one of
the size, and its next size from the other three and one byte of the body (`Payload.outOfStep`).
`stuck_outOfStep_leads` and `stuck_outOfStep_verbatim` say that this never makes a record: with a
library, the first byte of the body makes the size too large; without one, what the length and the
size would have to be contradict each other modulo 257.

`Codec.Rigid` is all of this together, and `Codec.rigid_bundled` says that the bundled codecs over
exact libraries are so.
-/

namespace FramedStream

open Bytes (toNatLE toNatBE ofNatLE ofNatBE)

namespace Payload

variable {body? : Bytes → Nat → Option Bytes} {raw body : Bytes}

theorem take_encode (n : Nat) (body : Bytes) : (encode n body).take 4 = ofNatLE 4 n :=
  List.take_left' (Bytes.length_ofNatLE 4 n)

theorem drop_encode (n : Nat) (body : Bytes) : (encode n body).drop 4 = body :=
  List.drop_left' (Bytes.length_ofNatLE 4 n)

theorem length_eq_of_take {payload : Bytes} (hraw : raw.length < 2 ^ 32)
    (h : payload.take 4 = ofNatLE 4 raw.length) : toNatLE (payload.take 4) = raw.length := by
  rw [h, Bytes.toNatLE_ofNatLE]
  exact Nat.mod_eq_of_lt hraw

/-! ### Other sizes, other ends -/

theorem block?_resized (h : Codec.Exact body? raw body) {field : Bytes} (hlength : field.length = 4)
    (hfield : field ≠ ofNatLE 4 raw.length) : block? body? (field ++ body) = none := by
  cases hblock : block? body? (field ++ body) with
  | none => rfl
  | some block =>
    obtain ⟨-, hsize, -, -, hbody⟩ := block?_eq_some.1 hblock
    rw [List.take_left' hlength] at hsize
    rw [List.drop_left' hlength] at hbody
    have hback := Bytes.ofNatLE_toNatLE field
    rw [hlength, hsize, h.size block hbody] at hback
    exact absurd hback.symm hfield

theorem block?_cut (h : Codec.Exact body? raw body) (hraw : raw.length < 2 ^ 32) {part : Bytes}
    (hpart : part <+: encode raw.length body) (hshort : part ≠ encode raw.length body) :
    block? body? part = none := by
  cases hblock : block? body? part with
  | none => rfl
  | some block =>
    obtain ⟨hlong, hsize, -, -, hbody⟩ := block?_eq_some.1 hblock
    obtain ⟨more, hmore⟩ := hpart
    -- the size is still there, so it is the body that was cut
    have hfield := take_encode raw.length body
    have hrest := drop_encode raw.length body
    rw [← hmore, List.take_append_of_le_length hlong] at hfield
    rw [← hmore, List.drop_append_of_le_length hlong] at hrest
    have hraw := hsize.symm.trans (length_eq_of_take hraw hfield)
    have hcut : part.drop 4 ≠ body := by
      intro heq
      rw [heq, List.append_right_eq_self] at hrest
      rw [hrest, List.append_nil] at hmore
      exact hshort hmore
    rw [hraw] at hbody
    exact absurd hraw (h.cut _ ⟨more, hrest⟩ hcut block hbody)

theorem block?_trailing (h : Codec.Exact body? raw body) (hraw : raw.length < 2 ^ 32)
    {extra : Bytes} (hextra : Zstd.StartsNoFrame extra) :
    block? body? (encode raw.length body ++ extra) = none := by
  cases hblock : block? body? (encode raw.length body ++ extra) with
  | none => rfl
  | some block =>
    obtain ⟨-, hsize, -, -, hbody⟩ := block?_eq_some.1 hblock
    have hlong : 4 ≤ (encode raw.length body).length := by
      rw [length_encode]
      exact Nat.le_add_right _ _
    have hfield : (encode raw.length body ++ extra).take 4 = ofNatLE 4 raw.length := by
      rw [List.take_append_of_le_length hlong, take_encode]
    have hraw := hsize.symm.trans (length_eq_of_take hraw hfield)
    rw [List.drop_append_of_le_length hlong, drop_encode, hraw] at hbody
    exact absurd hraw (h.trailing extra hextra block hbody)

/-! ### One byte behind -/

/-- What is left of a record whose payload has lost its last byte when the byte in front went
along with the record before. -/
def outOfStep (payload : Bytes) : Bytes :=
  (ofNatBE 4 payload.length).drop 1 ++ payload.dropLast

theorem outOfStep_encode (n : Nat) (hbody : body ≠ []) :
    outOfStep (encode n body) =
      [.ofNat ((4 + body.length) / 256 / 256), .ofNat ((4 + body.length) / 256),
        .ofNat (4 + body.length), .ofNat n] ++
      [.ofNat (n / 256), .ofNat (n / 256 / 256), .ofNat (n / 256 / 256 / 256)] ++
        body.dropLast := by
  have hdropLast : (encode n body).dropLast = ofNatLE 4 n ++ body.dropLast :=
    List.dropLast_append_of_ne_nil hbody
  rw [outOfStep, hdropLast, length_encode]
  rfl

/-- A record that is read there: its length and the size that it declares. -/
theorem lengths_of_outOfStep {n : Nat} {following payload rest : Bytes} (hn : n < 2 ^ 32)
    (hbody : body ≠ []) (hlt : payload.length < 2 ^ 32) (hlong : 4 ≤ payload.length)
    (h : outOfStep (encode n body) ++ following = record payload ++ rest) :
    payload.length = 256 * ((4 + body.length) % 2 ^ 24) + n % 256 ∧
      ∃ next after, body.dropLast ++ following = next :: after ∧
        toNatLE (payload.take 4) = n / 256 + 2 ^ 24 * next.toNat := by
  rw [outOfStep_encode n hbody, record, List.append_assoc, List.append_assoc,
    List.append_assoc] at h
  obtain ⟨hfield, htail⟩ := List.append_inj h (by simp [blockLengthSize])
  constructor
  · have hnat := congrArg toNatBE hfield
    rw [blockLengthSize, Bytes.toNatBE_ofNatBE, Nat.mod_eq_of_lt (by omega)] at hnat
    rw [← hnat]
    simp only [toNatBE, toNatLE, List.reverse_cons, List.reverse_nil, List.nil_append,
      List.cons_append, UInt8.toNat_ofNat']
    omega
  · obtain ⟨a, b, c, next, tail, rfl⟩ :
        ∃ a b c next tail, payload = a :: b :: c :: next :: tail := by
      rcases payload with _ | ⟨a, _ | ⟨b, _ | ⟨c, _ | ⟨next, tail⟩⟩⟩⟩
      case cons.cons.cons.cons => exact ⟨a, b, c, next, tail, rfl⟩
      all_goals simp at hlong
    simp only [List.cons_append, List.nil_append, List.cons.injEq] at htail
    obtain ⟨rfl, rfl, rfl, htail⟩ := htail
    refine ⟨next, tail ++ rest, htail, ?_⟩
    simp only [List.take_succ_cons, List.take_zero, toNatLE, UInt8.toNat_ofNat']
    omega

theorem stuck_outOfStep_leads {limit n : Nat} (hlimit : limit < 2 ^ 32) (hn : n < 2 ^ 32)
    (hbody : Codec.Leads body) (following : Bytes) :
    Stuck limit (block? body?) (outOfStep (encode n body) ++ following) := by
  rintro ⟨payload, rest, admits, h⟩
  obtain ⟨block, hblock⟩ := Option.isSome_iff_exists.1 admits.decodes
  obtain ⟨hlong, hsize, -, hmax, -⟩ := block?_eq_some.1 hblock
  obtain ⟨first, second, bytes, rfl, hfirst⟩ := hbody
  obtain ⟨-, next, after, hnext, hdeclared⟩ := lengths_of_outOfStep hn (List.cons_ne_nil _ _)
    (Nat.lt_of_le_of_lt admits.bounded hlimit) hlong h
  -- the first byte of the body is the highest one of the size
  obtain ⟨rfl, -⟩ := List.cons.inj hnext
  rw [hsize] at hdeclared
  simp only [maxBlockSize] at hmax
  omega

theorem stuck_outOfStep_verbatim {limit : Nat} (hlimit : limit < 2 ^ 32) (hne : raw ≠ [])
    (hraw : raw.length ≤ maxBlockSize) (following : Bytes) :
    Stuck limit (block? fun body _ => some body)
      (outOfStep (encode raw.length raw) ++ following) := by
  rintro ⟨payload, rest, admits, h⟩
  obtain ⟨block, hblock⟩ := Option.isSome_iff_exists.1 admits.decodes
  obtain ⟨hlong, hsize, -, hmax, hbody⟩ := block?_eq_some.1 hblock
  simp only [maxBlockSize] at hraw hmax
  obtain ⟨hlength, next, after, -, hdeclared⟩ := lengths_of_outOfStep (by omega) hne
    (Nat.lt_of_le_of_lt admits.bounded hlimit) hlong h
  have hdrop : (payload.drop 4).length = block.length := by rw [Option.some.inj hbody]
  rw [List.length_drop] at hdrop
  rw [hsize] at hdeclared
  -- 256 is -1 modulo 257, so the bytes of the raw length cancel out and -8 = m - X is left, where
  -- both m and X are at most 4
  omega

end Payload

namespace Codec

/-- A codec of which the payloads tell where they start: a reader that is one byte behind finds no
record. -/
structure InStep (c : Codec) (blockSize : Nat) (pack : Bytes → Bytes) (limit : Nat)
    (block? : Bytes → Option Bytes) : Prop extends Restores c blockSize pack limit block? where
  outOfStep : ∀ raw, raw ≠ [] → raw.length ≤ blockSize → ∀ following,
    Stuck limit block? (Payload.outOfStep (pack raw) ++ following)

/-- A codec of which the payloads are not mistaken for others, be it that their size or their end is
taken to be another one or that the reader is one byte behind. -/
structure Rigid (c : Codec) (blockSize : Nat) (pack : Bytes → Bytes) (limit : Nat)
    (block? : Bytes → Option Bytes) : Prop extends InStep c blockSize pack limit block? where
  resized : ∀ raw, raw ≠ [] → raw.length ≤ blockSize → ∀ field : Bytes, field.length = 4 →
    field ≠ (pack raw).take 4 → block? (field ++ (pack raw).drop 4) = none
  cut : ∀ raw, raw ≠ [] → raw.length ≤ blockSize → ∀ part, part <+: pack raw →
    part ≠ pack raw → block? part = none
  trailing : ∀ raw, raw ≠ [] → raw.length ≤ blockSize → ∀ extra, Zstd.StartsNoFrame extra →
    block? (pack raw ++ extra) = none

/-- What the payload of a block is made of. -/
theorem rigid_of_exact {c : Codec} {blockSize limit : Nat} {pack : Bytes → Bytes}
    {body? : Bytes → Nat → Option Bytes} (hmax : blockSize ≤ maxBlockSize)
    (h : c.InStep blockSize pack limit (Payload.block? body?))
    (hpack : ∀ raw, raw ≠ [] → raw.length ≤ blockSize → ∃ body,
      pack raw = Payload.encode raw.length body ∧ Exact body? raw body) :
    c.Rigid blockSize pack limit (Payload.block? body?) where
  toInStep := h
  resized raw hne hraw field hlength hfield := by
    obtain ⟨body, hbody, hexact⟩ := hpack raw hne hraw
    rw [hbody, Payload.take_encode] at hfield
    rw [hbody, Payload.drop_encode]
    exact Payload.block?_resized hexact hlength hfield
  cut raw hne hraw part hpart hshort := by
    obtain ⟨body, hbody, hexact⟩ := hpack raw hne hraw
    rw [hbody] at hpart hshort
    have hlt : maxBlockSize < 2 ^ 32 := by decide
    exact Payload.block?_cut hexact (by omega) hpart hshort
  trailing raw hne hraw extra hextra := by
    obtain ⟨body, hbody, hexact⟩ := hpack raw hne hraw
    have hlt : maxBlockSize < 2 ^ 32 := by decide
    rw [hbody]
    exact Payload.block?_trailing hexact (by omega) hextra

variable {blockSize : Nat}

theorem inStep_passthrough (hmax : blockSize ≤ maxBlockSize) :
    passthrough.InStep blockSize verbatim (4 + maxBlockSize)
      (Payload.block? fun body _ => some body) where
  toRestores := restores_passthrough hmax
  outOfStep _ hne hraw following :=
    Payload.stuck_outOfStep_verbatim (by decide) hne (hraw.trans hmax) following

theorem rigid_passthrough (hmax : blockSize ≤ maxBlockSize) :
    passthrough.Rigid blockSize verbatim (4 + maxBlockSize)
      (Payload.block? fun body _ => some body) :=
  rigid_of_exact hmax (inStep_passthrough hmax) fun raw _ _ => ⟨raw, rfl, exact_verbatim raw⟩

section Library

variable {id : UInt16} {name : String} {bound : Nat → Nat}
  {compress decompress : Bytes → Nat → Except String Bytes} (hbound : Monotone bound)
  (hinverse : Libraries.InverseOf bound compress decompress) (hmax : blockSize ≤ maxBlockSize)

include hbound hinverse hmax

/-- A library that decompresses its blocks as they were, of which the bodies start with a byte that
is none of the lowest. -/
theorem inStep_ofLibrary (hfield : 4 + bound maxBlockSize < 2 ^ 32)
    (hleads : ∀ raw body, raw ≠ [] → raw.length ≤ maxBlockSize →
      compress raw (bound blockSize) = .ok body → Leads body) :
    (ofLibrary id name bound compress decompress).InStep blockSize
      (packed compress (bound blockSize)) (4 + bound maxBlockSize)
      (Payload.block? fun body size => (decompress body size).toOption) where
  toRestores := restores_ofLibrary hbound hinverse hmax hfield
  outOfStep raw hne hraw following := by
    obtain ⟨body, hok, -, -, hpacked⟩ := compress_within hbound hinverse hmax hraw
    have hbody := hleads raw body hne (hraw.trans hmax) hok
    have hlt : maxBlockSize < 2 ^ 32 := by decide
    rw [hpacked]
    exact Payload.stuck_outOfStep_leads hfield (by omega) hbody following

/-- A library that keeps in step, of which the bodies are exact. -/
theorem rigid_ofLibrary
    (h : (ofLibrary id name bound compress decompress).InStep blockSize
      (packed compress (bound blockSize)) (4 + bound maxBlockSize)
      (Payload.block? fun body size => (decompress body size).toOption))
    (hexact : ∀ raw body, raw ≠ [] → raw.length ≤ maxBlockSize →
      compress raw (bound blockSize) = .ok body → decompress body raw.length = .ok raw →
      Exact (fun body size => (decompress body size).toOption) raw body) :
    (ofLibrary id name bound compress decompress).Rigid blockSize
      (packed compress (bound blockSize)) (4 + bound maxBlockSize)
      (Payload.block? fun body size => (decompress body size).toOption) := by
  refine rigid_of_exact hmax h fun raw hne hraw => ?_
  obtain ⟨body, hok, -, hback, hpacked⟩ := compress_within hbound hinverse hmax hraw
  exact ⟨body, hpacked, hexact raw body hne (hraw.trans hmax) hok hback⟩

end Library

section Bundled

variable {libs : Libraries} (hlibs : libs.Inverse) (hmax : blockSize ≤ maxBlockSize)

include hlibs hmax

theorem inStep_zstd (hleading : libs.Leading) (level : Int) :
    (zstd level libs).InStep blockSize
      (packed (libs.zstdCompress level) (Zstd.maxEncodedLength blockSize))
      (4 + Zstd.maxEncodedLength maxBlockSize)
      (Payload.block? fun body size => (libs.zstdDecompress body size).toOption) :=
  inStep_ofLibrary monotone_zstd (hlibs.zstd level) hmax (by decide)
    fun _ _ _ hraw hcompress => leads_zstd hleading hraw hcompress

theorem inStep_lz4 (hleading : libs.Leading) :
    (lz4 libs).InStep blockSize (packed libs.lz4Compress (Lz4.maxEncodedLength blockSize))
      (4 + Lz4.maxEncodedLength maxBlockSize)
      (Payload.block? fun body size => (libs.lz4Decompress body size).toOption) :=
  inStep_ofLibrary monotone_lz4 hlibs.lz4 hmax (by decide)
    fun _ _ hne _ hcompress => leads_lz4 hleading hcompress hne

/-- The bundled codecs keep in step if the bodies of their libraries start as they should. -/
theorem inStep_bundled (hleading : libs.Leading) {c : Codec} (hc : Bundled libs c) :
    c.id.toNat ≤ 2 ∧ ∃ pack,
      c.InStep blockSize pack (payloadLimit c.id) (Payload.block? (body? libs c.id)) := by
  cases hc with
  | passthrough => exact ⟨by decide, _, inStep_passthrough hmax⟩
  | zstd level => exact ⟨by simp [zstd, ofLibrary], _, inStep_zstd hlibs hmax hleading level⟩
  | lz4 => exact ⟨by simp [lz4, ofLibrary], _, inStep_lz4 hlibs hmax hleading⟩

/-- The bundled codecs are rigid if their libraries are exact. -/
theorem rigid_bundled (hexact : libs.Exacting) {c : Codec} (hc : Bundled libs c) :
    c.id.toNat ≤ 2 ∧ ∃ pack,
      c.Rigid blockSize pack (payloadLimit c.id) (Payload.block? (body? libs c.id)) := by
  cases hc with
  | passthrough => exact ⟨by decide, _, rigid_passthrough hmax⟩
  | zstd level =>
    refine ⟨by simp [zstd, ofLibrary], _,
      rigid_ofLibrary monotone_zstd (hlibs.zstd level) hmax
        (inStep_zstd hlibs hmax hexact.leading level) fun raw body hne hraw hcompress _ => ?_⟩
    exact exact_zstd hexact (hexact.zstd level raw _ body hraw hcompress) hne
  | lz4 =>
    exact ⟨by simp [lz4, ofLibrary], _,
      rigid_ofLibrary monotone_lz4 hlibs.lz4 hmax (inStep_lz4 hlibs hmax hexact.leading)
        fun raw body _ _ _ hback => exact_lz4 hexact hback⟩

end Bundled

end Codec

end FramedStream
