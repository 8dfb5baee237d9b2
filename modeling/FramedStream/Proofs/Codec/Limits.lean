import FramedStream.Proofs.Codec.Exacting
import FramedStream.Proofs.Codec.Packing
import FramedStream.Proofs.Ranges
import FramedStream.Proofs.Slices
import FramedStream.Proofs.Writer.Books

/-!
# The limits of writer and reader

A writer makes one room for compressed blocks, that of a block which is complete, and uses it for
all blocks. A reader takes payloads up to the bound for the largest block there can be. With the
bundled codecs neither is ever in the way.

* `Choice.boundWords?` is the bound of a codec in checked words. `computes_boundWords?` says that
  nothing in it overflows, and `monotone_bound` that the bound rises with the size of the block,
  although that of Zstandard has a part that falls;
* `Choice.compressInto?` compresses in place, with a trap where the room has no place for the raw
  length or for what is made. `fits_compressInto?` says that there is none in a room as large as the
  bound for the block, and what the payload is like (`Codec.Fits`);
* `Writer.Blames` are the errors that a call can end with, and `Reader.Clears` says that no check of
  a length stops a payload;
* `limits_fit` puts these together.
-/

namespace FramedStream

/-! ### Bounds in words -/

/-- The product of two words, unless it does not fit one. -/
def checkedMul (a b : UInt64) : Option UInt64 :=
  if a.toNat * b.toNat < 2 ^ 64 then some (a * b) else none

/-- The difference of two words, unless it is less than zero. -/
def checkedSub (a b : UInt64) : Option UInt64 :=
  if b.toNat ≤ a.toNat then some (a - b) else none

/-- A word that was to be computed is there, and stands for a number. -/
def Computes (word? : Option UInt64) (n : Nat) : Prop := ∃ word, word? = some word ∧ word.toNat = n

theorem computes_add {a b : UInt64} (h : a.toNat + b.toNat < 2 ^ 64) :
    Computes (checkedAdd a b) (a.toNat + b.toNat) :=
  ⟨a + b, if_pos h, by rw [UInt64.toNat_add, Nat.mod_eq_of_lt h]⟩

theorem computes_mul {a b : UInt64} (h : a.toNat * b.toNat < 2 ^ 64) :
    Computes (checkedMul a b) (a.toNat * b.toNat) :=
  ⟨a * b, if_pos h, by rw [UInt64.toNat_mul, Nat.mod_eq_of_lt h]⟩

theorem computes_sub {a b : UInt64} (h : b.toNat ≤ a.toNat) :
    Computes (checkedSub a b) (a.toNat - b.toNat) :=
  ⟨a - b, if_pos h, UInt64.toNat_sub_of_le a b (UInt64.le_iff_toNat_le.2 h)⟩

/-- The bound of Zstandard for `n` bytes, as `n + (n >> 8)` and what a short block needs beside. -/
def Zstd.boundWords? (n : UInt64) : Option UInt64 := do
  let sum ← checkedAdd n (n >>> 8)
  if n < 131072 then
    let missing ← checkedSub 131072 n
    checkedAdd sum (missing >>> 11)
  else some sum

/-- The bound of LZ4 for `n` bytes. -/
def Lz4.boundWords? (n : UInt64) : Option UInt64 := do
  let product ← checkedMul n 110
  checkedAdd 20 (product / 100)

theorem Zstd.computes_boundWords? {n : UInt64} (h : n.toNat ≤ maxBlockSize) :
    Computes (Zstd.boundWords? n) (Zstd.maxEncodedLength n.toNat) := by
  have hmax : maxBlockSize = 67108864 := rfl
  have hblock : Zstd.maxBlock = 131072 := rfl
  have hlimit : (131072 : UInt64).toNat = 131072 := rfl
  have hshift : (n >>> 8).toNat = n.toNat / 256 := by
    rw [UInt64.toNat_shiftRight]
    exact Nat.shiftRight_eq_div_pow _ 8
  obtain ⟨sum, hsum, hvalue⟩ := computes_add (a := n) (b := n >>> 8) (by omega)
  rw [hshift] at hvalue
  simp only [Zstd.boundWords?, hsum, Option.bind_eq_bind, Option.bind_some]
  unfold Zstd.maxEncodedLength
  rw [hblock]
  by_cases hshort : n.toNat < 131072
  · obtain ⟨missing, hmissing, hrest⟩ := computes_sub (a := 131072) (b := n) (by omega)
    have hmargin : (missing >>> 11).toNat = (131072 - n.toNat) / 2048 := by
      rw [UInt64.toNat_shiftRight, hrest, hlimit]
      exact Nat.shiftRight_eq_div_pow _ 11
    obtain ⟨total, htotal, hend⟩ := computes_add (a := sum) (b := missing >>> 11) (by omega)
    rw [if_pos (UInt64.lt_iff_toNat_lt.2 hshort), if_pos hshort, hmissing, Option.bind_some]
    exact ⟨total, htotal, by omega⟩
  · rw [if_neg fun hlt => hshort (UInt64.lt_iff_toNat_lt.1 hlt), if_neg hshort]
    exact ⟨sum, rfl, by omega⟩

theorem Lz4.computes_boundWords? {n : UInt64} (h : n.toNat ≤ maxBlockSize) :
    Computes (Lz4.boundWords? n) (Lz4.maxEncodedLength n.toNat) := by
  have hmax : maxBlockSize = 67108864 := rfl
  have hfixed : (20 : UInt64).toNat = 20 := rfl
  have hfactor : n.toNat * (110 : UInt64).toNat = n.toNat * 110 := rfl
  obtain ⟨product, hproduct, hvalue⟩ := computes_mul (a := n) (b := 110) (by omega)
  have hpart : (product / 100).toNat = n.toNat * 110 / 100 := by
    rw [UInt64.toNat_div, hvalue, hfactor]
    rfl
  obtain ⟨total, htotal, hend⟩ := computes_add (a := 20) (b := product / 100) (by omega)
  simp only [Lz4.boundWords?, hproduct, Option.bind_eq_bind, Option.bind_some]
  unfold Lz4.maxEncodedLength
  exact ⟨total, htotal, by omega⟩

namespace Codec

/-- The bundled codecs, with what may be chosen about them. -/
inductive Choice
  | passthrough
  | zstd (level : Int)
  | lz4

namespace Choice

/-- The codec over some libraries. -/
def codec (libs : Libraries) : Choice → Codec
  | passthrough => .passthrough
  | zstd level => .zstd level libs
  | lz4 => .lz4 libs

/-- There are no other bundled codecs. -/
theorem bundled_iff {libs : Libraries} {c : Codec} :
    Bundled libs c ↔ ∃ choice : Choice, choice.codec libs = c := by
  constructor
  · rintro (_ | level | _)
    · exact ⟨passthrough, rfl⟩
    · exact ⟨zstd level, rfl⟩
    · exact ⟨lz4, rfl⟩
  · rintro ⟨_ | level | _, rfl⟩
    · exact .passthrough
    · exact .zstd level
    · exact .lz4

/-- A bound on what is put behind the raw length of `n` bytes. -/
def bodyBound : Choice → Nat → Nat
  | passthrough, n => n
  | zstd _, n => Zstd.maxEncodedLength n
  | lz4, n => Lz4.maxEncodedLength n

/-- The same in words. -/
def bodyBoundWords? : Choice → UInt64 → Option UInt64
  | passthrough, n => some n
  | zstd _, n => Zstd.boundWords? n
  | lz4, n => Lz4.boundWords? n

/-- The bound of a codec in words, which counts the raw length too. -/
def boundWords? (choice : Choice) (n : UInt64) : Option UInt64 := do
  let body ← choice.bodyBoundWords? n
  checkedAdd 4 body

variable (libs : Libraries) (choice : Choice)

theorem bound_eq (n : Nat) :
    (choice.codec libs).maxCompressedLength n = 4 + choice.bodyBound n := by
  cases choice <;> rfl

theorem monotone_bodyBound : Monotone choice.bodyBound := by
  intro m n h
  cases choice with
  | passthrough => exact h
  | zstd level => exact monotone_zstd h
  | lz4 => exact monotone_lz4 h

theorem monotone_bound : Monotone (choice.codec libs).maxCompressedLength := by
  intro m n h
  rw [bound_eq, bound_eq]
  exact Nat.add_le_add_left (monotone_bodyBound choice h) 4

/-- The bound for the largest block fits the length field. -/
theorem bound_max_lt : (choice.codec libs).maxCompressedLength maxBlockSize < 2 ^ 32 := by
  rw [bound_eq]
  cases choice with
  | passthrough => decide
  | zstd level =>
    show 4 + Zstd.maxEncodedLength maxBlockSize < 2 ^ 32
    decide
  | lz4 => decide

theorem computes_bodyBoundWords? {n : UInt64} (h : n.toNat ≤ maxBlockSize) :
    Computes (choice.bodyBoundWords? n) (choice.bodyBound n.toNat) := by
  cases choice with
  | passthrough => exact ⟨n, rfl, rfl⟩
  | zstd level => exact Zstd.computes_boundWords? h
  | lz4 => exact Lz4.computes_boundWords? h

theorem computes_boundWords? {n : UInt64} (h : n.toNat ≤ maxBlockSize) :
    Computes (choice.boundWords? n) ((choice.codec libs).maxCompressedLength n.toNat) := by
  have hfield : (4 : UInt64).toNat = 4 := rfl
  have hlt := Nat.lt_of_le_of_lt (monotone_bound libs choice h) (bound_max_lt libs choice)
  obtain ⟨body, hbody, hvalue⟩ := computes_bodyBoundWords? choice h
  rw [bound_eq] at hlt ⊢
  obtain ⟨total, htotal, hend⟩ := computes_add (a := 4) (b := body) (by omega)
  rw [boundWords?, hbody, Option.bind_eq_bind, Option.bind_some]
  exact ⟨total, htotal, by omega⟩

end Choice

end Codec

/-! ### Compressing in place -/

/-- Put a raw length at the front of a buffer, and give that front and what is behind it. -/
def Payload.putLength? (rawLength : Nat) (buffer : Bytes) : Option (Bytes × Bytes) := do
  let buffer ← buffer.put? 0 rawLengthSize (Bytes.ofNatLE rawLengthSize rawLength)
  let front ← buffer.slice? 0 rawLengthSize
  let back ← buffer.slice? rawLengthSize buffer.length
  some (front, back)

theorem Payload.putLength?_of_le {rawLength : Nat} {buffer : Bytes}
    (h : rawLengthSize ≤ buffer.length) : putLength? rawLength buffer =
      some (Bytes.ofNatLE rawLengthSize rawLength, buffer.drop rawLengthSize) := by
  have hfield : (Bytes.ofNatLE rawLengthSize rawLength).length = rawLengthSize :=
    Bytes.length_ofNatLE _ _
  have hput := Bytes.put?_front (hfield.symm ▸ h)
  rw [hfield] at hput
  have hlong : rawLengthSize ≤
      (Bytes.ofNatLE rawLengthSize rawLength ++ buffer.drop rawLengthSize).length := by
    rw [List.length_append, hfield]
    exact Nat.le_add_right _ _
  simp only [putLength?, hput, Bytes.slice?_front hlong, Bytes.slice?_back hlong,
    Option.bind_eq_bind, Option.bind_some, List.take_left' hfield, List.drop_left' hfield]

/-- What is compressed is no longer than the bound for it, however much more room there is. -/
structure Libraries.Bounded (libs : Libraries) : Prop where
  zstd : ∀ level raw room body, raw.length ≤ maxBlockSize →
    libs.zstdCompress level raw room = .ok body → body.length ≤ Zstd.maxEncodedLength raw.length
  lz4 : ∀ raw room body, raw.length ≤ maxBlockSize →
    libs.lz4Compress raw room = .ok body → body.length ≤ Lz4.maxEncodedLength raw.length

theorem Libraries.plain_bounded : plain.Bounded where
  zstd level raw room body _ hcompress := by
    rw [plain_zstdCompress hcompress]
    exact Zstd.length_encode_le level raw
  lz4 raw room body _ hcompress := by
    rw [plain_lz4Compress hcompress]
    exact Lz4.length_encode_le raw

namespace Codec

/-- A payload that a codec makes of a block in some room. It is the same in every call, within the
bound for the block, and as long as a raw length and a byte at least, and it declares the size of
the block. -/
structure Fits (c : Codec) (raw : Bytes) (room : Nat) (payload : Bytes) : Prop where
  compress : ∀ call, c.compress call raw room = .ok (.ofBytes payload)
  shortest : 5 ≤ payload.length
  longest : payload.length ≤ c.maxCompressedLength raw.length
  declared : ∀ call, c.declaredLength call payload = .ok raw.length

namespace Choice

variable {libs : Libraries} {choice : Choice} {raw buffer : Bytes} {room : Nat}

/-- Compress what is put behind the raw length: verbatim, or by a library. -/
def compressBody (libs : Libraries) : Choice → Bytes → Nat → Except String Bytes
  | passthrough, raw, _ => .ok raw
  | zstd level, raw, room => libs.zstdCompress level raw room
  | lz4, raw, room => libs.lz4Compress raw room

/-- Compress into the front of a buffer. What comes of it is the count that is reported, and the
buffer then. -/
def compressInto? (libs : Libraries) (choice : Choice) (raw buffer : Bytes) :
    Option (Except Error (Nat × Bytes)) := do
  let (front, back) ← Payload.putLength? raw.length buffer
  match choice.compressBody libs raw back.length with
  | .error reason => some (.error (.codec (choice.codec libs).name reason))
  | .ok body =>
      let back ← back.put? 0 body.length body
      some (.ok (Payload.rawLengthSize + body.length, front ++ back))

theorem compress_of_body {body : Bytes}
    (h : choice.compressBody libs raw (room - Payload.rawLengthSize) = .ok body) (call : Nat) :
    (choice.codec libs).compress call raw room =
      .ok (.ofBytes (Payload.encode raw.length body)) := by
  cases choice with
  | passthrough =>
    cases h
    rfl
  | zstd level =>
    have h : libs.zstdCompress level raw (room - Payload.rawLengthSize) = .ok body := h
    simp only [Choice.codec, Codec.zstd, ofLibrary, h]
  | lz4 =>
    have h : libs.lz4Compress raw (room - Payload.rawLengthSize) = .ok body := h
    simp only [Choice.codec, Codec.lz4, ofLibrary, h]

/-- Whatever the codec, there is something behind the raw length and it keeps to the bound. -/
theorem exists_body (hinverse : libs.Inverse) (hleading : libs.Leading) (hbounded : libs.Bounded)
    (choice : Choice) (hne : raw ≠ []) (hraw : raw.length ≤ maxBlockSize)
    (hroom : choice.bodyBound raw.length ≤ room) :
    ∃ body, choice.compressBody libs raw room = .ok body ∧ 1 ≤ body.length ∧
      body.length ≤ choice.bodyBound raw.length := by
  cases choice with
  | passthrough => exact ⟨raw, rfl, List.length_pos_iff.2 hne, Nat.le_refl _⟩
  | zstd level =>
    obtain ⟨body, hok, -, -⟩ := hinverse.zstd level raw room hraw hroom
    obtain ⟨first, second, rest, hbody, -⟩ := hleading.zstd level raw room body hraw hok
    refine ⟨body, hok, ?_, hbounded.zstd level raw room body hraw hok⟩
    rw [hbody]
    exact Nat.le_add_left 1 _
  | lz4 =>
    obtain ⟨body, hok, -, -⟩ := hinverse.lz4 raw room hraw hroom
    obtain ⟨token, next, rest, hbody, -⟩ := hleading.lz4 raw room body hne hok
    refine ⟨body, hok, ?_, hbounded.lz4 raw room body hraw hok⟩
    rw [hbody]
    exact Nat.le_add_left 1 _

theorem declaredLength_encode (choice : Choice) (hraw : raw.length ≤ maxBlockSize) (body : Bytes)
    (call : Nat) : (choice.codec libs).declaredLength call (Payload.encode raw.length body) =
      .ok raw.length := by
  have hfield : raw.length < 2 ^ 32 := Nat.lt_of_le_of_lt hraw (by decide)
  have hdeclared : ∀ name, Payload.declaredLength name (Payload.encode raw.length body) =
      .ok raw.length := by
    intro name
    rw [Payload.declaredLength, Payload.decode_encode name raw.length body hfield]
    rfl
  cases choice with
  | passthrough => exact hdeclared "passthrough"
  | zstd level => exact hdeclared "zstd"
  | lz4 => exact hdeclared "lz4"

/-- In a buffer that is as large as the bound for the block there is no trap and no failure, and
what is reported is what stands at its front. -/
theorem fits_compressInto? (hinverse : libs.Inverse) (hleading : libs.Leading)
    (hbounded : libs.Bounded) (choice : Choice) (hne : raw ≠ []) (hraw : raw.length ≤ maxBlockSize)
    (hroom : (choice.codec libs).maxCompressedLength raw.length ≤ buffer.length) :
    ∃ payload, (choice.codec libs).Fits raw buffer.length payload ∧
      choice.compressInto? libs raw buffer =
        some (.ok (payload.length, buffer.under payload)) := by
  have hsize : Payload.rawLengthSize = 4 := rfl
  rw [bound_eq] at hroom
  have hback : (buffer.drop Payload.rawLengthSize).length = buffer.length - 4 := List.length_drop
  have hbody : choice.bodyBound raw.length ≤ buffer.length - Payload.rawLengthSize := by omega
  obtain ⟨body, hok, hsome, hwithin⟩ := exists_body hinverse hleading hbounded choice hne hraw hbody
  have hlength : (Payload.encode raw.length body).length = 4 + body.length :=
    Payload.length_encode _ _
  refine ⟨Payload.encode raw.length body, ?_, ?_⟩
  · constructor
    · exact compress_of_body hok
    · omega
    · rw [bound_eq]
      omega
    · exact declaredLength_encode choice hraw body
  · have hfits : body.length ≤ (buffer.drop Payload.rawLengthSize).length := by omega
    have hput := Bytes.put?_front hfits
    have hfield : Payload.rawLengthSize ≤ buffer.length := by omega
    have hfront : Payload.putLength? raw.length buffer =
        some (Bytes.ofNatLE Payload.rawLengthSize raw.length, buffer.drop Payload.rawLengthSize) :=
      Payload.putLength?_of_le hfield
    rw [← List.length_drop] at hok
    simp only [compressInto?, hfront, hok, hput, Option.bind_eq_bind, Option.bind_some,
      List.drop_drop, Bytes.under, Payload.encode, List.append_assoc, List.length_append,
      Bytes.length_ofNatLE]

end Choice

end Codec

/-! ### What a writer can fail of -/

namespace Writer

variable {w w₁ : Writer} {e : Error}

/-- What the error of a call is to be blamed on: the call itself, the sink, or the codec, which was
given what was pending in some state between the call and its end. -/
inductive Blames (w : Writer) : Error → Prop
  | refusal (refusal : Refusal) : Blames w (.config refusal)
  | closed : Blames w .closed
  | broken : Blames w .broken
  | sink (failure : IoFailure) : Blames w (.io failure)
  | codec {w₁ : Writer} {e : Error} (reaches : Reaches w w₁) (pending : w₁.pending ≠ [])
      (pack : w₁.pack.1 = .error e) : Blames w e

theorem Blames.of_reaches (hreach : Reaches w w₁) (h : Blames w₁ e) : Blames w e := by
  cases h with
  | refusal refusal => exact .refusal refusal
  | closed => exact .closed
  | broken => exact .broken
  | sink failure => exact .sink failure
  | codec reaches pending pack => exact .codec (hreach.trans reaches) pending pack

theorem unusable?_blames (h : w.unusable? = some e) : Blames w e := by
  unfold unusable? at h
  split at h
  · cases h
  · cases h
    exact .broken
  · cases h
    exact .closed

theorem emit_blames (h : w.emit.1 = .error e) : Blames w e := by
  have hemits := emits w
  generalize w.emit = outcome at hemits h
  cases hemits with
  | nothing => cases h
  | refused pending pack =>
    cases h
    exact .codec .refl pending pack
  | sent => cases h
  | torn =>
    cases h
    exact .sink _

theorem andThen_blames {x : Except Error Unit × Writer}
    {f : Writer → Except Error Unit × Writer} (hx : x.1 = .error e → Blames w e)
    (hf : ∀ w₁, x = (.ok (), w₁) → (f w₁).1 = .error e → Blames w e)
    (h : (andThen x f).1 = .error e) : Blames w e := by
  obtain ⟨_ | _, w₁⟩ := x
  · exact hx h
  · exact hf w₁ rfl h

theorem append_blames (hw : w.Bounded) (usable : w.phase = .accepting) {bytes : Bytes}
    (h : (w.append bytes).1 = .error e) : Blames w e := by
  refine append_induct (motive := fun w bytes => w.phase = .accepting →
    (w.append bytes).1 = .error e → Blames w e) ?_ ?_ ?_ hw bytes usable h
  · intro w _ h
    cases h
  · intro w bytes hlt _ h
    rw [append_of_lt hlt] at h
    cases h
  · intro w bytes hw hne hle hfill ih usable h
    have haccept := accept_moves usable (Nat.le_of_eq hfill)
    rw [append_of_le hw hne hle] at h
    refine andThen_blames (fun hemit => (emit_blames hemit).of_reaches haccept) ?_ h
    intro w₁ hemit hrest
    have hreach := emit_moves (w := w.accept (bytes.take (w.blockSize - w.pending.length))) usable
    rw [hemit] at hreach
    have hblames := ih w₁ hemit ((emit_ok hemit).2.2.trans usable) hrest
    exact hblames.of_reaches (haccept.trans hreach)

theorem writeBytes_blames (hw : w.Bounded) {buffer : Bytes} {offset length : Nat}
    (h : (w.writeBytes buffer offset length).1 = .error e) : Blames w e := by
  unfold writeBytes at h
  split at h
  · next hunusable =>
    cases h
    exact unusable?_blames hunusable
  next husable =>
  split at h
  · cases h
    exact .refusal _
  · exact append_blames hw (accepting_of_usable husable) h

theorem writeByte_blames {byte : UInt8} (h : (w.writeByte byte).1 = .error e) : Blames w e := by
  unfold writeByte at h
  split at h
  · next hunusable =>
    cases h
    exact unusable?_blames hunusable
  split at h
  · split at h
    · cases h
    · next hemit =>
      cases h
      exact emit_blames (congrArg Prod.fst hemit)
  · cases h

theorem writeElements_blames (hw : w.Bounded) {t : ElementType} {array : List t.Word}
    {offset count : Nat} (h : (w.writeElements t array offset count).1 = .error e) :
    Blames w e := by
  unfold writeElements at h
  split at h
  · cases h
    exact .refusal _
  · exact writeBytes_blames hw h

theorem flush_blames (h : w.flush.1 = .error e) : Blames w e := by
  unfold flush at h
  split at h
  · next hunusable =>
    cases h
    exact unusable?_blames hunusable
  split at h
  · unfold flushSink at h
    split at h
    · cases h
    · cases h
      exact .sink _
  · next hemit =>
    cases h
    exact emit_blames (congrArg Prod.fst hemit)

/-- The error of every call. -/
theorem operate_blames (hw : w.Bounded) {c : Call} (h : (c.operate w).1 = .error e) :
    Blames w e := by
  cases c with
  | writeBytes buffer offset length => exact writeBytes_blames hw h
  | writeByte byte => exact writeByte_blames h
  | writeElements t array offset count => exact writeElements_blames hw h
  | writeAllElements t array => exact writeElements_blames hw h
  | write buffer => exact writeBytes_blames hw h
  | flush | flushIo => exact flush_blames h
  | close =>
    simp only [Call.operate, close] at h
    split at h
    · cases h
    · cases h
    · exact flush_blames h
  | finish =>
    simp only [Call.operate, finish] at h
    split at h
    · cases h
    · next hflush =>
      cases h
      exact flush_blames (congrArg Prod.fst hflush)
  | drop => cases h

end Writer

/-! ### The limits fit -/

namespace Reader

/-- No check of a length or of a size in the reader refuses this payload of a block. -/
structure Clears (r : Reader) (raw payload : Bytes) : Prop where
  length : Bytes.toNatBE (Bytes.ofNatBE blockLengthSize payload.length) = payload.length
  nonzero : (r.fetchPayload payload.length).1 ≠ .error (.format (.zeroLength r.blocksRead))
  short : (r.fetchPayload payload.length).1 ≠
    .error (.format (.longPayload r.blocksRead payload.length r.maxPayload))
  declared : r.codec.declaredLength r.lengthCalls payload = .ok raw.length
  size : ¬(raw.length = 0 ∨ maxBlockSize < raw.length)

/-- A length between one byte and the limit is refused by neither check. What fails then is the
source. -/
theorem fetchPayload_of_le {r : Reader} {length : Nat} (hpos : 1 ≤ length)
    (hle : length ≤ r.maxPayload) (block limit : Nat) :
    (r.fetchPayload length).1 ≠ .error (.format (.zeroLength block)) ∧
      (r.fetchPayload length).1 ≠ .error (.format (.longPayload block length limit)) := by
  unfold fetchPayload
  rw [if_neg (by omega), if_neg (by omega)]
  constructor
  · intro h
    simp only at h
    split at h
    · cases h
    · cases h
    · split at h <;> cases h
  · intro h
    simp only at h
    split at h
    · cases h
    · cases h
    · split at h <;> cases h

end Reader

section Limits

variable {libs : Libraries} {c : Codec} {choice : Codec.Choice} {raw payload : Bytes}
  {blockSize room : Nat}

/-- The codec of an id has the bound and the raw length of any codec with this id. -/
theorem Codec.Choice.of_ofId {c' : Codec} (h : ofId (choice.codec libs).id libs = .ok c') :
    c'.maxCompressedLength = (choice.codec libs).maxCompressedLength ∧
      c'.declaredLength = (choice.codec libs).declaredLength := by
  cases choice with
  | passthrough =>
    cases h
    exact ⟨rfl, rfl⟩
  | zstd level =>
    cases h
    exact ⟨rfl, rfl⟩
  | lz4 =>
    cases h
    exact ⟨rfl, rfl⟩

/-- A reader of the codec, or of the one that the id in the header stands for, takes the payload. -/
theorem Codec.Fits.clears (hfits : (choice.codec libs).Fits raw room payload) (hne : raw ≠ [])
    (hraw : raw.length ≤ maxBlockSize) {r : Reader}
    (hr : r.codec = choice.codec libs ∨ ofId (choice.codec libs).id libs = .ok r.codec) :
    r.Clears raw payload := by
  have hcodec : r.codec.maxCompressedLength = (choice.codec libs).maxCompressedLength ∧
      r.codec.declaredLength = (choice.codec libs).declaredLength := by
    rcases hr with hsame | hid
    · rw [hsame]
      exact ⟨rfl, rfl⟩
    · exact Choice.of_ofId hid
  obtain ⟨hbound, hdeclared⟩ := hcodec
  have hlongest := hfits.longest.trans (Choice.monotone_bound libs choice hraw)
  have hfield := Nat.lt_of_le_of_lt hlongest (Choice.bound_max_lt libs choice)
  have hshortest := hfits.shortest
  have hlimit : payload.length ≤ r.maxPayload := by
    rw [Reader.maxPayload, hbound]
    exact hlongest
  have hchecks := Reader.fetchPayload_of_le (r := r) (by omega) hlimit
  constructor
  · rw [Bytes.toNatBE_ofNatBE]
    exact Nat.mod_eq_of_lt hfield
  · exact (hchecks r.blocksRead r.maxPayload).1
  · exact (hchecks r.blocksRead r.maxPayload).2
  · rw [hdeclared]
    exact hfits.declared r.lengthCalls
  · have hpos := List.length_pos_iff.2 hne
    omega

/-- What fits the room and the length field is what a writer packs, past its checks. -/
theorem Codec.Fits.pack {w : Writer} (hfits : w.codec.Fits w.pending w.room payload)
    (hroom : payload.length ≤ w.room) (hfield : payload.length < 2 ^ 32) :
    w.pack.1 = .ok payload ∧ w.oversized payload.length = false := by
  have hsize : w.oversized payload.length = false := by
    rw [← Bool.not_eq_true, Writer.oversized_iff]
    omega
  have htake := Output.take_into w.scratch [] hroom (Nat.le_refl w.room)
  rw [List.append_nil] at htake
  have haccepted : ¬w.oversized payload.length = true := by
    rw [hsize]
    exact Bool.false_ne_true
  refine ⟨?_, hsize⟩
  rw [Writer.pack, hfits.compress w.compressCalls]
  show (if w.oversized payload.length = true then _ else _ : Except Error Bytes × Writer).1 = _
  rw [if_neg haccepted]
  exact congrArg Except.ok htake

/-- In no state between two moves of a writer does the sending of a block fail because of the
codec. -/
theorem exists_pack (hinverse : libs.Inverse) (hleading : libs.Leading) (hbounded : libs.Bounded)
    (choice : Codec.Choice) {w w' : Writer} {sink start : Sink}
    (hcreate : Writer.create sink (choice.codec libs) blockSize = (.ok w, start))
    (hreach : Writer.Reaches w w') (hne : w'.pending ≠ []) :
    ∃ payload, (choice.codec libs).Fits w'.pending w'.room payload ∧ w'.pack.1 = .ok payload ∧
      w'.oversized payload.length = false := by
  obtain ⟨-, hmax, -⟩ := Writer.create_ok hcreate
  obtain ⟨more, haudited⟩ := hreach.audited (Writer.create_audited hcreate)
  have hcodec := haudited.codec_eq
  have hpending : w'.pending.length ≤ blockSize := haudited.blockSize_eq ▸ haudited.pending
  have hroom : w'.room = (choice.codec libs).maxCompressedLength blockSize := by
    rw [Writer.room, hcodec, haudited.blockSize_eq]
  have hmono := Codec.Choice.monotone_bound libs choice
  -- a buffer of that room, whatever it holds
  have hlength : (List.replicate w'.room (0 : UInt8)).length = w'.room := List.length_replicate
  have hbound : (choice.codec libs).maxCompressedLength w'.pending.length ≤
      (List.replicate w'.room (0 : UInt8)).length := by
    rw [hlength, hroom]
    exact hmono hpending
  obtain ⟨payload, hfits, -⟩ := Codec.Choice.fits_compressInto? hinverse hleading hbounded choice
    hne (hpending.trans hmax) hbound
  rw [hlength] at hfits
  have hlongest : payload.length ≤ w'.room := by
    rw [hroom]
    exact hfits.longest.trans (hmono hpending)
  have hfield : payload.length < 2 ^ 32 := by
    apply Nat.lt_of_le_of_lt hlongest
    rw [hroom]
    exact Nat.lt_of_le_of_lt (hmono hmax) (Codec.Choice.bound_max_lt libs choice)
  rw [← hcodec] at hfits ⊢
  exact ⟨payload, hfits, hfits.pack hlongest hfield⟩

/-- For every bundled codec, over libraries that keep to their formats and bounds, and for every
block size that a writer takes: the bounds are computed without overflow, rise with the size of the
block, and fit the length field. So a room as large as the bound for a complete block will do for
every block. Compressing into it neither traps nor fails, the count that is reported lies between
five and the bound for the block, the raw length in front is that of the block, and no check of a
reader stops what was made. A session with such a writer never fails of its codec, and in no state
that the writer comes through is a size refused that the codec reports. -/
theorem limits_fit (hinverse : libs.Inverse) (hleading : libs.Leading) (hbounded : libs.Bounded)
    (hc : Codec.Bundled libs c) (hmax : blockSize ≤ maxBlockSize) :
    ∃ choice : Codec.Choice, choice.codec libs = c ∧
      (∀ n ≤ maxBlockSize, Computes (choice.boundWords? (.ofNat n)) (c.maxCompressedLength n)) ∧
      (∀ n ≤ blockSize, c.maxCompressedLength n ≤ c.maxCompressedLength blockSize) ∧
      c.maxCompressedLength blockSize ≤ c.maxCompressedLength maxBlockSize ∧
      c.maxCompressedLength maxBlockSize < 2 ^ 32 ∧
      (∀ raw buffer : Bytes, 1 ≤ raw.length → raw.length ≤ blockSize →
        buffer.length = c.maxCompressedLength blockSize →
        c.maxCompressedLength raw.length ≤ buffer.length ∧
        ∃ payload, choice.compressInto? libs raw buffer =
            some (.ok (payload.length, buffer.under payload)) ∧
          c.Fits raw buffer.length payload ∧
          ∀ r : Reader, (r.codec = c ∨ Codec.ofId c.id libs = .ok r.codec) →
            r.Clears raw payload) ∧
      ∀ sink w start, Writer.create sink c blockSize = (.ok w, start) →
        (∀ w', Writer.Reaches w w' → w'.pending ≠ [] → ∃ payload,
          c.Fits w'.pending w'.room payload ∧ w'.pack.1 = .ok payload ∧
            w'.oversized payload.length = false) ∧
        ∀ calls call name reason,
          (Call.operate call (w.perform calls).2).1 ≠ .error (.codec name reason) := by
  obtain ⟨choice, rfl⟩ := Codec.Choice.bundled_iff.1 hc
  have hmono := Codec.Choice.monotone_bound libs choice
  refine ⟨choice, rfl, ?_, fun n hn => hmono hn, hmono hmax,
    Codec.Choice.bound_max_lt libs choice, ?_, ?_⟩
  · intro n hn
    have hword : n < 2 ^ 64 := Nat.lt_of_le_of_lt hn (by decide)
    have hvalue : (UInt64.ofNat n).toNat = n := by
      rw [UInt64.toNat_ofNat', Nat.mod_eq_of_lt hword]
    have hcomputes := Codec.Choice.computes_boundWords? libs choice (n := .ofNat n) (by
      rw [hvalue]
      exact hn)
    rwa [hvalue] at hcomputes
  · intro raw buffer hsome hraw hbuffer
    have hne : raw ≠ [] := List.length_pos_iff.1 hsome
    have hroom : (choice.codec libs).maxCompressedLength raw.length ≤ buffer.length := by
      rw [hbuffer]
      exact hmono hraw
    obtain ⟨payload, hfits, hinto⟩ := Codec.Choice.fits_compressInto? hinverse hleading hbounded
      choice hne (hraw.trans hmax) hroom
    exact ⟨hroom, payload, hinto, hfits, fun r hr => hfits.clears hne (hraw.trans hmax) hr⟩
  · intro sink w start hcreate
    have hpacks := fun w' (hreach : Writer.Reaches w w') hne =>
      exists_pack hinverse hleading hbounded choice hcreate hreach hne
    refine ⟨hpacks, ?_⟩
    intro calls call name reason herror
    have hbounded := (Writer.create_audited hcreate).toBounded
    have hreach := Writer.perform_moves hbounded calls
    have hblames := Writer.operate_blames (hreach.bounded hbounded) herror
    cases hblames with
    | codec reaches pending pack =>
      obtain ⟨payload, -, hpack, -⟩ := hpacks _ (hreach.trans reaches) pending
      rw [hpack] at pack
      cases pack

end Limits

/-- Blocks of up to four bytes with Zstandard have a room of 71 bytes, and a block of one byte needs
no more than 68 of them. -/
theorem limits_fit_zstd :
    Libraries.plain.Inverse ∧ Libraries.plain.Leading ∧ Libraries.plain.Bounded ∧
      Codec.Bundled .plain (.zstd 3 .plain) ∧ 4 ≤ maxBlockSize ∧
      (Codec.zstd 3 .plain).maxCompressedLength 4 = 71 ∧
      (Codec.zstd 3 .plain).maxCompressedLength 1 = 68 ∧
      ∃ payload, (Codec.zstd 3 .plain).Fits [7] 71 payload ∧ 5 ≤ payload.length ∧
        payload.length ≤ 68 ∧
        ∀ w start, Writer.create .unlimited (.zstd 3 .plain) 4 = (.ok w, start) →
          ∀ calls call name reason,
            (Call.operate call (w.perform calls).2).1 ≠ .error (.codec name reason) := by
  have hbundled : Codec.Bundled .plain (.zstd 3 .plain) := .zstd 3
  have hleading := Libraries.plain_exacting.leading
  obtain ⟨choice, -, -, -, -, -, hcompress, hwriter⟩ := limits_fit
    Libraries.plain_inverse hleading Libraries.plain_bounded hbundled
    (by decide : 4 ≤ maxBlockSize)
  obtain ⟨-, payload, -, hfits, -⟩ := hcompress [7] (List.replicate 71 0) (by decide) (by decide)
    (by decide)
  refine ⟨Libraries.plain_inverse, hleading, Libraries.plain_bounded, hbundled,
    by decide, by decide, by decide, payload, hfits, hfits.shortest, hfits.longest, ?_⟩
  intro w start hcreate
  exact (hwriter .unlimited w start hcreate).2

end FramedStream
