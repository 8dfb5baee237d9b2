import FramedStream.Proofs.Codec.Library
import FramedStream.Proofs.Reader.Ahead
import FramedStream.Proofs.Writer.Finished

/-!
# Truncated streams

A finished stream that is cut anywhere. A cut falls into the header, or behind the records of some
blocks and within the record of the next one (`exists_cut`), which then starts no record any more
(`stuck_of_cut`). So the reader gives the blocks of the whole records and then says whether the cut
is between two records, and no byte of a cut block comes out whichever way it is read
(`Reader.truncation_handled`).
-/

namespace FramedStream

variable {limit : Nat} {block? : Bytes → Option Bytes} {pack : Bytes → Bytes}

/-- A part of a record is no record. -/
theorem stuck_of_cut {payload part : Bytes} (hlimit : limit < 2 ^ 32)
    (hpayload : payload.length < 2 ^ 32) (hpart : part <+: record payload)
    (hshort : part.length < (record payload).length) : Stuck limit block? part := by
  rintro ⟨payload', rest, admits, rfl⟩
  obtain ⟨more, hmore⟩ := hpart
  -- the record that is found would be the one that was cut
  rw [List.append_assoc, ← List.append_nil (record payload)] at hmore
  obtain ⟨rfl, -⟩ := record_append_inj (Nat.lt_of_le_of_lt admits.bounded hlimit) hpayload hmore
  rw [List.length_append] at hshort
  omega

/-- Where a cut falls. -/
theorem exists_cut {blocks : List Bytes} {place : Nat}
    (hplace : place < (records pack blocks).length) :
    ∃ front block back part, blocks = front ++ block :: back ∧
      (records pack blocks).take place = records pack front ++ part ∧
      part <+: record (pack block) ∧ part.length < (record (pack block)).length ∧
      place = (records pack front).length + part.length := by
  induction blocks generalizing place with
  | nil => exact absurd hplace (Nat.not_lt_zero _)
  | cons block blocks ih =>
    have hcons : records pack (block :: blocks) = record (pack block) ++ records pack blocks := rfl
    by_cases hlt : place < (record (pack block)).length
    · refine ⟨[], block, blocks, (record (pack block)).take place, rfl, ?_, List.take_prefix _ _,
        ?_, ?_⟩
      · rw [hcons, List.take_append_of_le_length (Nat.le_of_lt hlt)]
        rfl
      · rw [List.length_take, Nat.min_eq_left (Nat.le_of_lt hlt)]
        exact hlt
      · rw [List.length_take, Nat.min_eq_left (Nat.le_of_lt hlt)]
        exact (Nat.zero_add place).symm
    · obtain ⟨later, rfl⟩ := Nat.exists_eq_add_of_le (Nat.not_lt.1 hlt)
      rw [hcons, List.length_append] at hplace
      obtain ⟨front, block', back, part, hsplit, htake, hpart, hshort, hlater⟩ :=
        ih (Nat.lt_of_add_lt_add_left hplace)
      refine ⟨block :: front, block', back, part, by rw [hsplit]; rfl, ?_, hpart, hshort, ?_⟩
      · rw [hcons, List.take_length_add_append, htake, ← List.append_assoc]
        rfl
      · rw [hlater, ← Nat.add_assoc, ← List.length_append]
        rfl

/-- Where a cut behind the header of a stream falls. -/
theorem exists_cut_framed (id : UInt16) {blocks : List Bytes} {place : Nat}
    (hlong : headerSize ≤ place) (hplace : place < (framed id pack blocks).length) :
    ∃ front block back part, blocks = front ++ block :: back ∧
      (framed id pack blocks).take place =
        (Header.current id).encode ++ (records pack front ++ part) ∧
      part <+: record (pack block) ∧ part.length < (record (pack block)).length ∧
      place = recordStart (blocks.map pack) front.length + part.length ∧
      place < recordStart (blocks.map pack) (front.length + 1) := by
  -- the place is counted from the end of the header
  obtain ⟨later, rfl⟩ := Nat.exists_eq_add_of_le hlong
  have hheader : (Header.current id).encode.length = headerSize := Header.length_encode _
  rw [framed, List.length_append, hheader] at hplace
  obtain ⟨front, block, back, part, rfl, htake, hpart, hshort, hlater⟩ :=
    exists_cut (Nat.lt_of_add_lt_add_left hplace)
  have hstart := recordStart_map pack front (block :: back)
  have hend := recordStart_map_succ pack front block back
  refine ⟨front, block, back, part, rfl, ?_, hpart, hshort, ?_, ?_⟩
  · rw [framed, ← hheader, List.take_length_add_append, htake]
  · rw [hstart, hlater, Nat.add_assoc]
  · rw [hend, hlater]
    omega

namespace Reader

/-- What a stream of which less than a header is left is called. -/
theorem openBundled_short (libs : Libraries) {bytes : Bytes} (h : bytes.length < headerSize) :
    ∃ damage, openBundled (.ofBytes bytes) libs = .error (.format damage) :=
  openBundled_of_not_opens libs fun hopens => absurd hopens.long (Nat.not_le.2 h)

section Streams

variable {libs : Libraries} {id : UInt16} {front : List Bytes} {part : Bytes}

/-- A reader of whole records and a part of one shows nothing of the part. -/
theorem confined_of_cut (hid : id.toNat ≤ 2)
    (hfront : ∀ block ∈ front, Readable (Codec.payloadLimit id)
      (Payload.block? (Codec.body? libs id)) pack block)
    (hstuck : part ≠ [] →
      Stuck (Codec.payloadLimit id) (Payload.block? (Codec.body? libs id)) part) :
    ∃ r, openBundled (.ofBytes ((Header.current id).encode ++ (records pack front ++ part))) libs =
        .ok r ∧ ∀ calls, Confined front (r.perform calls).2 := by
  obtain ⟨r, hopen, -, hready⟩ := openBundled_current libs hid (records pack front ++ part)
  obtain ⟨hblock, hposition⟩ := openBundled_holds hopen
  have hwithin : Within (Codec.payloadLimit id) (Payload.block? (Codec.body? libs id)) pack part
      front r := by
    refine ⟨front, .of_ready hposition hready hfront, List.suffix_rfl, ?_⟩
    rw [hblock]
    exact List.suffix_rfl
  have hfield := Codec.payloadLimit_lt id
  refine ⟨r, hopen, fun calls => ?_⟩
  have hstays := (invariant_within hfield hstuck).run hwithin calls
  exact hstays.confined hfield hstuck

end Streams

/-- Truncation is handled exactly. Of a finished stream that is cut in the header, nothing is
opened. Behind the header the cut falls into the record of some block `k`, of which it leaves
nothing or a part: the reader gives the `k` blocks before it and then the end, or says that the
stream is damaged, and whatever is called, and how often, no byte comes out but of these blocks. -/
theorem truncation_handled {libs : Libraries} (hlibs : libs.Inverse) {codec : Codec}
    (hcodec : Codec.Bundled libs codec) {blockSize : Nat} {data stream : Bytes}
    (h : Writer.Finished codec blockSize data stream) :
    ∃ blocks payloads : List Bytes,
      stream = (Header.current codec.id).encode ++ payloads.flatMap record ∧
      payloads.length = blocks.length ∧ blocks.flatten = data ∧ Reads libs stream blocks ∧
      ∀ place < stream.length,
        (place < headerSize →
          ∃ damage, openBundled (.ofBytes (stream.take place)) libs = .error (.format damage)) ∧
        (headerSize ≤ place → ∃ k < blocks.length,
          recordStart payloads k ≤ place ∧ place < recordStart payloads (k + 1) ∧
          (place = recordStart payloads k → Reads libs (stream.take place) (blocks.take k)) ∧
          (place ≠ recordStart payloads k → FailsAfter libs (stream.take place) (blocks.take k)) ∧
          ∃ r, openBundled (.ofBytes (stream.take place)) libs = .ok r ∧
            ∀ calls, Confined (blocks.take k) (r.perform calls).2) := by
  obtain ⟨-, hmax⟩ := h.inRange
  obtain ⟨hid, pack, hrestores⟩ := Codec.restores_bundled hlibs hcodec hmax
  obtain ⟨blocks, rfl, hdata, hblocks⟩ := Writer.framed_of_finished hrestores.toPacks h
  have hreadable := hrestores.readable hblocks
  refine ⟨blocks, blocks.map pack, ?_, List.length_map _, hdata, reads_framed hid hreadable,
    fun place hplace => ⟨fun hshort => ?_, fun hlong => ?_⟩⟩
  · rw [framed, records_eq]
  · refine openBundled_short libs (Nat.lt_of_le_of_lt ?_ hshort)
    exact List.length_take_le _ _
  obtain ⟨front, block, back, part, rfl, htake, hpart, hshort, hstart, hend⟩ :=
    exists_cut_framed codec.id hlong hplace
  obtain ⟨hfront, hrest⟩ := List.forall_mem_append.1 hreadable
  obtain ⟨hblock, -⟩ := List.forall_mem_cons.1 hrest
  have hstuck : Stuck (Codec.payloadLimit codec.id)
      (Payload.block? (Codec.body? libs codec.id)) part :=
    stuck_of_cut (Codec.payloadLimit_lt codec.id)
      (Nat.lt_of_le_of_lt hblock.bounded (Codec.payloadLimit_lt codec.id)) hpart hshort
  have hcount : front.length < (front ++ block :: back).length := by
    rw [List.length_append, List.length_cons]
    omega
  rw [htake]
  refine ⟨front.length, hcount, by omega, hend, fun heq => ?_, fun hne => ?_, ?_⟩
  · have hnil : part = [] := List.length_eq_zero_iff.1 (by omega)
    rw [hnil, List.append_nil, List.take_left]
    exact reads_framed hid hfront
  · rw [List.take_left]
    refine failsAfter_of_stuck hid hfront ?_ hstuck
    rintro rfl
    exact hne hstart
  · rw [List.take_left]
    exact confined_of_cut hid hfront fun _ => hstuck

/-- Seven bytes in blocks of up to four, cut in the header and one byte behind it. -/
theorem truncation_handled_zstd :
    ∃ (stream : Bytes) (blocks : List Bytes),
      Writer.Finished (.zstd 3 .plain) 4 [1, 2, 3, 4, 5, 6, 7] stream ∧
      blocks.flatten = [1, 2, 3, 4, 5, 6, 7] ∧ Reads .plain stream blocks ∧
      (∃ damage, openBundled (.ofBytes (stream.take 19)) .plain = .error (.format damage)) ∧
      ∃ k < blocks.length, ∃ r, openBundled (.ofBytes (stream.take 21)) .plain = .ok r ∧
        Confined (blocks.take k) (r.perform [.nextBlock, .fillBuf]).2 := by
  obtain ⟨-, pack, hrestores⟩ :=
    Codec.restores_bundled Libraries.plain_inverse (.zstd 3) (by decide : 4 ≤ maxBlockSize)
  obtain ⟨stream, hfinished⟩ := Writer.exists_finished (by decide) (by decide) hrestores.toPacks
    [1, 2, 3, 4, 5, 6, 7]
  obtain ⟨blocks, payloads, hstream, hlength, hdata, hreads, hcut⟩ :=
    truncation_handled Libraries.plain_inverse (.zstd 3) hfinished
  have hlong : 24 ≤ stream.length := by
    cases payloads with
    | nil =>
      rw [List.length_eq_zero_iff.1 hlength.symm] at hdata
      cases hdata
    | cons payload payloads =>
      rw [hstream, List.length_append, Header.length_encode, List.flatMap_cons, List.length_append,
        length_record]
      simp only [headerSize, blockLengthSize]
      omega
  obtain ⟨hheader, -⟩ := hcut 19 (by omega)
  obtain ⟨-, hbehind⟩ := hcut 21 (by omega)
  obtain ⟨k, hk, -, -, -, -, r, hopen, hconfined⟩ := hbehind (by decide)
  exact ⟨stream, blocks, hfinished, hdata, hreads, hheader (by decide), k, hk, r, hopen,
    hconfined _⟩

end Reader

end FramedStream
