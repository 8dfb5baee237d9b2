import FramedStream.Proofs.Reader.Carried
import FramedStream.Proofs.Writer.Finished

/-!
# Framing with any codec

Whoever brings a codec of their own keeps a contract (`Codec.Contract`). Then the records that a
writer emits have sizes that a reader of this codec takes, with one exception: the contract does not
rule out that a block is compressed to nothing, the writer sends what it gets, and no reader takes a
payload without bytes.

* `decodes_of_makes`: each payload that is not empty decodes to the block it was made of;
* `read_back_any_codec`: a finished stream is read back, up to its first empty payload if there is
  one;
* `vanishing` is a codec that keeps the contract and makes such a payload.
-/

namespace FramedStream

namespace Codec

/-- A block of a size that a stream may have, and what comes of it in a room that suffices. -/
structure Compresses (c : Codec) (raw : Bytes) (room : Nat) (output : Output) : Prop where
  nonempty : raw ≠ []
  small : raw.length ≤ maxBlockSize
  fits : c.maxCompressedLength raw.length ≤ room
  compress : c.compress 0 raw room = .ok output

/-- What is asked of a codec: it does not react to how often it was called, keeps to its bound,
which is monotone, and restores each block from what it has put into the room for it. -/
structure Contract (c : Codec) : Prop where
  deterministic : ∀ call, c.compress call = c.compress 0 ∧
    c.declaredLength call = c.declaredLength 0 ∧ c.decompress call = c.decompress 0
  monotone : Monotone c.maxCompressedLength
  bounded : ∀ {raw room output}, c.Compresses raw room output →
    output.reported ≤ c.maxCompressedLength raw.length ∧ output.reported ≤ output.bytes.length
  declared : ∀ {raw room output}, c.Compresses raw room output →
    c.declaredLength 0 (output.bytes.take output.reported) = .ok raw.length
  restored : ∀ {raw room output}, c.Compresses raw room output → ∃ more,
    c.decompress 0 (output.bytes.take output.reported) raw.length =
      .ok ⟨raw.length, raw ++ more⟩

variable {c : Codec} {raw payload : Bytes} {blockSize call : Nat}

/-- A payload that such a codec makes is what it has put into the room. -/
theorem Contract.payload_eq (hc : c.Contract) (hne : raw ≠ []) (hraw : raw.length ≤ blockSize)
    (hmax : blockSize ≤ maxBlockSize)
    (h : c.Makes call raw (c.maxCompressedLength blockSize) payload) :
    ∃ output, c.Compresses raw (c.maxCompressedLength blockSize) output ∧
      payload = output.bytes.take output.reported ∧ payload.length < 2 ^ 32 := by
  obtain ⟨output, hcompress, -, hfield, hlength, hfront⟩ := h
  rw [(hc.deterministic call).1] at hcompress
  have hcompresses : c.Compresses raw (c.maxCompressedLength blockSize) output :=
    ⟨hne, hraw.trans hmax, hc.monotone hraw, hcompress⟩
  have hwritten := (hc.bounded hcompresses).2
  refine ⟨output, hcompresses, (hfront.eq_of_length ?_).symm, hlength ▸ hfield⟩
  rw [List.length_take, Nat.min_eq_left hwritten, hlength]

/-- No payload is longer than a reader takes. -/
theorem Contract.length_le (hc : c.Contract) (hne : raw ≠ []) (hraw : raw.length ≤ blockSize)
    (hmax : blockSize ≤ maxBlockSize)
    (h : c.Makes call raw (c.maxCompressedLength blockSize) payload) :
    payload.length ≤ c.maxCompressedLength maxBlockSize := by
  obtain ⟨output, hcompresses, rfl, -⟩ := hc.payload_eq hne hraw hmax h
  obtain ⟨hbound, hwritten⟩ := hc.bounded hcompresses
  rw [List.length_take, Nat.min_eq_left hwritten]
  exact hbound.trans (hc.monotone (hraw.trans hmax))

/-- A payload that is not empty decodes to the block it was made of. -/
theorem Contract.decodes (hc : c.Contract) (hne : raw ≠ []) (hraw : raw.length ≤ blockSize)
    (hmax : blockSize ≤ maxBlockSize)
    (h : c.Makes call raw (c.maxCompressedLength blockSize) payload) (hpayload : payload ≠ []) :
    c.Decodes payload raw := by
  have hlimit := hc.length_le hne hraw hmax h
  obtain ⟨output, hcompresses, rfl, hfield⟩ := hc.payload_eq hne hraw hmax h
  refine ⟨List.length_pos_iff.2 hpayload, hlimit, hfield, hne, hraw.trans hmax, fun call => ?_,
    fun call => ?_⟩
  · rw [(hc.deterministic call).2.1]
    exact hc.declared hcompresses
  · rw [(hc.deterministic call).2.2]
    exact hc.restored hcompresses

end Codec

/-- The header that a writer sends is one that a reader of the codec takes. -/
theorem heads_current (c : Codec) (rest : Bytes) :
    c.Heads ((Header.current c.id).encode ++ rest) := by
  have hlength : (Header.current c.id).encode.length = headerSize := Header.length_encode _
  refine ⟨?_, Header.current c.id, ?_, rfl⟩
  · rw [List.length_append, hlength]
    exact Nat.le_add_right _ _
  · rw [List.take_left' hlength, Header.decode_encode]
    rfl

open Writer (recordsOf)

/-- The blocks of records that decode come out one after the other. -/
theorem nextBlocks_recordsOf {c : Codec} {sent : List (Bytes × Bytes)} {rest : Bytes} {r : Reader}
    (hdecodes : ∀ block ∈ sent, c.Decodes block.2 block.1)
    (h : Reader.Before c (recordsOf sent ++ rest) r) :
    ∃ r', Reader.Before c rest r' ∧ r'.blocksRead = r.blocksRead + sent.length ∧
      ∀ count, (r.nextBlocks (sent.length + count)).1 =
        sent.map (fun block => .ok (some block.1)) ++ (r'.nextBlocks count).1 := by
  have hall : List.Forall₂ c.Decodes (sent.map Prod.snd) (sent.map Prod.fst) := by
    rw [List.forall₂_map_left_iff, List.forall₂_map_right_iff, List.forall₂_same]
    exact hdecodes
  have hrecords : recordsOf sent = (sent.map Prod.snd).flatMap record := by
    rw [List.flatMap_map, recordsOf]
  rw [hrecords] at h
  obtain ⟨r', hbefore, hblocks, hrun⟩ := Reader.nextBlocks_decodes hall h
  rw [List.length_map] at hblocks hrun
  refine ⟨r', hbefore, hblocks, fun count => ?_⟩
  rw [hrun count, List.map_map]
  rfl

theorem nextBlocks_to_end {c : Codec} {sent : List (Bytes × Bytes)} {r : Reader}
    (hdecodes : ∀ block ∈ sent, c.Decodes block.2 block.1)
    (h : Reader.Before c (recordsOf sent) r) :
    (r.nextBlocks (sent.length + 1)).1 =
      sent.map (fun block => .ok (some block.1)) ++ [.ok none] := by
  rw [← List.append_nil (recordsOf sent)] at h
  obtain ⟨r', hbefore, -, hrun⟩ := nextBlocks_recordsOf hdecodes h
  obtain ⟨r'', hend, -⟩ := Reader.nextBlock_over hbefore
  rw [hrun, Reader.nextBlocks_succ, hend]
  rfl

/-- A record without a payload is where the reading ends, whatever comes behind it. -/
theorem nextBlocks_to_empty {c : Codec} {front back : List (Bytes × Bytes)} {raw : Bytes}
    {r : Reader} (hdecodes : ∀ block ∈ front, c.Decodes block.2 block.1)
    (h : Reader.Before c (recordsOf (front ++ (raw, []) :: back)) r) (hzero : r.blocksRead = 0) :
    (r.nextBlocks (front.length + 1)).1 =
      front.map (fun block => .ok (some block.1)) ++
        [.error (.format (.zeroLength front.length))] := by
  have hsplit : recordsOf (front ++ (raw, []) :: back) =
      recordsOf front ++ (record [] ++ recordsOf back) := by
    simp [recordsOf]
  rw [hsplit] at h
  obtain ⟨r', hbefore, hblocks, hrun⟩ := nextBlocks_recordsOf hdecodes h
  have hrefused := Reader.nextBlock_zeroLength hbefore
  rw [hblocks, hzero, Nat.zero_add] at hrefused
  rw [hrun, Reader.nextBlocks_succ, hrefused]
  rfl

/-- A finished stream consists of records that the codec has made, and of these each that is not
empty decodes to what it was made of. -/
theorem Codec.Contract.sent {c : Codec} (hc : c.Contract) {blockSize : Nat} {data stream : Bytes}
    (hfinished : Writer.Finished c blockSize data stream) :
    ∃ sent, stream = (Header.current c.id).encode ++ recordsOf sent ∧
      sent.flatMap Prod.fst = data ∧
      ∀ block ∈ sent, block.2.length ≤ c.maxCompressedLength maxBlockSize ∧
        (∃ call, c.Makes call block.1 (c.maxCompressedLength blockSize) block.2) ∧
        (block.2 ≠ [] → c.Decodes block.2 block.1) := by
  obtain ⟨-, hmax⟩ := hfinished.inRange
  obtain ⟨sent, hstream, hdata, hsent⟩ := Writer.sent_of_finished hfinished
  refine ⟨sent, hstream, hdata, fun block hmem => ?_⟩
  obtain ⟨hone, hsize, call, hmakes⟩ := hsent block hmem
  have hne : block.1 ≠ [] := List.length_pos_iff.1 hone
  exact ⟨hc.length_le hne hsize hmax hmakes, ⟨call, hmakes⟩, hc.decodes hne hsize hmax hmakes⟩

/-- What a writer has finished, a reader of the same codec opens and reads back. Its sizes are such
that no record is refused for them, except that a payload may be empty: the blocks before the first
such payload are read, and there the reader says that it has no length. -/
theorem read_back_any_codec {c : Codec} (hc : c.Contract) {blockSize : Nat} {data stream : Bytes}
    (hfinished : Writer.Finished c blockSize data stream) {source : Source}
    (hsteady : source.Steady) (hrest : source.rest = stream) :
    ∃ sent r, stream = (Header.current c.id).encode ++ recordsOf sent ∧
      sent.flatMap Prod.fst = data ∧ Reader.create source c = .ok r ∧
      (∀ block ∈ sent, block.2.length ≤ r.maxPayload ∧
        ∃ call, c.Makes call block.1 (c.maxCompressedLength blockSize) block.2) ∧
      ((∀ block ∈ sent, block.2 ≠ []) →
        (r.nextBlocks (sent.length + 1)).1 =
          sent.map (fun block => .ok (some block.1)) ++ [.ok none]) ∧
      ∀ front raw back, sent = front ++ (raw, []) :: back → (∀ block ∈ front, block.2 ≠ []) →
        (r.nextBlocks (front.length + 1)).1 =
          front.map (fun block => .ok (some block.1)) ++
            [.error (.format (.zeroLength front.length))] := by
  obtain ⟨sent, hstream, hdata, hsent⟩ := hc.sent hfinished
  obtain ⟨r, hcreate, hbefore, hzero, -⟩ :=
    Reader.create_before (hstream ▸ heads_current c (recordsOf sent)) hsteady hrest
  rw [hstream, List.drop_left' (Header.length_encode _)] at hbefore
  refine ⟨sent, r, hstream, hdata, hcreate, fun block hmem => ?_, fun hfull => ?_, ?_⟩
  · obtain ⟨hlength, hmakes, -⟩ := hsent block hmem
    rw [Reader.maxPayload, hbefore.codec]
    exact ⟨hlength, hmakes⟩
  · exact nextBlocks_to_end (fun block hmem => (hsent block hmem).2.2 (hfull block hmem)) hbefore
  · rintro front raw back rfl hfront
    refine nextBlocks_to_empty (fun block hmem => ?_) hbefore hzero
    obtain ⟨-, -, hdecodes⟩ := hsent block (List.mem_append_left _ hmem)
    exact hdecodes (hfront block hmem)

namespace Codec

theorem contract_passthrough : passthrough.Contract where
  deterministic _ := ⟨rfl, rfl, rfl⟩
  monotone := fun _ _ h => Nat.add_le_add_left h _
  bounded h := by
    obtain ⟨-, -, -, hcompress⟩ := h
    cases hcompress
    simp [Output.ofBytes, passthrough]
  declared h := by
    obtain ⟨-, hsmall, -, hcompress⟩ := h
    cases hcompress
    have hfield := Nat.lt_of_le_of_lt hsmall (by decide : maxBlockSize < 2 ^ 32)
    simp only [Output.ofBytes, List.take_length, passthrough, Payload.declaredLength,
      Payload.decode_encode _ _ _ hfield]
    rfl
  restored h := by
    obtain ⟨-, hsmall, -, hcompress⟩ := h
    cases hcompress
    have hfield := Nat.lt_of_le_of_lt hsmall (by decide : maxBlockSize < 2 ^ 32)
    refine ⟨[], ?_⟩
    simp only [Output.ofBytes, List.take_length, passthrough, Payload.decode_encode _ _ _ hfield]
    simp

end Codec

/-- Three bytes in blocks of two. The raw length in front keeps the payloads from being empty. -/
theorem read_back_any_codec_passthrough :
    ∃ (stream : Bytes) (sent : List (Bytes × Bytes)) (r : Reader),
      Writer.Finished .passthrough 2 [1, 2, 3] stream ∧
        Reader.create (.ofBytes stream) .passthrough = .ok r ∧
        sent.flatMap Prod.fst = [1, 2, 3] ∧
        (r.nextBlocks (sent.length + 1)).1 =
          sent.map (fun block => .ok (some block.1)) ++ [.ok none] := by
  obtain ⟨stream, hfinished⟩ := Writer.exists_finished (by decide : 0 < 2) (by decide)
    (Codec.packs_passthrough (by decide)) [1, 2, 3]
  obtain ⟨sent, r, -, hdata, hcreate, hmade, hread, -⟩ := read_back_any_codec
    Codec.contract_passthrough hfinished (Source.steady_ofBytes stream) rfl
  refine ⟨stream, sent, r, hfinished, hcreate, hdata, hread fun block hmem hnil => ?_⟩
  obtain ⟨-, call, output, hcompress, -, -, hlength, -⟩ := hmade block hmem
  cases hcompress
  simp only [hnil, Output.ofBytes, Payload.length_encode, List.length_nil,
    Payload.rawLengthSize] at hlength
  omega

/-- A codec that has no bytes at all for one block, and one byte in front of every other. -/
def vanishing : Codec where
  id := 0x7e57
  name := "vanishing"
  maxCompressedLength n := n + 1
  compress _ raw _ :=
    .ok (.ofBytes (if raw = [0xdd, 0xdd, 0xdd, 0xdd] then [] else 0 :: raw))
  declaredLength _ payload := .ok (if payload = [] then 4 else payload.length - 1)
  decompress _ payload _ :=
    .ok (.ofBytes (if payload = [] then [0xdd, 0xdd, 0xdd, 0xdd] else payload.tail))

theorem contract_vanishing : vanishing.Contract where
  deterministic _ := ⟨rfl, rfl, rfl⟩
  monotone := fun _ _ h => Nat.add_le_add_right h 1
  bounded {raw room output} h := by
    obtain ⟨-, -, -, hcompress⟩ := h
    cases hcompress
    refine ⟨?_, Nat.le_refl _⟩
    simp only [Output.ofBytes, vanishing]
    split
    · simp
    · simp
  declared {raw room output} h := by
    obtain ⟨-, -, -, hcompress⟩ := h
    cases hcompress
    by_cases hraw : raw = [0xdd, 0xdd, 0xdd, 0xdd]
    · simp [Output.ofBytes, vanishing, hraw]
    · simp [Output.ofBytes, vanishing, hraw]
  restored {raw room output} h := by
    obtain ⟨-, -, -, hcompress⟩ := h
    cases hcompress
    refine ⟨[], ?_⟩
    by_cases hraw : raw = [0xdd, 0xdd, 0xdd, 0xdd]
    · simp [Output.ofBytes, vanishing, hraw]
    · simp [Output.ofBytes, vanishing, hraw]

/-- The codec keeps its contract and the writer is finished without a failure, and still its stream
is refused at the only record. -/
theorem empty_payload_is_refused :
    vanishing.Contract ∧
      Writer.Finished vanishing 4 [0xdd, 0xdd, 0xdd, 0xdd]
        ((Header.current vanishing.id).encode ++ record []) ∧
      ∃ r, Reader.create (.ofBytes ((Header.current vanishing.id).encode ++ record [])) vanishing =
          .ok r ∧ r.nextBlock.1 = .error (.format (.zeroLength 0)) := by
  refine ⟨contract_vanishing, ?_, _, rfl, ?_⟩
  · refine ⟨.unlimited, _, _, _, [.write [0xdd, 0xdd, 0xdd, 0xdd]], rfl, ?_, Prod.ext ?_ rfl, ?_⟩
    · decide +kernel
    · decide +kernel
    · decide +kernel
  · decide +kernel

end FramedStream
