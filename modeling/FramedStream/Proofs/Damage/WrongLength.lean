import FramedStream.Proofs.Codec.Rigid
import FramedStream.Proofs.Reader.Streams
import FramedStream.Proofs.Writer.Finished

/-!
# Wrong lengths

A record says twice how long something is: in front of the payload, and with the raw length at its
start. If one of these is overwritten by anything else, no record starts there any more, whatever
follows (`stuck_of_length`, `stuck_of_size`): a payload that is too short is cut, one that is too
long goes on with the next record, which starts no frame, and one of another raw length has another
block. So the reader gives the blocks before and then says that the stream is damaged
(`Reader.wrong_length_noticed`).
-/

namespace FramedStream

/-- The bytes with some of them overwritten. -/
def Bytes.overwrite (bytes : Bytes) (place : Nat) (field : Bytes) : Bytes :=
  bytes.take place ++ field ++ bytes.drop (place + field.length)

/-- What is overwritten, and what comes of it. -/
theorem Bytes.overwrite_eq {bytes front old back field : Bytes} {place : Nat}
    (hbytes : bytes = front ++ (old ++ back)) (hplace : place = front.length)
    (hlength : old.length = field.length) :
    (bytes.drop place).take field.length = old ∧
      bytes.overwrite place field = front ++ (field ++ back) := by
  have hold : (bytes.drop place).take field.length = old := by
    rw [hbytes, hplace, List.drop_left, List.take_left' hlength]
  have hback : bytes.drop (place + field.length) = back := by
    rw [hbytes, hplace, ← hlength, ← List.length_append, ← List.append_assoc, List.drop_left]
  refine ⟨hold, ?_⟩
  rw [overwrite, hback, hbytes, hplace, List.take_left, List.append_assoc]

/-! ### What follows a record -/

theorem payloadLimit_lt_magic (id : UInt16) : Codec.payloadLimit id < 0x22 * 2 ^ 24 := by
  unfold Codec.payloadLimit
  split
  · decide
  split <;> decide

/-- The length of a payload does not start like a magic number. -/
theorem startsNoFrame_of_records {pack : Bytes → Bytes} {blocks : List Bytes}
    (h : ∀ block ∈ blocks, (pack block).length < 0x22 * 2 ^ 24) {extra rest : Bytes}
    (hextra : extra ≠ []) (heq : records pack blocks = extra ++ rest) :
    Zstd.StartsNoFrame extra := by
  obtain ⟨first, extra, rfl⟩ := List.exists_cons_of_ne_nil hextra
  refine ⟨first, extra, rfl, ?_⟩
  cases blocks with
  | nil => cases heq
  | cons block blocks =>
    have hlength := h block List.mem_cons_self
    obtain ⟨rfl, -⟩ := List.cons.inj heq
    rw [UInt8.toNat_ofNat']
    omega

section Rigid

variable {c : Codec} {blockSize limit : Nat} {pack : Bytes → Bytes} {block? : Bytes → Option Bytes}
  {raw field : Bytes} {blocks : List Bytes}

theorem stuck_of_length (h : c.Rigid blockSize pack limit block?) (hraw : raw ≠ [])
    (hsize : raw.length ≤ blockSize)
    (hblocks : ∀ block ∈ blocks, (pack block).length < 0x22 * 2 ^ 24)
    (hlength : field.length = 4) (hfield : field ≠ Bytes.ofNatBE 4 (pack raw).length) :
    Stuck limit block? (field ++ (pack raw ++ records pack blocks)) := by
  rintro ⟨payload, rest, admits, heq⟩
  rw [record, List.append_assoc] at heq
  obtain ⟨rfl, htail⟩ := List.append_inj heq (by rw [hlength]; simp [blockLengthSize])
  have hother : payload ≠ pack raw := by
    rintro rfl
    exact hfield rfl
  have hnone : block? payload = none := by
    rcases List.append_eq_append_iff.1 htail with ⟨extra, rfl, hextra⟩ | ⟨lost, hlost, -⟩
    · -- the payload goes on with the next record
      have hne : extra ≠ [] := by
        rintro rfl
        exact hother (List.append_nil _)
      exact h.trailing raw hraw hsize extra (startsNoFrame_of_records hblocks hne hextra)
    · exact h.cut raw hraw hsize payload ⟨lost, hlost.symm⟩ hother
  have hdecodes := admits.decodes
  rw [hnone] at hdecodes
  cases hdecodes

theorem stuck_of_size (h : c.Rigid blockSize pack limit block?) (hraw : raw ≠ [])
    (hsize : raw.length ≤ blockSize) (hlimit : limit < 2 ^ 32) (hlong : 4 ≤ (pack raw).length)
    (hlength : field.length = 4) (hfield : field ≠ (pack raw).take 4) (rest : Bytes) :
    Stuck limit block?
      (Bytes.ofNatBE 4 (pack raw).length ++ (field ++ ((pack raw).drop 4 ++ rest))) := by
  -- the length has not changed, so the record ends where it did
  have hsame : (field ++ (pack raw).drop 4).length = (pack raw).length := by
    rw [List.length_append, List.length_drop, hlength]
    omega
  have hbounded := h.bounded raw hraw hsize
  have hstuck := stuck_of_block?_eq_none hlimit (by omega)
    (h.resized raw hraw hsize field hlength hfield) rest
  rwa [record, hsame, List.append_assoc, List.append_assoc] at hstuck

end Rigid

/-! ### Streams -/

section Overwriting

variable (id : UInt16) (pack : Bytes → Bytes) (front : List Bytes) (block : Bytes)
  (back : List Bytes) {field : Bytes}

theorem recordStart_header : recordStart ((front ++ block :: back).map pack) front.length =
    ((Header.current id).encode ++ records pack front).length := by
  rw [recordStart_map, List.length_append, Header.length_encode]

/-- A stream at the record of one of its blocks. -/
theorem framed_split : framed id pack (front ++ block :: back) =
    ((Header.current id).encode ++ records pack front) ++
      (Bytes.ofNatBE 4 (pack block).length ++ (pack block ++ records pack back)) := by
  rw [framed, records_append, List.append_assoc, ← List.append_assoc (Bytes.ofNatBE 4 _)]
  rfl

/-- Where the length of a payload stands. -/
theorem overwrite_length (hlength : field.length = 4) :
    ((framed id pack (front ++ block :: back)).drop
        (recordStart ((front ++ block :: back).map pack) front.length)).take 4 =
      Bytes.ofNatBE 4 (pack block).length ∧
    (framed id pack (front ++ block :: back)).overwrite
        (recordStart ((front ++ block :: back).map pack) front.length) field =
      (Header.current id).encode ++ (records pack front ++
        (field ++ (pack block ++ records pack back))) := by
  have hold : (Bytes.ofNatBE 4 (pack block).length).length = 4 := Bytes.length_ofNatBE _ _
  have h := Bytes.overwrite_eq (framed_split id pack front block back)
    (recordStart_header id pack front block back) (hold.trans hlength.symm)
  rwa [hlength, List.append_assoc] at h

/-- Where a payload starts. -/
theorem overwrite_size (hlong : 4 ≤ (pack block).length) (hlength : field.length = 4) :
    ((framed id pack (front ++ block :: back)).drop
        (recordStart ((front ++ block :: back).map pack) front.length + 4)).take 4 =
      (pack block).take 4 ∧
    (framed id pack (front ++ block :: back)).overwrite
        (recordStart ((front ++ block :: back).map pack) front.length + 4) field =
      (Header.current id).encode ++ (records pack front ++
        (Bytes.ofNatBE 4 (pack block).length ++
          (field ++ ((pack block).drop 4 ++ records pack back)))) := by
  have hold : ((pack block).take 4).length = 4 := by rw [List.length_take, Nat.min_eq_left hlong]
  have hsplit : framed id pack (front ++ block :: back) =
      ((Header.current id).encode ++ records pack front ++ Bytes.ofNatBE 4 (pack block).length) ++
        ((pack block).take 4 ++ ((pack block).drop 4 ++ records pack back)) := by
    rw [framed_split, ← List.append_assoc ((pack block).take 4), List.take_append_drop,
      List.append_assoc (_ ++ _) (Bytes.ofNatBE 4 _)]
  have hplace : recordStart ((front ++ block :: back).map pack) front.length + 4 =
      ((Header.current id).encode ++ records pack front ++
        Bytes.ofNatBE 4 (pack block).length).length := by
    rw [recordStart_header id]
    simp only [List.length_append, Bytes.length_ofNatBE]
  have h := Bytes.overwrite_eq hsplit hplace (hold.trans hlength.symm)
  rwa [hlength, List.append_assoc, List.append_assoc] at h

end Overwriting

namespace Reader

section Streams

variable {libs : Libraries} {c : Codec} {blockSize : Nat} {pack : Bytes → Bytes} {block : Bytes}
  {front back : List Bytes} {field : Bytes}

/-- Where the length of a payload is overwritten. -/
theorem failsAfter_of_length (hid : c.id.toNat ≤ 2)
    (h : c.Rigid blockSize pack (Codec.payloadLimit c.id) (Payload.block? (Codec.body? libs c.id)))
    (hblocks : ∀ block' ∈ front ++ block :: back, block' ≠ [] ∧ block'.length ≤ blockSize)
    (hlength : field.length = 4) (hfield : field ≠ Bytes.ofNatBE 4 (pack block).length) :
    FailsAfter libs ((Header.current c.id).encode ++ (records pack front ++
      (field ++ (pack block ++ records pack back)))) front := by
  obtain ⟨hfront, hrest⟩ := List.forall_mem_append.1 hblocks
  obtain ⟨⟨hne, hsize⟩, hback⟩ := List.forall_mem_cons.1 hrest
  refine failsAfter_of_stuck hid (h.toRestores.readable hfront) ?_
    (stuck_of_length h hne hsize (fun block' hmem => ?_) hlength hfield)
  · intro hnil
    rw [(List.append_eq_nil_iff.1 hnil).1] at hlength
    cases hlength
  · obtain ⟨hne', hsize'⟩ := hback block' hmem
    exact Nat.lt_of_le_of_lt (h.bounded block' hne' hsize') (payloadLimit_lt_magic c.id)

/-- Where the raw length of a block is overwritten. -/
theorem failsAfter_of_size (hid : c.id.toNat ≤ 2)
    (h : c.Rigid blockSize pack (Codec.payloadLimit c.id) (Payload.block? (Codec.body? libs c.id)))
    (hblocks : ∀ block' ∈ front ++ block :: back, block' ≠ [] ∧ block'.length ≤ blockSize)
    (hlong : 4 ≤ (pack block).length) (hlength : field.length = 4)
    (hfield : field ≠ (pack block).take 4) :
    FailsAfter libs ((Header.current c.id).encode ++ (records pack front ++
      (Bytes.ofNatBE 4 (pack block).length ++
        (field ++ ((pack block).drop 4 ++ records pack back))))) front := by
  obtain ⟨hfront, hrest⟩ := List.forall_mem_append.1 hblocks
  obtain ⟨⟨hne, hsize⟩, -⟩ := List.forall_mem_cons.1 hrest
  refine failsAfter_of_stuck hid (h.toRestores.readable hfront) ?_
    (stuck_of_size h hne hsize (Codec.payloadLimit_lt c.id) hlong hlength hfield _)
  intro hnil
  have hlength := congrArg List.length hnil
  simp at hlength

end Streams

/-- A list at one of its members. -/
theorem exists_split {blocks : List Bytes} {i : Nat} (hi : i < blocks.length) :
    ∃ front block back, blocks = front ++ block :: back ∧ front.length = i ∧
      front = blocks.take i := by
  refine ⟨blocks.take i, blocks[i], blocks.drop (i + 1), ?_, ?_, rfl⟩
  · rw [List.getElem_cons_drop, List.take_append_drop]
  · rw [List.length_take, Nat.min_eq_left (Nat.le_of_lt hi)]

/-- A wrong length is noticed at the block that carries it. Whichever block of a finished stream it
is, if its length or its raw length is overwritten by anything else, the reader gives the blocks
before it, and then the stream is damaged. -/
theorem wrong_length_noticed {libs : Libraries} (hlibs : libs.Inverse) (hexact : libs.Exacting)
    {codec : Codec} (hcodec : Codec.Bundled libs codec) {blockSize : Nat} {data stream : Bytes}
    (h : Writer.Finished codec blockSize data stream) :
    ∃ blocks payloads : List Bytes,
      stream = (Header.current codec.id).encode ++ payloads.flatMap record ∧
      payloads.length = blocks.length ∧ blocks.flatten = data ∧ Reads libs stream blocks ∧
      ∀ i < blocks.length, ∀ place,
        place = recordStart payloads i ∨ place = recordStart payloads i + 4 →
        ∀ field : Bytes, field.length = 4 → field ≠ (stream.drop place).take 4 →
          FailsAfter libs (stream.overwrite place field) (blocks.take i) := by
  obtain ⟨-, hmax⟩ := h.inRange
  obtain ⟨hid, pack, hrigid⟩ := Codec.rigid_bundled hlibs hmax hexact hcodec
  obtain ⟨blocks, rfl, hdata, hblocks⟩ := Writer.framed_of_finished hrigid.toPacks h
  refine ⟨blocks, blocks.map pack, ?_, List.length_map _, hdata,
    reads_framed hid (hrigid.toRestores.readable hblocks), fun i hi place hplace => ?_⟩
  · rw [framed, records_eq]
  obtain ⟨front, block, back, rfl, rfl, hfront⟩ := exists_split hi
  intro field hlength hfield
  rw [← hfront]
  rcases hplace with rfl | rfl
  · obtain ⟨hold, hnew⟩ := overwrite_length codec.id pack front block back hlength
    rw [hold] at hfield
    rw [hnew]
    exact failsAfter_of_length hid hrigid hblocks hlength hfield
  · -- every payload of a bundled codec starts with the raw length
    obtain ⟨hne, hsize⟩ := hblocks block (List.mem_append_right _ List.mem_cons_self)
    obtain ⟨hlong, -⟩ := Payload.block?_eq_some.1 (hrigid.restored block hne hsize)
    obtain ⟨hold, hnew⟩ := overwrite_size codec.id pack front block back hlong hlength
    rw [hold] at hfield
    rw [hnew]
    exact failsAfter_of_size hid hrigid hblocks hlong hlength hfield

/-- Seven bytes in blocks of up to four: nothing is read if the first length is another one. -/
theorem wrong_length_noticed_lz4 :
    ∃ (stream : Bytes) (blocks : List Bytes),
      Writer.Finished (.lz4 .plain) 4 [1, 2, 3, 4, 5, 6, 7] stream ∧
      blocks.flatten = [1, 2, 3, 4, 5, 6, 7] ∧ Reads .plain stream blocks ∧
      ∀ field : Bytes, field.length = 4 → field ≠ (stream.drop 20).take 4 →
        FailsAfter .plain (stream.overwrite 20 field) [] := by
  obtain ⟨-, pack, hrestores⟩ :=
    Codec.restores_bundled Libraries.plain_inverse .lz4 (by decide : 4 ≤ maxBlockSize)
  obtain ⟨stream, hfinished⟩ := Writer.exists_finished (by decide) (by decide) hrestores.toPacks
    [1, 2, 3, 4, 5, 6, 7]
  obtain ⟨blocks, payloads, -, -, hdata, hreads, hfails⟩ :=
    wrong_length_noticed Libraries.plain_inverse Libraries.plain_exacting .lz4 hfinished
  have hpos : 0 < blocks.length := by
    refine List.length_pos_iff.2 ?_
    rintro rfl
    cases hdata
  refine ⟨stream, blocks, hfinished, hdata, hreads, fun field hlength hfield => ?_⟩
  have hstart : recordStart payloads 0 = 20 := by simp [recordStart, headerSize]
  exact hfails 0 hpos 20 (.inl hstart.symm) field hlength hfield

end Reader

end FramedStream
