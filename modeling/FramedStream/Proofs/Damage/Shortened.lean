import FramedStream.Proofs.Codec.Rigid
import FramedStream.Proofs.Damage.Truncated

/-!
# Streams of shortened blocks

Every payload of a stream loses its last byte, and the length fields stay as they are. A reader
takes the first payload together with the byte that follows it. If that should have a block, the
reader is one byte behind from then on, where no record starts (`Codec.InStep.outOfStep`). So it
never gets further than one block, and never to the end (`Reader.shortened_blocks_fail`).
-/

namespace FramedStream

/-- The records of payloads of which each has lost its last byte. -/
def shortened (payloads : List Bytes) : Bytes :=
  payloads.flatMap fun payload => Bytes.ofNatBE blockLengthSize payload.length ++ payload.dropLast

variable {limit : Nat} {block? : Bytes → Option Bytes} {payload : Bytes}

/-- A payload alone is cut. -/
theorem stuck_of_shortened_single (hlimit : limit < 2 ^ 32) (hpayload : payload.length < 2 ^ 32)
    (hne : payload ≠ []) : Stuck limit block? (shortened [payload]) := by
  have hsingle : shortened [payload] =
      Bytes.ofNatBE blockLengthSize payload.length ++ payload.dropLast := by
    simp [shortened]
  have hpos := List.length_pos_iff.2 hne
  rw [hsingle]
  refine stuck_of_cut hlimit hpayload ?_ ?_
  · exact (List.prefix_append_right_inj _).2 (List.dropLast_prefix payload)
  · rw [length_record, List.length_append, Bytes.length_ofNatBE, List.length_dropLast]
    omega

/-- The first of several payloads goes on with the first byte of the next length, and what follows
it is one byte behind. -/
theorem shortened_cons_cons (hne : payload ≠ []) (next : Bytes) (payloads : List Bytes) :
    ∃ filled : Bytes, filled.length = payload.length ∧
      shortened (payload :: next :: payloads) =
        record filled ++ (Payload.outOfStep next ++ shortened payloads) := by
  have hpos := List.length_pos_iff.2 hne
  obtain ⟨first, field, hfield⟩ : ∃ first field, Bytes.ofNatBE 4 next.length = first :: field :=
    ⟨_, _, rfl⟩
  have hlength : (payload.dropLast ++ [first]).length = payload.length := by
    rw [List.length_append, List.length_dropLast, List.length_singleton]
    omega
  refine ⟨payload.dropLast ++ [first], hlength, ?_⟩
  simp only [shortened, List.flatMap_cons, record, hlength, Payload.outOfStep, blockLengthSize,
    hfield, List.drop_succ_cons, List.drop_zero, List.append_assoc, List.cons_append,
    List.nil_append]

namespace Reader

variable {libs : Libraries} {c : Codec} {blockSize : Nat} {pack : Bytes → Bytes}

/-- A payload that happens to have a block is given, whatever it was. -/
theorem failsAfter_of_admits {id : UInt16} (hid : id.toNat ≤ 2) {payload block rest : Bytes}
    (hadmits : Admits (Codec.payloadLimit id) (Payload.block? (Codec.body? libs id)) payload)
    (hblock : Payload.block? (Codec.body? libs id) payload = some block) (hne : rest ≠ [])
    (hstuck : Stuck (Codec.payloadLimit id) (Payload.block? (Codec.body? libs id)) rest) :
    FailsAfter libs ((Header.current id).encode ++ (record payload ++ rest)) [block] := by
  have hreadable : ∀ block' ∈ [block], Readable (Codec.payloadLimit id)
      (Payload.block? (Codec.body? libs id)) (fun _ => payload) block' :=
    List.forall_mem_singleton.2 ⟨hadmits.positive, hadmits.bounded, hblock⟩
  have hrecords : records (fun _ => payload) [block] = record payload := by simp [records]
  have h := failsAfter_of_stuck hid hreadable hne hstuck
  rwa [hrecords] at h

theorem failsAfter_of_shortened (hid : c.id.toNat ≤ 2)
    (h : c.InStep blockSize pack (Codec.payloadLimit c.id) (Payload.block? (Codec.body? libs c.id)))
    {blocks : List Bytes} (hblocks : ∀ block ∈ blocks, block ≠ [] ∧ block.length ≤ blockSize)
    (hne : blocks ≠ []) :
    ∃ read : List Bytes, read.length ≤ 1 ∧
      FailsAfter libs ((Header.current c.id).encode ++ shortened (blocks.map pack)) read := by
  have hfield := Codec.payloadLimit_lt c.id
  obtain ⟨block, rest, rfl⟩ := List.exists_cons_of_ne_nil hne
  obtain ⟨⟨hblock, hsize⟩, hrest⟩ := List.forall_mem_cons.1 hblocks
  have hpositive := h.positive block hblock hsize
  have hbounded := h.bounded block hblock hsize
  have hpayload : pack block ≠ [] := List.length_pos_iff.1 hpositive
  have hsome : ∀ payloads, shortened (pack block :: payloads) ≠ [] := by
    intro payloads hnil
    have hlength := congrArg List.length hnil
    simp [shortened, blockLengthSize] at hlength
  rw [List.map_cons]
  cases rest with
  | nil =>
    exact ⟨[], Nat.zero_le 1, failsAfter_at_once hid (hsome [])
      (stuck_of_shortened_single hfield (Nat.lt_of_le_of_lt hbounded hfield) hpayload)⟩
  | cons next rest =>
    obtain ⟨⟨hnext, hnextSize⟩, -⟩ := List.forall_mem_cons.1 hrest
    obtain ⟨filled, hlength, hshortened⟩ :=
      shortened_cons_cons hpayload (pack next) (rest.map pack)
    have hbehind := h.outOfStep next hnext hnextSize (shortened (rest.map pack))
    cases hfilled : Payload.block? (Codec.body? libs c.id) filled with
    | none =>
      -- the first payload has no block any more
      refine ⟨[], Nat.zero_le 1, failsAfter_at_once hid (hsome _) ?_⟩
      rw [List.map_cons, hshortened]
      exact stuck_of_block?_eq_none hfield (by omega) hfilled _
    | some wrong =>
      rw [List.map_cons, hshortened]
      refine ⟨[wrong], Nat.le_refl 1, failsAfter_of_admits hid ?_ hfilled ?_ hbehind⟩
      · exact ⟨by omega, by omega, by rw [hfilled]; rfl⟩
      · simp [Payload.outOfStep, Bytes.ofNatBE, Bytes.ofNatLE]

/-- No stream with shortened blocks reads successfully. Of a finished stream that holds any data, if
every block loses its last byte, at most one block is read, the stream is found to be damaged, and
its end is never reached. Of the libraries only the first bytes of what they compress are used for
that. -/
theorem shortened_blocks_fail (hlibs : libs.Inverse) (hleading : libs.Leading)
    {codec : Codec} (hcodec : Codec.Bundled libs codec) {data stream : Bytes}
    (h : Writer.Finished codec blockSize data stream) (hdata : data ≠ []) :
    ∃ blocks payloads : List Bytes,
      stream = (Header.current codec.id).encode ++ payloads.flatMap record ∧
      payloads.length = blocks.length ∧ blocks.flatten = data ∧ Reads libs stream blocks ∧
      ∃ (damaged : Bytes) (read : List Bytes),
        damaged = (Header.current codec.id).encode ++ shortened payloads ∧
        read.length ≤ 1 ∧ FailsAfter libs damaged read ∧
        ∀ r, openBundled (.ofBytes damaged) libs = .ok r → ∀ count,
          .ok none ∉ (r.nextBlocks count).1 := by
  obtain ⟨-, hmax⟩ := h.inRange
  obtain ⟨hid, pack, hstep⟩ := Codec.inStep_bundled hlibs hmax hleading hcodec
  obtain ⟨blocks, rfl, rfl, hblocks⟩ := Writer.framed_of_finished hstep.toPacks h
  have hne : blocks ≠ [] := by
    rintro rfl
    exact hdata rfl
  obtain ⟨read, hread, hfails⟩ := failsAfter_of_shortened hid hstep hblocks hne
  refine ⟨blocks, blocks.map pack, ?_, List.length_map _, rfl,
    reads_framed hid (hstep.toRestores.readable hblocks), _, read, rfl, hread, hfails,
    fun r hopen count => hfails.never_ends hopen count⟩
  rw [framed, records_eq]

/-- Two LZ4 blocks of a single byte each, of which the payloads then hold no literal any more. -/
theorem shortened_blocks_fail_lz4 :
    Libraries.plain.Inverse ∧ Libraries.plain.Leading ∧ Codec.Bundled .plain (.lz4 .plain) ∧
      ∃ (stream : Bytes) (payloads : List Bytes),
        Writer.Finished (.lz4 .plain) 1 [1, 2] stream ∧
        stream = (Header.current 2).encode ++ payloads.flatMap record ∧
        ∃ read : List Bytes, read.length ≤ 1 ∧
          FailsAfter .plain ((Header.current 2).encode ++ shortened payloads) read := by
  have hmax : 1 ≤ maxBlockSize := by decide
  have hbundled : Codec.Bundled .plain (.lz4 .plain) := .lz4
  have hinverse := Libraries.plain_inverse
  have hleading := Libraries.plain_exacting.leading
  obtain ⟨-, pack, hrestores⟩ := Codec.restores_bundled hinverse hbundled hmax
  obtain ⟨stream, hfinished⟩ := Writer.exists_finished (by decide) hmax hrestores.toPacks [1, 2]
  obtain ⟨blocks, payloads, hstream, -, -, -, damaged, read, rfl, hread, hfails, -⟩ :=
    shortened_blocks_fail hinverse hleading hbundled hfinished (by decide)
  exact ⟨hinverse, hleading, hbundled, stream, payloads, hfinished, hstream, read, hread, hfails⟩

end Reader

end FramedStream
