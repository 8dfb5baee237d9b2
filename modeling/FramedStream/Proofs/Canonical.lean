import FramedStream.Proofs.Reader.Outlook
import FramedStream.Proofs.Reader.Streams
import FramedStream.Proofs.Writer.Session

/-!
# One stream for each row of blocks

A block that is kept verbatim has one payload only, the one that a writer makes of it: both length
fields are told by the block. So a stream of such blocks that is read to its end is told by them,
even if no writer made it.

* `eq_verbatim` says it of a payload, `eq_framed_of_reads` of a stream;
* `blocksOf_flushed`: blocks that are flushed one by one stay as they are;
* `reencoding_restores`: so writing the blocks that were read gives the stream that they were read
  from.
-/

namespace FramedStream

open Item (ofBytes blocksOf)

/-- The payload of a block that is kept verbatim. -/
theorem eq_verbatim {payload block : Bytes}
    (h : Payload.block? (fun body _ => some body) payload = some block) :
    payload = Codec.verbatim block := by
  obtain ⟨hlong, hlength, -, -, hbody⟩ := Payload.block?_eq_some.1 h
  have hbody : payload.drop 4 = block := Option.some.inj hbody
  have htake : (payload.take 4).length = 4 := by rw [List.length_take]; omega
  have hfield := Bytes.ofNatLE_toNatLE (payload.take 4)
  rw [htake, hlength] at hfield
  rw [Codec.verbatim, Payload.encode, Payload.rawLengthSize, hfield, ← hbody,
    List.take_append_drop]

theorem payloads_eq_verbatim {found : List Decoded}
    (h : ∀ d ∈ found, Payload.block? (fun body _ => some body) d.payload = some d.block) :
    found.map (·.payload) = (found.map (·.block)).map Codec.verbatim := by
  rw [List.map_map]
  exact List.map_congr_left fun d hd => eq_verbatim (h d hd)

/-- A stream that names the codec which keeps blocks verbatim, and that is read to its end, is the
stream of the blocks. None of them is empty. -/
theorem eq_framed_of_reads {libs : Libraries} {stream : Bytes}
    (hheader : (Header.current 0).encode <+: stream) {r : Reader}
    (hopen : Reader.openBundled (.ofBytes stream) libs = .ok r) {blocks : List Bytes}
    (hreads : (r.nextBlocks (blocks.length + 1)).1 =
      blocks.map (fun block => .ok (some block)) ++ [.ok none]) :
    stream = framed 0 Codec.verbatim blocks ∧ ∀ block ∈ blocks, block ≠ [] := by
  obtain ⟨rest, rfl⟩ := hheader
  have hid : (0 : UInt16).toNat ≤ 2 := by decide
  obtain ⟨r₀, hopen₀, -, hready⟩ := Reader.openBundled_current libs hid rest
  cases hopen₀.symm.trans hopen
  obtain ⟨rfl, hending⟩ := Reader.blocks_of_nextBlocks hreads
  obtain ⟨left, hparses, hblocks, hlast⟩ := Reader.outlook_ready (Codec.payloadLimit_lt 0) hready
  have hblocks : ∀ d ∈ r.outlook.found,
      Payload.block? (fun body _ => some body) d.payload = some d.block := hblocks
  -- the stream ends, so nothing is left behind the records
  have hleft : left = [] := by
    rcases hlast with ⟨hnil, -⟩ | ⟨-, -, damage, hfails⟩
    · exact hnil
    · rw [hending] at hfails
      cases hfails
  have hrecords : rest = r.outlook.payloads.flatMap record := by
    rw [hparses.eq_append, hleft, List.append_nil]
  refine ⟨?_, fun block hblock => ?_⟩
  · rw [framed, records_eq, hrecords, Outlook.payloads, payloads_eq_verbatim hblocks]
    rfl
  · obtain ⟨d, hd, rfl⟩ := List.mem_map.1 hblock
    obtain ⟨-, -, hne, -⟩ := Payload.block?_eq_some.1 (hblocks d hd)
    exact hne

/-- Blocks that are flushed one by one stay as they are, if each of them fits. -/
theorem blocksOf_flushed {size : Nat} (hsize : 0 < size) {blocks : List Bytes}
    (h : ∀ block ∈ blocks, block ≠ [] ∧ block.length ≤ size) :
    blocksOf size (blocks.flatMap fun block => ofBytes block ++ [.flush]) = blocks := by
  induction blocks with
  | nil => simp [blocksOf, Item.segments]
  | cons block blocks ih =>
    obtain ⟨⟨hne, hlength⟩, hrest⟩ := List.forall_mem_cons.1 h
    rw [List.flatMap_cons, List.append_assoc, List.singleton_append, Item.blocksOf_append_flush,
      Bytes.chunks_of_length_le hsize hlength, if_neg hne, ih hrest, List.singleton_append]

/-- The calls that write some blocks, each with a flush behind it. -/
def writeEach (blocks : List Bytes) : List Call :=
  blocks.flatMap fun block => [.writeBytes block 0 block.length, .flush]

theorem feeds_writeEach (blocks : List Bytes) : ∀ c ∈ writeEach blocks, c.Feeds := by
  intro c hc
  obtain ⟨block, -, hc⟩ := List.mem_flatMap.1 hc
  simp only [List.mem_cons, List.not_mem_nil, or_false] at hc
  rcases hc with rfl | rfl
  · exact Nat.le_of_eq (Nat.zero_add _)
  · trivial

theorem items_writeEach (blocks : List Bytes) :
    (writeEach blocks).flatMap Call.items =
      blocks.flatMap fun block => ofBytes block ++ [.flush] := by
  rw [writeEach, List.flatMap_assoc]
  refine List.flatMap_congr fun block _ => ?_
  simp [Call.items]

/-- Writing the blocks of a stream again restores it, if they are kept verbatim: the stream is one
that starts with the current header and is read to its end, and the blocks may be of any size that
the writer takes. -/
theorem reencoding_restores {libs : Libraries} {stream : Bytes}
    (hheader : (Header.current 0).encode <+: stream) {r : Reader}
    (hopen : Reader.openBundled (.ofBytes stream) libs = .ok r) {blocks : List Bytes}
    (hreads : (r.nextBlocks (blocks.length + 1)).1 =
      blocks.map (fun block => .ok (some block)) ++ [.ok none])
    {blockSize : Nat} (hpos : 1 ≤ blockSize) (hmax : blockSize ≤ maxBlockSize)
    (hblocks : ∀ block ∈ blocks, block.length ≤ blockSize) {sink : Sink}
    (hsink : sink.NeverFails) :
    ∃ w start w', Writer.create sink .passthrough blockSize = (.ok w, start) ∧
      w.perform (writeEach blocks ++ [Call.finish]) =
        ((writeEach blocks ++ [Call.finish]).map (·.answer (.ok ())), w') ∧
      w'.sink.toList = sink.toList ++ stream := by
  obtain ⟨hstream, hne⟩ := eq_framed_of_reads hheader hopen hreads
  have hfinish : Call.finish.Ends := trivial
  obtain ⟨w, start, w', hcreate, hperform, hdelivered⟩ := Writer.session_delivers hsink hpos hmax
    (Codec.packs_passthrough hmax) (feeds_writeEach blocks) hfinish
  have hcut : blocksOf blockSize ((writeEach blocks).flatMap Call.items) = blocks := by
    rw [items_writeEach]
    exact blocksOf_flushed hpos fun block hmem => ⟨hne block hmem, hblocks block hmem⟩
  refine ⟨w, start, w', hcreate, hperform, ?_⟩
  rw [hdelivered.contents, hcut, hstream]
  rfl

/-- A stream of three bytes and one more, written in blocks of up to three. The first block is sent
before its flush, which then sends nothing. -/
theorem reencoding_restores_exact_block :
    ∃ w start w', Writer.create .unlimited .passthrough 3 = (.ok w, start) ∧
      (w.perform [.writeBytes [1, 2, 3] 0 3, .flush, .writeBytes [4] 0 1, .flush, .finish]).2 = w' ∧
      w'.sink.toList = (Header.current 0).encode ++
        [0, 0, 0, 7, 3, 0, 0, 0, 1, 2, 3, 0, 0, 0, 5, 1, 0, 0, 0, 4] := by
  obtain ⟨stream, hstream⟩ : ∃ stream : Bytes, stream = (Header.current 0).encode ++
      [0, 0, 0, 7, 3, 0, 0, 0, 1, 2, 3, 0, 0, 0, 5, 1, 0, 0, 0, 4] := ⟨_, rfl⟩
  obtain ⟨r, hopen⟩ : ∃ r, Reader.openBundled (.ofBytes stream) .plain = .ok r := by
    rw [hstream]
    exact ⟨_, rfl⟩
  obtain ⟨blocks, hblocks⟩ : ∃ blocks : List Bytes, blocks = [[1, 2, 3], [4]] := ⟨_, rfl⟩
  have hreads : (r.nextBlocks (blocks.length + 1)).1 =
      blocks.map (fun block => .ok (some block)) ++ [.ok none] := by
    subst hstream hblocks
    cases hopen
    decide +kernel
  have hheader : (Header.current 0).encode <+: stream := hstream ▸ List.prefix_append _ _
  obtain ⟨w, start, w', hcreate, hperform, hcontents⟩ :=
    reencoding_restores hheader hopen hreads (by decide : 1 ≤ 3) (by decide) (by simp [hblocks])
      Sink.neverFails_unlimited
  subst hstream hblocks
  exact ⟨w, start, w', hcreate, congrArg Prod.snd hperform, hcontents⟩

end FramedStream
