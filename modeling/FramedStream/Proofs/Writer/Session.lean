import FramedStream.Proofs.Writer.Feeding

/-!
# A whole session

A session starts with a new writer, feeds it, and ends it in one of three ways. If neither the
codec nor the sink fails, the sink then holds the stream of the blocks that the items make, and
nothing else.

* `Writer.create_feedable` and `Call.operate_end` are the two ends of a session,
  `Writer.perform_feedable` is what lies between;
* `Writer.Delivered` says what a session that is over has left behind;
* `Writer.session_delivers` puts them together.
-/

namespace FramedStream

open Item (ofBytes blocksOf)

namespace Writer

/-- What is left of a session over a sink: the stream of the blocks and one more flush. Nothing
that is done to the writer afterwards changes it. -/
structure Delivered (sink : Sink) (codec : Codec) (pack : Bytes → Bytes) (items : List Item)
    (blocks : List Bytes) (w : Writer) : Prop where
  contents : w.sink.toList = sink.toList ++ framed codec.id pack blocks
  flushes : w.sink.flushes = sink.flushes + items.count .flush + 1
  blocks : w.stats.blocks = blocks.length
  ended : ∀ later, (w.perform later).2 = w

variable {pack : Bytes → Bytes} {w : Writer}

/-- A new writer has sent the header. -/
theorem create_feedable {sink : Sink} (hsink : sink.NeverFails) {codec : Codec} {blockSize : Nat}
    (hpos : 0 < blockSize) (hmax : blockSize ≤ maxBlockSize) (hpacks : codec.Packs blockSize pack) :
    ∃ w start, create sink codec blockSize = (.ok w, start) ∧ w.Feedable pack ∧
      w.codec = codec ∧ w.blockSize = blockSize ∧ w.pending = [] ∧ w.stats.blocks = 0 ∧
      w.sink.flushes = sink.flushes ∧
      w.sink.toList = sink.toList ++ (Header.current codec.id).encode := by
  obtain ⟨s, hwrite, hs, hlist, hflushes⟩ := hsink.writeAll (Header.current codec.id).encode
  rw [create_eq hpos hmax, hwrite]
  exact ⟨_, s, rfl, ⟨rfl, hs, hpacks, hpos, Nat.zero_le _⟩, rfl, rfl, rfl, rfl, hflushes, hlist⟩

/-- Closing sends what is pending, flushes once and lets go of the sink. -/
theorem close_feedable (hw : w.Feedable pack) :
    ∃ w', w.flush = (.ok (), w') ∧ w.close = (.ok (), w'.letGo) ∧
      Fed pack [.flush] (Bytes.chunks w.blockSize w.pending) w w' := by
  obtain ⟨w', hflush, -, h⟩ := flush_feedable hw
  exact ⟨w', hflush, by simp only [close, hw.phase, hflush], h⟩

end Writer

/-- The three ways to end a writer come to the same. -/
theorem Call.operate_end {pack : Bytes → Bytes} {w : Writer} (hw : w.Feedable pack) {ending : Call}
    (hending : ending.Ends) : ∃ w', ending.operate w = (.ok (), w'.letGo) ∧
      Writer.Fed pack [.flush] (Bytes.chunks w.blockSize w.pending) w w' := by
  obtain ⟨w', hflush, hclose, h⟩ := Writer.close_feedable hw
  refine ⟨w', ?_, h⟩
  cases ending with
  | close => exact hclose
  | finish => simp only [operate, Writer.finish, hflush]
  | drop => rw [operate, Writer.drop, if_pos hw.phase, hclose]
  | _ => exact hending.elim

namespace Writer

/-- A session over a sink that never fails delivers the stream of its blocks, whichever calls wrote
the bytes and however it ended. -/
theorem session_delivers {sink : Sink} (hsink : sink.NeverFails) {codec : Codec} {blockSize : Nat}
    (hpos : 0 < blockSize) (hmax : blockSize ≤ maxBlockSize) {pack : Bytes → Bytes}
    (hpacks : codec.Packs blockSize pack) {calls : List Call} (hcalls : ∀ c ∈ calls, c.Feeds)
    {ending : Call} (hending : ending.Ends) :
    ∃ w start w', create sink codec blockSize = (.ok w, start) ∧
      w.perform (calls ++ [ending]) = ((calls ++ [ending]).map (·.answer (.ok ())), w') ∧
      w'.Delivered sink codec pack (calls.flatMap Call.items)
        (blocksOf blockSize (calls.flatMap Call.items)) := by
  obtain ⟨w, start, hcreate, hw, hcodec, hsize, hpending, hblocks, hflushes, hheader⟩ :=
    create_feedable hsink hpos hmax hpacks
  obtain ⟨w₁, done, hfeed, hfed⟩ := perform_feedable hw hcalls
  obtain ⟨w₂, hend, hended⟩ := Call.operate_end hfed.feedable hending
  -- nothing follows any more, so the pending bytes are what is left of the last segment
  have hcut : blocksOf blockSize (calls.flatMap Call.items) =
      done ++ Bytes.chunks w₁.blockSize w₁.pending := by
    have h := hfed.cut []
    rw [hfed.blockSize, hsize]
    rwa [hpending, List.append_nil, List.append_nil, Item.ofBytes_nil, List.nil_append, hsize,
      Item.blocksOf_ofBytes] at h
  refine ⟨w, start, w₂.letGo, hcreate, ?_, ?_⟩
  · rw [perform_append, hfeed, perform_cons, hend]
    simp
  · exact
      { contents := by
          rw [hcut, framed, records_append, letGo, hended.contents, hfed.contents, hheader]
          simp only [List.append_assoc]
        flushes := by
          rw [letGo, hended.flushes, hfed.flushes, hflushes]
          rfl
        blocks := by
          rw [hcut, letGo, hended.blocks, hfed.blocks, hblocks, Nat.zero_add, List.length_append]
        ended := perform_closed rfl }

/-- The reference definition of the writer: the header, then for each chunk of each segment between
flushes the length of the compressed chunk and the compressed chunk. -/
theorem contents_of_session {sink : Sink} (hsink : sink.NeverFails) {codec : Codec}
    {blockSize : Nat} (hpos : 0 < blockSize) (hmax : blockSize ≤ maxBlockSize)
    {pack : Bytes → Bytes} (hpacks : codec.Packs blockSize pack) :
    ∃ w start, create sink codec blockSize = (.ok w, start) ∧
      ∀ calls : List Call, (∀ c ∈ calls, c.Feeds) → ∀ ending : Call, ending.Ends →
        ∃ w', w.perform (calls ++ [ending]) = ((calls ++ [ending]).map (·.answer (.ok ())), w') ∧
          w'.sink.toList = sink.toList ++ ((Header.current codec.id).encode ++
            (blocksOf blockSize (calls.flatMap Call.items)).flatMap fun chunk =>
              Bytes.ofNatBE 4 (pack chunk).length ++ pack chunk) ∧
          w'.sink.flushes = sink.flushes + (calls.flatMap Call.items).count .flush + 1 ∧
          ∀ later, (w'.perform later).2 = w' := by
  obtain ⟨w, start, hcreate, -⟩ := create_feedable hsink hpos hmax hpacks
  refine ⟨w, start, hcreate, fun calls hcalls ending hending => ?_⟩
  obtain ⟨w₁, start₁, w', hcreate₁, hrun, h⟩ :=
    session_delivers hsink hpos hmax hpacks hcalls hending
  obtain ⟨hw, -⟩ := Prod.mk.inj (hcreate₁.symm.trans hcreate)
  rw [Except.ok.inj hw] at hrun
  exact ⟨w', hrun, h.contents, h.flushes, h.ended⟩

/-- Six bytes and a flush, written through four entry points: two blocks before the flush and two
after it. -/
theorem contents_of_session_passthrough :
    ∃ w start w', create .unlimited .passthrough 2 = (.ok w, start) ∧
      (w.perform [.writeByte 1, .writeByte 2, .write [3], .flush, .writeBytes [9, 4, 5, 9] 1 2,
        .writeElements .u8 [6] 0 1, .drop]).2 = w' ∧
      w'.sink.flushes = 2 ∧
      w'.sink.toList = [0x82, 0x42, 0x4c, 0x4b, 0x46, 0x52, 0x4d, 0,
        0, 0, 0, 1, 0, 0, 0, 1, 0, 0, 0, 0,
        0, 0, 0, 6, 2, 0, 0, 0, 1, 2, 0, 0, 0, 5, 1, 0, 0, 0, 3,
        0, 0, 0, 6, 2, 0, 0, 0, 4, 5, 0, 0, 0, 5, 1, 0, 0, 0, 6] := by
  have hmax : 2 ≤ maxBlockSize := by decide
  obtain ⟨w, start, hcreate, h⟩ := contents_of_session Sink.neverFails_unlimited (by decide) hmax
    (Codec.packs_passthrough hmax)
  obtain ⟨w', hrun, hcontents, hflushes, -⟩ := h [.writeByte 1, .writeByte 2, .write [3], .flush,
    .writeBytes [9, 4, 5, 9] 1 2, .writeElements .u8 [6] 0 1] (by simp [Call.Feeds]) .drop trivial
  refine ⟨w, start, w', hcreate, congrArg Prod.snd hrun, hflushes.trans (by decide), ?_⟩
  rw [hcontents]
  decide +kernel

end Writer

end FramedStream
