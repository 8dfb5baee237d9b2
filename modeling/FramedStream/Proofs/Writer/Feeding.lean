import FramedStream.Proofs.Codec.Packing
import FramedStream.Proofs.Writer.Moves
import FramedStream.Proofs.Writer.Reference

/-!
# Feeding a writer

What a writer makes of calls that only write and flush, where neither its codec nor its sink ever
fails. Complete blocks leave the writer early or late: one that is filled by many bytes at once
leaves it then, one that is filled by a single byte only when the next byte comes. So the state
does not follow from what was written. What does is the stream that is still to come:

* `Writer.Feedable` is the invariant of such a writer, a full buffer of pending bytes included;
* `Writer.Fed items done`: the items were taken and the blocks `done` were sent, and whatever
  follows, these blocks and those that the writer is left with are the blocks of it all;
* `Call.operate_feedable` for one call, `Writer.perform_feedable` for many.
-/

namespace FramedStream

open Item (ofBytes blocksOf)

namespace Writer

/-- An open writer whose codec and sink do not fail. The pending bytes may fill a block. -/
structure Feedable (pack : Bytes → Bytes) (w : Writer) : Prop where
  phase : w.phase = .accepting
  sink : w.sink.NeverFails
  packs : w.codec.Packs w.blockSize pack
  positive : 0 < w.blockSize
  pending : w.pending.length ≤ w.blockSize

/-- The writer after it sent some blocks. -/
structure Sent (pack : Bytes → Bytes) (done : List Bytes) (w w' : Writer) : Prop where
  feedable : w'.Feedable pack
  codec : w'.codec = w.codec
  blockSize : w'.blockSize = w.blockSize
  contents : w'.sink.toList = w.sink.toList ++ records pack done
  blocks : w'.stats.blocks = w.stats.blocks + done.length

/-- The writer after it took some items and sent some blocks. -/
structure Fed (pack : Bytes → Bytes) (items : List Item) (done : List Bytes) (w w' : Writer) :
    Prop extends Sent pack done w w' where
  flushes : w'.sink.flushes = w.sink.flushes + items.count .flush
  cut : ∀ rest, blocksOf w.blockSize (ofBytes w.pending ++ (items ++ rest)) =
    done ++ blocksOf w.blockSize (ofBytes w'.pending ++ rest)

variable {pack : Bytes → Bytes} {w w₁ w₂ : Writer} {items items₁ items₂ : List Item}
  {done done₁ done₂ : List Bytes}

theorem Fed.refl (hw : w.Feedable pack) : Fed pack [] [] w w :=
  ⟨⟨hw, rfl, rfl, by simp, by simp⟩, rfl, fun _ => rfl⟩

theorem Fed.trans (h₁ : Fed pack items₁ done₁ w w₁) (h₂ : Fed pack items₂ done₂ w₁ w₂) :
    Fed pack (items₁ ++ items₂) (done₁ ++ done₂) w w₂ where
  feedable := h₂.feedable
  codec := h₂.codec.trans h₁.codec
  blockSize := h₂.blockSize.trans h₁.blockSize
  contents := by rw [h₂.contents, h₁.contents, records_append, List.append_assoc]
  blocks := by rw [h₂.blocks, h₁.blocks, List.length_append, Nat.add_assoc]
  flushes := by rw [h₂.flushes, h₁.flushes, List.count_append, Nat.add_assoc]
  cut rest := by
    have hcut := h₂.cut rest
    rw [h₁.blockSize] at hcut
    rw [List.append_assoc items₁, h₁.cut, hcut, List.append_assoc]

/-! ### Operations -/

theorem Feedable.bounded (hw : w.Feedable pack) : w.Bounded := ⟨hw.positive, hw.pending⟩

theorem unusable?_of_feedable (hw : w.Feedable pack) : w.unusable? = none := by
  rw [unusable?, hw.phase]

/-- Bytes for which there is room wait. -/
theorem fed_accept (hw : w.Feedable pack) {bytes : Bytes}
    (hroom : w.pending.length + bytes.length ≤ w.blockSize) :
    Fed pack (ofBytes bytes) [] w (w.accept bytes) where
  feedable := ⟨hw.phase, hw.sink, hw.packs, hw.positive, by simpa [accept] using hroom⟩
  codec := rfl
  blockSize := rfl
  contents := by simp [accept]
  blocks := rfl
  flushes := by simp [accept]
  cut rest := by simp [accept]

theorem pack_feedable (hw : w.Feedable pack) (hne : w.pending ≠ []) :
    ∃ scratch, w.pack = (.ok (pack w.pending), w.tried scratch) := by
  have hroom : (pack w.pending).length ≤ w.room := hw.packs.room _ hne hw.pending
  have hfield := hw.packs.field _ hne hw.pending
  obtain ⟨more, hcompress⟩ := hw.packs.compress w.compressCalls _ hne hw.pending
  have hfits : ¬ w.oversized (pack w.pending).length = true := by
    rw [oversized_iff]
    exact not_or.2 ⟨Nat.not_lt.2 hroom, Nat.not_le.2 hfield⟩
  rw [← room] at hcompress
  simp only [Writer.pack, hcompress, if_neg hfits]
  rw [Output.take_into w.scratch more hroom (Nat.le_refl w.room)]
  exact ⟨_, rfl⟩

/-- All pending bytes are sent as one block, unless there are none. -/
theorem emit_feedable (hw : w.Feedable pack) :
    ∃ w', w.emit = (.ok (), w') ∧ w'.pending = [] ∧ w'.sink.flushes = w.sink.flushes ∧
      Sent pack (Bytes.chunks w.blockSize w.pending) w w' := by
  rw [Bytes.chunks_of_length_le hw.positive hw.pending]
  by_cases hnil : w.pending = []
  · refine ⟨w, by simp [emit, hnil], hnil, rfl, hw, rfl, rfl, by simp [hnil], by simp [hnil]⟩
  · obtain ⟨scratch, hpack⟩ := pack_feedable hw hnil
    obtain ⟨s, hwrite, hs, hlist, hflushes⟩ := hw.sink.writeRecord (pack w.pending)
    refine ⟨_, by simp [emit, hnil, hpack, putRecord, hwrite]; rfl, rfl, hflushes, ?_⟩
    exact
      { feedable := ⟨hw.phase, hs, hw.packs, hw.positive, Nat.zero_le _⟩
        codec := rfl
        blockSize := rfl
        contents := by simp [emitted, hlist, hnil, records]
        blocks := by simp [emitted, tried, hnil] }

/-- A complete block is sent, and what follows it is cut as if nothing had come before. -/
theorem emit_complete (hw : w.Feedable pack) (hfull : w.pending.length = w.blockSize) :
    ∃ w', w.emit = (.ok (), w') ∧ Fed pack [] (Bytes.chunks w.blockSize w.pending) w w' := by
  obtain ⟨w', heq, hpending, hflushes, hsent⟩ := emit_feedable hw
  refine ⟨w', heq, hsent, hflushes, fun rest => ?_⟩
  rw [hpending, Item.blocksOf_append_of_dvd hw.positive (hfull ▸ Nat.dvd_refl _)]
  rfl

/-- Each round that completes a block sends it, whether it was complete before or not. -/
theorem append_feedable (hw : w.Feedable pack) (bytes : Bytes) :
    ∃ w' done, w.append bytes = (.ok (), w') ∧ Fed pack (ofBytes bytes) done w w' := by
  refine append_induct
    (motive := fun w bytes => w.Feedable pack →
      ∃ w' done, w.append bytes = (.ok (), w') ∧ Fed pack (ofBytes bytes) done w w')
    (fun w hw => ⟨w, [], rfl, .refl hw⟩) ?_ ?_ hw.bounded bytes hw
  · intro w bytes hlt hw
    exact ⟨_, [], append_of_lt hlt, fed_accept hw (Nat.le_of_lt hlt)⟩
  · intro w bytes hbounded hne hle hfill ih hw
    rw [append_of_le hbounded hne hle]
    -- one round: fill the block up, by nothing if it is complete, and send it
    have h₁ := fed_accept hw (Nat.le_of_eq hfill)
    have hfull : (w.accept (bytes.take (w.blockSize - w.pending.length))).pending.length =
        w.blockSize := by rw [accept, List.length_append, hfill]
    obtain ⟨w₂, hemit, h₂⟩ := emit_complete h₁.feedable hfull
    obtain ⟨w', done, happend, h₃⟩ := ih w₂ hemit h₂.feedable
    have h := (h₁.trans h₂).trans h₃
    rw [List.append_nil, ← Item.ofBytes_append, List.take_append_drop] at h
    refine ⟨w', _, ?_, h⟩
    rw [hemit]
    exact happend

theorem writeBytes_feedable (hw : w.Feedable pack) {buffer : Bytes} {offset length : Nat}
    (hrange : offset + length ≤ buffer.length) :
    ∃ w' done, w.writeBytes buffer offset length = (.ok (), w') ∧
      Fed pack (ofBytes ((buffer.drop offset).take length)) done w w' := by
  simp only [writeBytes, unusable?_of_feedable hw]
  rw [if_neg (Nat.not_lt.2 hrange)]
  exact append_feedable hw _

/-- A whole buffer, as the entry points of the I/O interface write it. -/
theorem writeBytes_whole_feedable (hw : w.Feedable pack) (buffer : Bytes) :
    ∃ w' done, w.writeBytes buffer 0 buffer.length = (.ok (), w') ∧
      Fed pack (ofBytes buffer) done w w' := by
  have h := writeBytes_feedable hw (Nat.le_of_eq (Nat.zero_add buffer.length))
  rwa [List.drop_zero, List.take_length] at h

theorem write_feedable (hw : w.Feedable pack) (buffer : Bytes) :
    ∃ w' done, w.write buffer = (.ok buffer.length, w') ∧ Fed pack (ofBytes buffer) done w w' := by
  obtain ⟨w', done, hwrite, hfed⟩ := writeBytes_whole_feedable hw buffer
  exact ⟨w', done, by rw [write, hwrite], hfed⟩

/-- Nothing interrupts such a writer, so all of a buffer is written at once. -/
theorem writeAll_feedable (hw : w.Feedable pack) (buffer : Bytes) :
    w.writeAll buffer = some (.ok (), (w.write buffer).2) := by
  obtain ⟨w', done, hwrite, hfed⟩ := write_feedable hw buffer
  by_cases hne : buffer = []
  · rw [hne, writeAll_nil, write, writeBytes, unusable?_of_feedable hw]
    rfl
  · have hfails : ∀ failure, (w.write buffer).1 = .error failure → failure.kind ≠ .interrupted := by
      intro failure h
      rw [hwrite] at h
      cases h
    rw [writeAll_of_uninterrupted hne hfails, hwrite]
    rfl

/-- A block that is complete goes first. It may have been waiting since the last byte. -/
theorem writeByte_feedable (hw : w.Feedable pack) (byte : UInt8) :
    ∃ w' done, w.writeByte byte = (.ok (), w') ∧ Fed pack (ofBytes [byte]) done w w' := by
  simp only [writeByte, unusable?_of_feedable hw]
  split
  · next hfull =>
    -- the buffer has been full since the last byte
    obtain ⟨w₁, hemit, h₁⟩ := emit_complete hw hfull
    have hroom := room_of_emit_ok hw.bounded hemit byte
    rw [hemit]
    exact ⟨_, _, rfl, h₁.trans (fed_accept h₁.feedable hroom)⟩
  · next hfree => exact ⟨_, [], rfl, fed_accept hw (room_of_free hw.bounded hfree byte)⟩

theorem writeElements_feedable (hw : w.Feedable pack) (t : ElementType) {array : List t.Word}
    {offset count : Nat} (hrange : offset + count ≤ array.length) :
    ∃ w' done, w.writeElements t array offset count = (.ok (), w') ∧
      Fed pack (ofBytes (t.bytesOf ((array.drop offset).take count))) done w w' := by
  -- a range of elements is a range of their bytes
  have hbytes : offset * t.width + count * t.width ≤ (t.bytesOf array).length := by
    rw [t.length_bytesOf, ← Nat.add_mul]
    exact Nat.mul_le_mul_right _ hrange
  have h := writeBytes_feedable hw hbytes
  rw [t.drop_bytesOf, t.take_bytesOf] at h
  simp only [writeElements, ElementType.byteRange?]
  rw [if_pos hrange]
  exact h

theorem flush_feedable (hw : w.Feedable pack) :
    ∃ w', w.flush = (.ok (), w') ∧ w'.pending = [] ∧
      Fed pack [.flush] (Bytes.chunks w.blockSize w.pending) w w' := by
  obtain ⟨w₁, hemit, hnil, hflushes, h⟩ := emit_feedable hw
  obtain ⟨s, hflush, hs, hlist, hcount⟩ := h.feedable.sink.flush
  refine ⟨{ w₁ with sink := s }, ?_, hnil, ?_⟩
  · simp only [flush, unusable?_of_feedable hw, hemit, flushSink, hflush]
  · exact
      { feedable := { h.feedable with sink := hs }
        codec := h.codec
        blockSize := h.blockSize
        contents := hlist.trans h.contents
        blocks := h.blocks
        flushes := by rw [hcount, hflushes]; rfl
        cut := fun rest => by rw [List.singleton_append, Item.blocksOf_append_flush, hnil]; rfl }

end Writer

/-! ### Calls and sessions -/

open Writer in
/-- A call that writes or flushes succeeds and adds its items. -/
theorem Call.operate_feedable {pack : Bytes → Bytes} {w : Writer} (hw : w.Feedable pack) {c : Call}
    (hc : c.Feeds) : ∃ w' done, c.operate w = (.ok (), w') ∧ Fed pack c.items done w w' := by
  cases c with
  | writeBytes buffer offset length => exact writeBytes_feedable hw hc
  | writeByte byte => exact writeByte_feedable hw byte
  | writeElements t array offset count => exact writeElements_feedable hw t hc
  | writeAllElements t array =>
    have h := writeElements_feedable hw t (Nat.le_of_eq (Nat.zero_add array.length))
    rwa [List.drop_zero, List.take_length] at h
  | write buffer => exact writeBytes_whole_feedable hw buffer
  | flush | flushIo =>
    obtain ⟨w', heq, -, h⟩ := flush_feedable hw
    exact ⟨w', _, heq, h⟩
  | close | finish | drop => exact hc.elim

theorem Writer.perform_feedable {pack : Bytes → Bytes} {w : Writer} (hw : w.Feedable pack)
    {calls : List Call} (hcalls : ∀ c ∈ calls, c.Feeds) :
    ∃ w' done, w.perform calls = (calls.map (·.answer (.ok ())), w') ∧
      Fed pack (calls.flatMap Call.items) done w w' := by
  induction calls generalizing w with
  | nil => exact ⟨w, [], rfl, .refl hw⟩
  | cons c calls ih =>
    obtain ⟨hc, hrest⟩ := List.forall_mem_cons.1 hcalls
    obtain ⟨w₁, done₁, heq₁, h₁⟩ := Call.operate_feedable hw hc
    obtain ⟨w₂, done₂, heq₂, h₂⟩ := ih h₁.feedable hrest
    refine ⟨w₂, _, ?_, h₁.trans h₂⟩
    rw [perform_cons, heq₁, heq₂]
    rfl

end FramedStream
