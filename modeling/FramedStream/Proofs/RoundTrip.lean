import FramedStream.Proofs.Codec.Library
import FramedStream.Proofs.Reader.Streams
import FramedStream.Proofs.Writer.Session

/-!
# The round trip

What a session writes is read back. The two halves meet at the stream of some blocks: a session
leaves nothing else (`Writer.session_delivers`), and a reader of it finds the records of these
blocks, each of which it can parse (`Reader.reads_framed`).
-/

namespace FramedStream

open Item (blocksOf)

/-- A session with a bundled codec over a sink that never fails adds a stream to it that is read
back to what was written, in as many blocks as the writer has counted. The libraries may be any that
undo what they do. -/
theorem round_trip {libs : Libraries} (hlibs : libs.Inverse) {codec : Codec}
    (hcodec : Codec.Bundled libs codec) {blockSize : Nat} (hpos : 0 < blockSize)
    (hmax : blockSize ≤ maxBlockSize) {sink : Sink} (hsink : sink.NeverFails) {calls : List Call}
    (hcalls : ∀ c ∈ calls, c.Feeds) :
    ∃ w start w' stream, Writer.create sink codec blockSize = (.ok w, start) ∧
      w.perform (calls ++ [Call.finish]) =
        ((calls ++ [Call.finish]).map (·.answer (.ok ())), w') ∧
      w'.sink.toList = sink.toList ++ stream ∧
      ∃ (r r' : Reader) (blocks : List Bytes),
        Reader.openBundled (.ofBytes stream) libs = .ok r ∧
        r.nextBlocks (w'.stats.blocks + 1) =
          (blocks.map (fun block => .ok (some block)) ++ [.ok none], r') ∧
        blocks.flatten = calls.flatMap (fun c => Item.bytes c.items) ∧
        r'.blocksRead = w'.stats.blocks := by
  obtain ⟨hid, pack, hrestores⟩ := Codec.restores_bundled hlibs hcodec hmax
  -- the stream depends on the blocks only, so the way they were written is forgotten here
  have hfinish : Call.finish.Ends := trivial
  obtain ⟨w, start, w', hcreate, hperform, hdelivered⟩ :=
    Writer.session_delivers hsink hpos hmax hrestores.toPacks hcalls hfinish
  have hblock : ∀ block ∈ blocksOf blockSize (calls.flatMap Call.items),
      block ≠ [] ∧ block.length ≤ blockSize := fun _ => Item.length_of_mem_blocksOf
  obtain ⟨r, r', hopen, hrun, hcount⟩ := Reader.reads_framed hid (hrestores.readable hblock)
  rw [← hdelivered.blocks] at hrun hcount
  refine ⟨w, start, w', _, hcreate, hperform, hdelivered.contents, r, r', _, hopen, hrun, ?_,
    hcount⟩
  rw [Item.flatten_blocksOf hpos, Item.bytes_flatMap]

/-- Seven bytes through three entry points, with a flush, in blocks of up to four bytes. -/
theorem round_trip_zstd :
    ∃ w start w' stream, Writer.create .unlimited (.zstd 3 .plain) 4 = (.ok w, start) ∧
      (w.perform [.writeByte 1, .write [2, 3, 4, 5], .flush, .writeElements .u16 [6, 7] 1 1,
        .finish]).2 = w' ∧
      w'.sink.toList = stream ∧
      ∃ (r r' : Reader) (blocks : List Bytes),
        Reader.openBundled (.ofBytes stream) .plain = .ok r ∧
        r.nextBlocks (w'.stats.blocks + 1) =
          (blocks.map (fun block => .ok (some block)) ++ [.ok none], r') ∧
        blocks.flatten = [1, 2, 3, 4, 5, 7, 0] ∧ r'.blocksRead = w'.stats.blocks := by
  have hfeeds : ∀ c ∈ [Call.writeByte 1, .write [2, 3, 4, 5], .flush,
      .writeElements .u16 [6, 7] 1 1], c.Feeds := by simp [Call.Feeds]
  obtain ⟨w, start, w', stream, hcreate, hperform, hcontents, r, r', blocks, hopen, hrun, hblocks,
    hcount⟩ := round_trip Libraries.plain_inverse (.zstd 3) (by decide : 0 < 4) (by decide)
      Sink.neverFails_unlimited hfeeds
  exact ⟨w, start, w', stream, hcreate, congrArg Prod.snd hperform, hcontents, r, r', blocks, hopen,
    hrun, hblocks.trans (by decide), hcount⟩

end FramedStream
