import FramedStream.Proofs.Codec.Library
import FramedStream.Proofs.Command.Endpoints
import FramedStream.Proofs.Command.Inspection
import FramedStream.Proofs.Writer.FailingCodec
import FramedStream.Proofs.Writer.Finished
import FramedStream.Proofs.Writer.Session

/-!
# Compressing and decompressing

What was compressed is decompressed again, over a disk that the first command has changed.

* `Writer.copy_holds`: the stream of an input depends on its bytes only. In which pieces they are
  copied (`Writer.writePieces`) does not matter, nor how these fit the blocks;
* `run_compress` delivers that stream, where it has all it needs (`compressible_of_success`), and
  `copied_framed` reads it;
* `ofName_deliver`: what was delivered to an output is found under the same name;
* `compressed_contents_come_back` puts them together.

The program may be put together with any libraries that undo what they do (`Libraries.Inverse`).

An output is emptied before the input is read. If both are one file, under one name or through a
link, nothing is left to compress, and the command does not fail
(`compression_onto_itself_loses_all`).
-/

namespace FramedStream

namespace Writer

variable {codec : Codec} {blockSize : Nat} {pack : Bytes → Bytes} {w : Writer} {calls : List Call}

/-- A writer that does not fail accepts all it is given. -/
theorem accepted_feedable (hw : w.Feedable pack) (hcalls : ∀ c ∈ calls, c.Feeds) :
    w.accepted calls = Item.bytes (calls.flatMap Call.items) := by
  induction calls generalizing w with
  | nil => rfl
  | cons c calls ih =>
    obtain ⟨hc, hrest⟩ := List.forall_mem_cons.1 hcalls
    obtain ⟨w₁, done, hoperate, hfed⟩ := Call.operate_feedable hw hc
    rw [accepted, Call.accepted, hoperate, ih hfed.feedable hrest, List.flatMap_cons,
      Item.bytes_append]

/-- A writer that has not failed and is closed then has counted all it was given. -/
theorem totals_of_close (hw : w.Feedable pack) (hcalls : ∀ c ∈ calls, c.Feeds) :
    ∃ w', (w.perform (calls ++ [.close])).2 = w' ∧ w'.codec = w.codec ∧
      w'.blockSize = w.blockSize ∧
      w'.stats.rawBytes = w.stats.rawBytes + (Item.bytes (calls.flatMap Call.items)).length := by
  obtain ⟨w₁, done, hfeed, hfed⟩ := perform_feedable hw hcalls
  obtain ⟨w₂, hflush, hclose, -⟩ := close_feedable hfed.feedable
  have husable : (w.perform calls).2.phase = .accepting := by rw [hfeed, hfed.feedable.phase]
  obtain ⟨sent, hsends⟩ := perform_sends hw.bounded hw.phase husable
  rw [accepted_feedable hw hcalls, hfeed] at hsends
  obtain ⟨last, hlast⟩ := sends_of_flush hfed.feedable.bounded hfed.feedable.phase hflush
  have hall := hsends.trans hlast
  rw [List.append_nil] at hall
  refine ⟨w₂.letGo, ?_, hall.codec, hall.blockSize, hall.rawBytes⟩
  rw [perform_append, hfeed, perform_cons, Call.operate, hclose]
  rfl

/-- A writer of its own that has taken some bytes and was closed. -/
structure Holds (codec : Codec) (size : Nat) (pack : Bytes → Bytes) (bytes : Bytes) (w : Writer) :
    Prop where
  contents : w.sink.toList = framed codec.id pack (Bytes.chunks size bytes)
  codec : w.codec = codec
  blockSize : w.blockSize = size
  blocks : w.stats.blocks = (bytes.length + size - 1) / size
  rawBytes : w.stats.rawBytes = bytes.length

/-- Write all of some pieces, one after the other, until one fails. There is no end of it if one of
them is interrupted for ever. -/
def writePieces (w : Writer) : List Bytes → Option (Except IoFailure Unit × Writer)
  | [] => some (.ok (), w)
  | piece :: pieces =>
      match w.writeAll piece with
      | some (.ok (), w) => w.writePieces pieces
      | outcome => outcome

/-- A writer that does not fail takes each of the pieces in one write. -/
theorem writePieces_feedable (hw : w.Feedable pack) (pieces : List Bytes) :
    w.writePieces pieces = some (.ok (), (w.perform (pieces.map Call.write)).2) := by
  induction pieces generalizing w with
  | nil => rfl
  | cons piece pieces ih =>
    obtain ⟨w₁, done, hwrite, hfed⟩ := write_feedable hw piece
    rw [writePieces, writeAll_feedable hw piece, List.map_cons, perform_write, hwrite]
    exact ih hfed.feedable

/-- However the bytes come in pieces, a copy of them ends up as the same stream. -/
theorem copy_holds (hpos : 0 < blockSize) (hmax : blockSize ≤ maxBlockSize)
    (hpacks : codec.Packs blockSize pack) (pieces : List Bytes) :
    ∃ w start w₁ w', create .unlimited codec blockSize = (.ok w, start) ∧
      w.writePieces pieces = some (.ok (), w₁) ∧ w₁.close = (.ok (), w') ∧
      w'.Holds codec blockSize pack pieces.flatten := by
  have hcalls : ∀ c ∈ pieces.map Call.write, c.Feeds := by
    intro c hmem
    obtain ⟨piece, -, rfl⟩ := List.mem_map.1 hmem
    trivial
  have hitems : (pieces.map Call.write).flatMap Call.items = Item.ofBytes pieces.flatten := by
    rw [List.flatMap_map, Item.ofBytes, List.map_flatten, List.flatMap_def]
    rfl
  have hclose : Call.close.Ends := trivial
  obtain ⟨w, start, w', hcreate, hperform, hdelivered⟩ :=
    session_delivers Sink.neverFails_unlimited hpos hmax hpacks hcalls hclose
  obtain ⟨_, _, hcreate₁, hw, -⟩ := create_feedable Sink.neverFails_unlimited hpos hmax hpacks
  cases hcreate₁.symm.trans hcreate
  obtain ⟨-, -, rfl, -⟩ := create_ok hcreate
  obtain ⟨_, hsame, hcodec, hblockSize, hrawBytes⟩ := totals_of_close hw hcalls
  rw [hperform] at hsame
  cases hsame
  rw [hitems, Item.blocksOf_ofBytes] at hdelivered
  rw [hitems, Item.bytes_ofBytes] at hrawBytes
  obtain ⟨w₁, done, hfeed, hfed⟩ := perform_feedable hw hcalls
  obtain ⟨w₂, -, hends, -⟩ := close_feedable hfed.feedable
  have hlast : w₂.letGo = w' := by
    have h := congrArg Prod.snd hperform
    rwa [perform_append, hfeed, perform_cons, Call.operate, hends] at h
  refine ⟨_, start, w₁, w', hcreate, ?_, by rw [hends, hlast], ?_⟩
  · rw [writePieces_feedable hw, hfeed]
  exact
    { contents := hdelivered.contents
      codec := hcodec
      blockSize := hblockSize
      blocks := by rw [hdelivered.blocks, Bytes.length_chunks hpos]
      rawBytes := hrawBytes.trans (Nat.zero_add _) }

end Writer

namespace Command

variable {libs : Libraries} {disk disk' : Disk} {stdin : Bytes} {input output path name : String}
  {level : Int} {blockSize : Nat} {codec : Codec} {source : Input} {target : Target}
  {bytes stream : Bytes} {pack : Bytes → Bytes}

/-! ### Writing an input -/

/-- A new writer takes all of an input and is closed without a failure. -/
theorem writeInput_whole (hpos : 0 < blockSize) (hmax : blockSize ≤ maxBlockSize)
    (hpacks : codec.Packs blockSize pack) (path : String) (bytes : Bytes) :
    ∃ w start w', Writer.create .unlimited codec blockSize = (.ok w, start) ∧
      writeInput w path (.ok bytes) = (.ok (some (compressSummary w')), w') ∧
      w'.Holds codec blockSize pack bytes := by
  obtain ⟨w, start, w₁, w', hcreate, hpieces, hclose, hholds⟩ :=
    Writer.copy_holds hpos hmax hpacks [bytes]
  rw [List.flatten_singleton] at hholds
  obtain ⟨_, _, hcreate₁, hw, -⟩ :=
    Writer.create_feedable Sink.neverFails_unlimited hpos hmax hpacks
  cases hcreate₁.symm.trans hcreate
  obtain ⟨w₂, done, hwrite, -⟩ := Writer.write_feedable hw bytes
  rw [Writer.writePieces_feedable hw, List.map_singleton, Writer.perform_write, hwrite] at hpieces
  cases hpieces
  have hclose : w₂.close = (.ok (), w') := hclose
  exact ⟨_, start, w', hcreate, by simp only [writeInput, hwrite, hclose], hholds⟩

/-! ### Reading a stream -/

/-- The codec of a reader is the one that the header names. -/
theorem codec_openBundled {r : Reader} (h : Reader.openBundled (.ofBytes bytes) libs = .ok r) :
    Codec.ofId (Reader.codecIdOf bytes) libs = .ok r.codec := by
  have hheader := Reader.header_openBundled h
  unfold Reader.openBundled at h
  split at h
  · cases h
  split at h
  · cases h
  next hcodec =>
  unfold Reader.ofParts at h
  split at h
  · cases h
  · cases h
    rw [← hcodec]
    exact congrArg (fun header : Header => Codec.ofId header.codecId libs) hheader.symm

/-- The codec that is found by an id has the name of the one that was chosen. -/
theorem name_ofId {found : Codec} (hcodec : Codec.Bundled libs codec)
    (hfound : Codec.ofId codec.id libs = .ok found) : found.name = codec.name := by
  cases hcodec with
  | passthrough | zstd | lz4 =>
    cases hfound
    rfl

/-- What a compression has written is copied in full. -/
theorem copied_framed (hcodec : Codec.Bundled libs codec) (hpos : 0 < blockSize)
    (hrestores : codec.Restores blockSize pack (Codec.payloadLimit codec.id)
      (Payload.block? (Codec.body? libs codec.id))) (hid : codec.id.toNat ≤ 2) (bytes : Bytes) :
    ∃ r, Reader.openBundled (.ofBytes (framed codec.id pack (Bytes.chunks blockSize bytes))) libs =
        .ok r ∧ r.codec.name = codec.name ∧
      Copied.ofReader r = ⟨bytes, .ok ((bytes.length + blockSize - 1) / blockSize)⟩ := by
  have hblocks : ∀ block ∈ Bytes.chunks blockSize bytes, block ≠ [] ∧ block.length ≤ blockSize :=
    fun _ => Bytes.length_of_mem_chunks
  obtain ⟨r, r', hopen, hrun, -⟩ := Reader.reads_framed hid (hrestores.readable hblocks)
  obtain ⟨hfound, hending⟩ := Reader.blocks_of_nextBlocks (congrArg Prod.fst hrun)
  obtain ⟨hheld, -⟩ := Reader.openBundled_holds hopen
  obtain ⟨_, hopen₀, hzero, -⟩ :=
    Reader.openBundled_current libs hid (records pack (Bytes.chunks blockSize bytes))
  cases hopen₀.symm.trans hopen
  have hdeliverable : r.deliverable = bytes := by
    rw [Reader.deliverable, Reader.undrained, hheld, List.drop_nil, List.nil_append, hfound,
      Bytes.flatten_chunks hpos]
  have hexpected : r.expected = (bytes.length + blockSize - 1) / blockSize := by
    rw [Reader.expected, hzero, Nat.zero_add, ← Bytes.length_chunks hpos, ← hfound]
    exact (List.length_map _).symm
  refine ⟨r, hopen, name_ofId hcodec ?_, ?_⟩
  · have hnamed := (Reader.opens_current hid (records pack (Bytes.chunks blockSize bytes))).2.1
    rw [← codec_openBundled hopen, framed, hnamed]
  · simp only [ofReader_eq, hending, hdeliverable, hexpected]

/-- A stream is copied in full to any output that is not the stream itself. -/
theorem run_decompress_stream {r : Reader} {blocks : Nat}
    (hinput : Input.ofName disk stdin path = .ok source) (hstream : source.contents = .ok stream)
    (hopen : Reader.openBundled (.ofBytes stream) libs = .ok r)
    (hcopy : Copied.ofReader r = ⟨bytes, .ok blocks⟩)
    (houtput : Target.create disk output = .ok (target, disk'))
    (hother : ¬SameFile disk path output) :
    run libs disk stdin (.decompress path output) =
      target.deliver disk' bytes (.ok (some (decompressSummary r.codec blocks bytes.length))) := by
  rw [run_decompress_elsewhere hinput hstream hopen houtput hother, hcopy]

/-! ### Compressing -/

theorem bundled_ofName? (h : Codec.ofName? name level libs = some codec) :
    Codec.Bundled libs codec := by
  unfold Codec.ofName? at h
  split at h
  · cases h
    exact .passthrough
  split at h
  · cases h
    exact .zstd level
  split at h
  · cases h
    exact .lz4
  · cases h

/-- What is compressed is what the input held, but if the input is the output it was emptied. -/
theorem remaining_eq_ok (hinput : Input.ofName disk stdin input = .ok source)
    (houtput : Target.create disk output = .ok (target, disk')) :
    remaining source target = .ok bytes ↔ ∃ contents, held disk stdin input = some contents ∧
      (SameFile disk input output → bytes = []) ∧
      (¬SameFile disk input output → bytes = contents) := by
  have hsame := sameFile_iff hinput houtput
  by_cases h : SameFile disk input output
  · obtain ⟨contents, hheld⟩ := h.held stdin
    rw [remaining, if_pos (hsame.1 h)]
    simp [h, hheld, eq_comm]
  · rw [remaining, if_neg (hsame.not.1 h), held_eq hinput]
    cases source.contents <;> simp [h, Except.toOption, eq_comm]

theorem codecOf_eq_ok :
    codecOf libs name level = .ok codec ↔ Codec.ofName? name level libs = some codec := by
  unfold codecOf
  cases Codec.ofName? name level libs <;> simp

/-- Whether a compression has all it needs. -/
structure Compressible (libs : Libraries) (disk : Disk) (stdin : Bytes)
    (input output name : String) (level : Int) (blockSize : Nat) : Prop where
  codec : (Codec.ofName? name level libs).isSome
  input : (held disk stdin input).isSome
  output : output = "-" ∨ ∃ location, disk.fileAt output = .ok location
  positive : 0 < blockSize
  bounded : blockSize ≤ maxBlockSize

/-- A compression that succeeds had all it needs. -/
theorem compressible_of_success
    (h : exitCode (run libs disk stdin (.compress input output name level blockSize)).result = 0) :
    Compressible libs disk stdin input output name level blockSize := by
  have hfails : ∀ c : Complaint, exitCode (.error c : Except Complaint (Option Summary)) ≠ 0 :=
    fun _ => by simp [exitCode]
  simp only [run, runCompress] at h
  split at h
  · exact absurd h (hfails _)
  next codec hcodec =>
  split at h
  · exact absurd h (hfails _)
  next source hinput =>
  split at h
  · exact absurd h (hfails _)
  next target disk' houtput =>
  split at h
  · rw [Target.result_deliver] at h
    exact absurd h (hfails _)
  next w start hcreate =>
  obtain ⟨hpos, hmax, -⟩ := Writer.create_ok hcreate
  rw [Target.result_deliver] at h
  cases hremaining : remaining source target with
  | error f =>
    rw [hremaining] at h
    exact absurd h (hfails _)
  | ok bytes =>
    obtain ⟨contents, hheld, -⟩ := (remaining_eq_ok hinput houtput).1 hremaining
    exact
      { codec := by rw [codecOf_eq_ok.1 hcodec]; rfl
        input := by rw [hheld]; rfl
        output := Target.exists_create.1 ⟨_, _, houtput⟩
        positive := hpos
        bounded := hmax }

/-- A compression that has all it needs delivers the stream of what it has read. -/
theorem run_compress (hcodec : Codec.ofName? name level libs = some codec)
    (hinput : Input.ofName disk stdin input = .ok source)
    (houtput : Target.create disk output = .ok (target, disk'))
    (hbytes : remaining source target = .ok bytes) (hpos : 0 < blockSize)
    (hmax : blockSize ≤ maxBlockSize) (hpacks : codec.Packs blockSize pack) :
    ∃ w : Writer, w.Holds codec blockSize pack bytes ∧
      run libs disk stdin (.compress input output name level blockSize) =
        target.deliver disk' (framed codec.id pack (Bytes.chunks blockSize bytes))
          (.ok (some (compressSummary w))) := by
  obtain ⟨w, start, w', hcreate, hwrite, hholds⟩ := writeInput_whole hpos hmax hpacks input bytes
  refine ⟨w', hholds, ?_⟩
  simp only [run, runCompress, codecOf_eq_ok.2 hcodec, hinput, houtput, hcreate, hbytes, hwrite,
    hholds.contents]

/-! ### There and back -/

/-- What a name stands for is a stream that is decompressed to some bytes, whichever output is named
but the stream itself. -/
structure Decompresses (libs : Libraries) (disk : Disk) (stdin : Bytes) (path : String)
    (codec : Codec) (raw : Bytes) (blocks : Nat) : Prop where
  toStandard : run libs disk stdin (.decompress path "-") =
    { disk, output := raw, result := .ok (some (decompressSummary codec blocks raw.length)) }
  toFile : ∀ output place, output ≠ "-" → disk.fileAt output = .ok place →
    ¬SameFile disk path output → run libs disk stdin (.decompress path output) =
      { disk := disk.put place raw
        result := .ok (some (decompressSummary codec blocks raw.length)) }

/-- A stream that is copied in full is decompressed. -/
theorem decompresses_of_copied {r : Reader} {blocks : Nat}
    (hinput : Input.ofName disk stdin path = .ok source) (hstream : source.contents = .ok stream)
    (hopen : Reader.openBundled (.ofBytes stream) libs = .ok r) (hname : r.codec.name = codec.name)
    (hcopy : Copied.ofReader r = ⟨bytes, .ok blocks⟩) :
    Decompresses libs disk stdin path codec bytes blocks := by
  have hsummary : decompressSummary r.codec blocks bytes.length =
      decompressSummary codec blocks bytes.length := by simp only [decompressSummary, hname]
  constructor
  · have houtput : Target.create disk "-" = .ok (⟨none⟩, disk) :=
      Target.create_eq_ok.2 (.inl ⟨rfl, rfl, rfl⟩)
    rw [run_decompress_stream hinput hstream hopen hcopy houtput (fun h => h.2.1 rfl), hsummary]
    rfl
  · intro output place hname hfile hother
    have houtput : Target.create disk output = .ok (⟨some place⟩, disk.put place []) :=
      Target.create_eq_ok.2 (.inr ⟨hname, place, hfile, rfl, rfl⟩)
    rw [run_decompress_stream hinput hstream hopen hcopy houtput hother, hsummary]
    simp only [Target.deliver, Disk.put_put]

/-- What a compression leaves behind that has put some bytes into its output: it tells how many
blocks they take, and whoever decompresses the output afterwards gets these bytes. -/
structure ComesBack (libs : Libraries) (output : String) (codec : Codec)
    (blockSize : Nat) (raw : Bytes) (compressed : Outcome) : Prop where
  told : ∃ summary, compressed.result = .ok (some summary) ∧
    summary.lines[2]? =
      some ("  blocks      : " ++ toString ((raw.length + blockSize - 1) / blockSize))
  back : ∀ later, (output = "-" → later = compressed.output) →
    Decompresses libs compressed.disk later output codec raw
      ((raw.length + blockSize - 1) / blockSize)

/-- A compression that has all it needs succeeds. -/
theorem compress_comes_back (hlibs : libs.Inverse)
    (h : Compressible libs disk stdin input output name level blockSize) :
    ∃ codec contents raw, Codec.ofName? name level libs = some codec ∧
      held disk stdin input = some contents ∧
      (¬SameFile disk input output → raw = contents) ∧ (SameFile disk input output → raw = []) ∧
      ComesBack libs output codec blockSize raw
        (run libs disk stdin (.compress input output name level blockSize)) := by
  obtain ⟨codec, hcodec⟩ := Option.isSome_iff_exists.1 h.codec
  obtain ⟨contents, hheld⟩ := Option.isSome_iff_exists.1 h.input
  obtain ⟨source, hinput⟩ := ofName_of_held hheld
  obtain ⟨target, disk', houtput⟩ := Target.exists_create.2 h.output
  obtain ⟨raw, hsame, hother⟩ : ∃ raw, (SameFile disk input output → raw = []) ∧
      (¬SameFile disk input output → raw = contents) := by
    by_cases hfile : SameFile disk input output
    · exact ⟨[], fun _ => rfl, fun hnot => absurd hfile hnot⟩
    · exact ⟨contents, fun hsame => absurd hsame hfile, fun _ => rfl⟩
  have hread := (remaining_eq_ok hinput houtput).2 ⟨contents, hheld, hsame, hother⟩
  have hbundled := bundled_ofName? hcodec
  obtain ⟨hid, pack, hrestores⟩ := Codec.restores_bundled hlibs hbundled h.bounded
  obtain ⟨w, hholds, hrun⟩ :=
    run_compress hcodec hinput houtput hread h.positive h.bounded hrestores.toPacks
  obtain ⟨r, hopen, hname, hcopy⟩ := copied_framed hbundled h.positive hrestores hid raw
  refine ⟨codec, contents, raw, hcodec, hheld, hother, hsame, ?_⟩
  rw [hrun]
  refine ⟨⟨compressSummary w, Target.result_deliver .., ?_⟩, fun later hlater => ?_⟩
  · rw [← hholds.blocks]
    rfl
  · obtain ⟨found, hfound, hstream⟩ := ofName_deliver houtput _ _ hlater
    exact decompresses_of_copied hfound hstream hopen hname hcopy

/-- With libraries that undo what they do: a compression succeeds if and only if its codec is known,
its input can be read, its output can be made and its block size is in bounds. What it has read is
what the input held, or nothing if the output is the same file and so was emptied before; and just
this comes back. Two paths name the same file if they are resolved to the same location, through
whichever links. -/
theorem compressed_contents_come_back {libs : Libraries} (hlibs : libs.Inverse) (disk : Disk)
    (stdin : Bytes) (input output name : String) (level : Int) (blockSize : Nat) :
    ∃ compressed, run libs disk stdin (.compress input output name level blockSize) = compressed ∧
      (exitCode compressed.result = 0 ↔
        Compressible libs disk stdin input output name level blockSize) ∧
      (exitCode compressed.result = 0 → ∃ codec contents raw,
        Codec.ofName? name level libs = some codec ∧ held disk stdin input = some contents ∧
        (¬SameFile disk input output → raw = contents) ∧
        (SameFile disk input output → raw = []) ∧
        ComesBack libs output codec blockSize raw compressed) := by
  refine ⟨_, rfl, ⟨compressible_of_success, fun h => ?_⟩, fun hsuccess =>
    compress_comes_back hlibs (compressible_of_success hsuccess)⟩
  obtain ⟨_, _, _, -, -, -, -, hback⟩ := compress_comes_back hlibs h
  obtain ⟨summary, hresult, -⟩ := hback.told
  rw [hresult]
  rfl

/-- Five bytes in blocks of two. -/
theorem compressed_contents_come_back_five_bytes :
    let disk := (Disk.empty []).put ["in"] [1, 2, 3, 4, 5]
    ∃ compressed decompressed,
      run .plain disk [] (.compress "in" "out" "passthrough" 3 2) = compressed ∧
      run .plain compressed.disk [] (.decompress "out" "-") = decompressed ∧
      exitCode compressed.result = 0 ∧ exitCode decompressed.result = 0 ∧
      (∃ summary, compressed.result = .ok (some summary) ∧
        summary.lines[2]? = some "  blocks      : 3") ∧
      decompressed.output = [1, 2, 3, 4, 5] := by
  intro disk
  have hlookup : disk.lookup "in" = .ok (["in"], .file [1, 2, 3, 4, 5]) := by cbv
  have hfile : disk.fileAt "out" = .ok ["out"] := by cbv
  have hinput : Input.ofName disk [] "in" = .ok ⟨some ["in"], .ok [1, 2, 3, 4, 5]⟩ :=
    input_ofName (by decide) hlookup
  have hother : ¬SameFile disk "in" "out" := by
    rintro ⟨-, -, location, entry, hfound, hplace⟩
    cases hlookup.symm.trans hfound
    have hplaces := Except.ok.inj (hfile.symm.trans hplace)
    exact absurd hplaces (by decide)
  obtain ⟨compressed, hrun, hsuccess, hback⟩ :=
    compressed_contents_come_back Libraries.plain_inverse disk [] "in" "out" "passthrough" 3 2
  have hzero : exitCode compressed.result = 0 := hsuccess.2
    { codec := rfl
      input := by rw [held_eq hinput]; rfl
      output := .inr ⟨_, hfile⟩
      positive := by decide
      bounded := by decide }
  obtain ⟨codec, contents, raw, -, hheld, hraw, -, htold, hagain⟩ := hback hzero
  rw [held_eq hinput] at hheld
  cases hheld
  cases hraw hother
  have hstandard := (hagain [] fun h => absurd h (by decide)).toStandard
  exact ⟨compressed, _, hrun, hstandard, hzero, rfl, htold, rfl⟩

/-- A file that is compressed onto itself is lost, and nothing says so. -/
theorem compression_onto_itself_loses_all :
    let disk := (Disk.empty []).put ["f"] [1, 2, 3]
    ∃ compressed decompressed,
      held disk [] "f" = some [1, 2, 3] ∧
      run .plain disk [] (.compress "f" "f" "passthrough" 3 4) = compressed ∧
      run .plain compressed.disk [] (.decompress "f" "-") = decompressed ∧
      exitCode compressed.result = 0 ∧ exitCode decompressed.result = 0 ∧
      decompressed.output = [] := by
  intro disk
  have hlookup : disk.lookup "f" = .ok (["f"], .file [1, 2, 3]) := by cbv
  have hfile : disk.fileAt "f" = .ok ["f"] := by cbv
  have hinput : Input.ofName disk [] "f" = .ok ⟨some ["f"], .ok [1, 2, 3]⟩ :=
    input_ofName (by decide) hlookup
  have hsame : SameFile disk "f" "f" := ⟨by decide, by decide, _, _, hlookup, hfile⟩
  have hheld : held disk [] "f" = some [1, 2, 3] := held_eq hinput
  have hneeds : Compressible .plain disk [] "f" "f" "passthrough" 3 4 :=
    { codec := rfl
      input := by rw [hheld]; rfl
      output := .inr ⟨_, hfile⟩
      positive := by decide
      bounded := by decide }
  obtain ⟨codec, contents, raw, -, -, -, hraw, ⟨summary, hresult, -⟩, hback⟩ :=
    compress_comes_back Libraries.plain_inverse hneeds
  cases hraw hsame
  have hstandard := (hback [] fun h => absurd h (by decide)).toStandard
  exact ⟨_, _, hheld, rfl, hstandard, by rw [hresult]; rfl, rfl, rfl⟩

end Command

end FramedStream
