import FramedStream.Command.Endpoint

/-!
# Copying what a stream holds

A stream is copied to its output in chunks, each of them one read. A read that fails part way
loses what it had gathered, so if the stream turns out damaged only whole chunks have arrived.

If the output is the very file that the stream is read from, the file was emptied after the first
`readAhead` bytes of it had been read. From then on the reader sees what the copy has written
beyond that place. `Copied.inPlace` is this copy; it could go on for ever, so it ends at the size
that no file exceeds.
-/

namespace FramedStream

namespace Command

/-- The bytes of a chunk. -/
def chunkSize : Nat := 8192

/-- The bytes of a file that are read before anything is asked for. -/
def readAhead : Nat := 8192

/-- The chunks of the largest file. -/
def maxChunks : Nat := 2 ^ 50

/-- A copy: what arrived, and the blocks read or why it stopped. -/
structure Copied where
  bytes : Bytes
  result : Except IoFailure Nat

namespace Copied

/-- The whole chunks at the front of some bytes. -/
def wholeChunks (bytes : Bytes) : Bytes :=
  bytes.take (bytes.length / chunkSize * chunkSize)

/-- A copy of all that is left. A read that is interrupted is made again. -/
def ofReader (r : Reader) : Copied :=
  let drained := r.drainBlocks r.undrained.toArray
  match drained.result with
  | .ok () => ⟨drained.bytes, .ok drained.reader.blocksRead⟩
  | .error e => ⟨wholeChunks drained.bytes, .error e.toIo⟩

/-- A reader whose source got more bytes. -/
def feed (r : Reader) (bytes : Bytes) : Reader :=
  { r with source := { r.source with rest := r.source.rest ++ bytes } }

/-- A copy onto the file that is read, after `written` bytes, where the reader is `offset` bytes
into the file. -/
def inPlaceFrom (offset : Nat) : (chunks : Nat) → (written : Array UInt8) → Reader → Copied
  | 0, written, _ => ⟨written.toList, .error PathFailure.tooLarge.toIo⟩
  | chunks + 1, written, r =>
      match r.readRetried chunkSize with
      | (.error failure, _) => ⟨written.toList, .error failure⟩
      | (.ok bytes, r) =>
          if bytes.length < chunkSize then
            ⟨(written ++ bytes).toList, .ok r.blocksRead⟩
          else
            inPlaceFrom offset chunks (written ++ bytes)
              (feed r (bytes.drop (offset - written.size)))

/-- A copy onto the file that is read, of which the reader has taken the header. -/
def inPlace (contents : Bytes) (r : Reader) : Copied :=
  let seen := contents.take readAhead
  inPlaceFrom seen.length maxChunks #[]
    { r with source := .ofBytes (seen.drop headerSize) }

end Copied

end Command

end FramedStream
