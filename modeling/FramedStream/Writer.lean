import FramedStream.Codec
import FramedStream.Element
import FramedStream.Header

/-!
# The writer

A writer gathers raw bytes until there are `blockSize` of them, then compresses these as one block
and emits the block to its sink: the length of the payload, then the payload. An empty block is
never emitted.

* `create` writes the header;
* `writeBytes`, `writeByte`, `writeElements` gather; `writeBytes` emits a block as soon as it is
  complete, `writeByte` when the next byte arrives;
* `flush` emits what is pending and flushes the sink; `close` then lets go of the sink, `finish`
  hands it back, and `drop` is what happens to a writer that is simply given up.

Every operation gives a result and the writer after it, also when it fails. When the sink fails
the writer is `broken`: it never touches the sink again, because nobody knows what arrived. When
the codec fails the block stays pending and the writer stays usable.
-/

namespace FramedStream

/-- What a writer is good for. -/
inductive Phase
  | accepting
  | broken
  | closed
  deriving DecidableEq, Repr

/-- The totals of a writer: blocks emitted, raw bytes accepted, and bytes written to the sink. -/
structure Stats where
  blocks : Nat := 0
  rawBytes : Nat := 0
  framedBytes : Nat := 0
  deriving DecidableEq, Repr

/-- A writer of a stream. -/
structure Writer where
  codec : Codec
  blockSize : Nat
  /-- The raw bytes that wait for the next block. -/
  pending : Bytes
  /-- The room for compressed blocks, with what the last one left in it. -/
  scratch : Buffer
  /-- The sink, also when the writer has let go of it. -/
  sink : Sink
  phase : Phase
  stats : Stats
  /-- The blocks given to the codec so far, each attempt counted. -/
  compressCalls : Nat

namespace Writer

/-- A writer that has sent nothing but the header. -/
def fresh (sink : Sink) (codec : Codec) (blockSize : Nat) : Writer where
  codec := codec
  blockSize := blockSize
  pending := []
  scratch := {}
  sink := sink
  phase := .accepting
  stats := { framedBytes := headerSize }
  compressCalls := 0

/-- Start a stream: the header goes to the sink at once. The block size is looked at before the
sink is. -/
def create (sink : Sink) (codec : Codec) (blockSize : Nat) : Except Error Writer × Sink :=
  if blockSize = 0 ∨ maxBlockSize < blockSize then
    (.error (.config (.blockSize blockSize)), sink)
  else
    match (Header.current codec.id).writeTo sink with
    | (.error e, sink) => (.error e, sink)
    | (.ok (), sink) => (.ok (fresh sink codec blockSize), sink)

theorem create_eq {blockSize : Nat} (hpos : 0 < blockSize) (hmax : blockSize ≤ maxBlockSize)
    (sink : Sink) (codec : Codec) :
    create sink codec blockSize =
      match sink.writeAll (Header.current codec.id).encode with
      | (.ok (), sink) => (.ok (fresh sink codec blockSize), sink)
      | (.error failure, sink) => (.error (.io failure), sink) := by
  have hsize : ¬(blockSize = 0 ∨ maxBlockSize < blockSize) := by omega
  rw [create, if_neg hsize, Header.writeTo]
  rcases sink.writeAll (Header.current codec.id).encode with ⟨_ | _, sink⟩ <;> rfl

/-- The raw bytes that wait for the next block. -/
def buffered (w : Writer) : Nat := w.pending.length

/-- The room for one compressed block. -/
def room (w : Writer) : Nat := w.codec.maxCompressedLength w.blockSize

/-- The sink, unless the writer has let go of it. -/
def sink? (w : Writer) : Option Sink :=
  if w.phase = .closed then none else some w.sink

/-- Why a writer accepts nothing, if it does not. -/
def unusable? (w : Writer) : Option Error :=
  match w.phase with
  | .accepting => none
  | .broken => some .broken
  | .closed => some .closed

/-- The writer with more bytes pending. -/
def accept (w : Writer) (bytes : Bytes) : Writer :=
  { w with
    pending := w.pending ++ bytes
    stats := { w.stats with rawBytes := w.stats.rawBytes + bytes.length } }

/-- The writer after its sink has failed. -/
def breakOff (w : Writer) (sink : Sink) : Writer := { w with sink, phase := .broken }

/-- The writer after its pending bytes went to the sink as the record of a payload. -/
def emitted (w : Writer) (sink : Sink) (payload : Bytes) : Writer :=
  { w with
    sink
    pending := []
    stats := { w.stats with
      blocks := w.stats.blocks + 1
      framedBytes := w.stats.framedBytes + (blockLengthSize + payload.length) } }

/-- Write the record of a compressed block to the sink. -/
def putRecord (w : Writer) (payload : Bytes) : Except Error Unit × Writer :=
  match w.sink.writeRecord payload with
  | (.ok (), sink) => (.ok (), w.emitted sink payload)
  | (.error failure, sink) => (.error (.io failure), w.breakOff sink)

/-- The size that a codec reports is refused if it does not fit the room or the length field. -/
def oversized (w : Writer) (size : Nat) : Bool :=
  w.room < size || 2 ^ 32 ≤ size

theorem oversized_iff {w : Writer} {size : Nat} :
    w.oversized size = true ↔ w.room < size ∨ 2 ^ 32 ≤ size := by
  simp [oversized]

/-- The writer after a call of its codec, with what is now in the room for compressed blocks. -/
def tried (w : Writer) (scratch : Buffer) : Writer :=
  { w with scratch, compressCalls := w.compressCalls + 1 }

@[simp] theorem tried_sink (w : Writer) (scratch : Buffer) : (w.tried scratch).sink = w.sink := rfl

/-- Compress the pending bytes to a payload. -/
def pack (w : Writer) : Except Error Bytes × Writer :=
  match w.codec.compress w.compressCalls w.pending w.room with
  | .error e => (.error e, w.tried w.scratch)
  | .ok output =>
      let scratch := output.into w.scratch w.room w.room
      if w.oversized output.reported then
        (.error (.codec w.codec.name
          s!"compressed size {output.reported} exceeds the declared bound {w.room}"),
          w.tried scratch)
      else (.ok (scratch.take output.reported), w.tried scratch)

/-- Emit the pending bytes as one block, if there are any. -/
def emit (w : Writer) : Except Error Unit × Writer :=
  if w.pending.isEmpty then (.ok (), w)
  else
    match w.pack with
    | (.error e, w) => (.error e, w)
    | (.ok payload, w) => w.putRecord payload

/-- Complete and emit `count` blocks from the bytes, then gather the rest of them. -/
def gather : (count : Nat) → Writer → Bytes → Except Error Unit × Writer
  | 0, w, bytes => (.ok (), w.accept bytes)
  | count + 1, w, bytes =>
      let free := w.blockSize - w.pending.length
      match (w.accept (bytes.take free)).emit with
      | (.ok (), w) => gather count w (bytes.drop free)
      | (.error e, w) => (.error e, w)

/-- Append all the bytes. They complete one block for each `blockSize` bytes pending or given;
without bytes nothing happens, not even to a block that is already complete. -/
def append (w : Writer) (bytes : Bytes) : Except Error Unit × Writer :=
  if bytes.isEmpty then (.ok (), w)
  else gather ((w.pending.length + bytes.length) / w.blockSize) w bytes

/-- Append `length` bytes of a buffer from `offset`. -/
def writeBytes (w : Writer) (buffer : Bytes) (offset length : Nat) :
    Except Error Unit × Writer :=
  match w.unusable? with
  | some e => (.error e, w)
  | none =>
      if buffer.length < offset + length then
        (.error (.config (.byteRange offset length buffer.length)), w)
      else w.append ((buffer.drop offset).take length)

/-- Append one byte. A block that is complete is emitted first. -/
def writeByte (w : Writer) (byte : UInt8) : Except Error Unit × Writer :=
  match w.unusable? with
  | some e => (.error e, w)
  | none =>
      if w.pending.length = w.blockSize then
        match w.emit with
        | (.ok (), w) => (.ok (), w.accept [byte])
        | (.error e, w) => (.error e, w)
      else (.ok (), w.accept [byte])

/-- Append `count` elements of an array from `offset`. The range is looked at first, whatever the
writer is good for. -/
def writeElements (w : Writer) (t : ElementType) (array : List t.Word) (offset count : Nat) :
    Except Error Unit × Writer :=
  match t.byteRange? array.length offset count with
  | none => (.error (.config (.elementRange offset count array.length)), w)
  | some (byteOffset, byteLength) => w.writeBytes (t.bytesOf array) byteOffset byteLength

/-- Append all elements of an array. -/
def writeAllElements (w : Writer) (t : ElementType) (array : List t.Word) :
    Except Error Unit × Writer :=
  w.writeElements t array 0 array.length

/-- Append a whole buffer as I/O. The count is that of the buffer. -/
def write (w : Writer) (buffer : Bytes) : Except IoFailure Nat × Writer :=
  match w.writeBytes buffer 0 buffer.length with
  | (.ok (), w) => (.ok buffer.length, w)
  | (.error e, w) => (.error e.toIo, w)

/-- Append a whole buffer as I/O, in as many writes as it takes. An empty one is not even looked
at. A write that is interrupted, which only a codec can say of one, is made again with the whole
buffer, whatever of it was accepted; `none` is a writer that is interrupted for ever. -/
def writeAll (w : Writer) (buffer : Bytes) : Option (Except IoFailure Unit × Writer) :=
  if buffer.isEmpty then some (.ok (), w)
  else
    match w.write buffer with
    | (.ok _, w) => some (.ok (), w)
    | (.error failure, w) =>
        if failure.kind = .interrupted then w |>.writeAll buffer else some (.error failure, w)
partial_fixpoint

/-- Pass a flush on to the sink. -/
def flushSink (w : Writer) : Except Error Unit × Writer :=
  match w.sink.flush with
  | (.ok (), sink) => (.ok (), { w with sink })
  | (.error failure, sink) => (.error (.io failure), w.breakOff sink)

/-- Emit what is pending, then flush the sink. -/
def flush (w : Writer) : Except Error Unit × Writer :=
  match w.unusable? with
  | some e => (.error e, w)
  | none =>
      match w.emit with
      | (.ok (), w) => w.flushSink
      | (.error e, w) => (.error e, w)

/-- The writer after it let go of its sink. -/
def letGo (w : Writer) : Writer := { w with phase := .closed }

/-- Flush and let go of the sink. A broken writer only lets go, a closed one has done so. -/
def close (w : Writer) : Except Error Unit × Writer :=
  match w.phase with
  | .closed => (.ok (), w)
  | .broken => (.ok (), w.letGo)
  | .accepting =>
      let (result, w) := w.flush
      (result, w.letGo)

/-- What becomes of a writer that is given up: if it still accepts, it is closed, and how that
ends is not told. -/
def drop (w : Writer) : Writer :=
  if w.phase = .accepting then w.close.2 else w

/-- Flush and hand the sink back. A writer whose flush fails is given up. -/
def finish (w : Writer) : Except Error Unit × Writer :=
  match w.flush with
  | (.ok (), w) => (.ok (), w.letGo)
  | (.error e, w) => (.error e, w.drop)

end Writer

end FramedStream
