import FramedStream.Buffer
import FramedStream.Codec
import FramedStream.Element
import FramedStream.Header

/-!
# The reader

A reader takes one record after another off its source and hands out what the blocks hold, either
block by block (`nextBlock`) or as one long sequence of bytes (`readBytes`, `readElements`,
`available` with `consume`).

* A source that ends between two records ends the stream. Anywhere else it is damage.
* A block has to declare between 1 and `maxBlockSize` raw bytes and to produce as many.
* There is no checksum: damage is noticed only when a length, a size or the codec gives it away.
* After a failure that concerns the stream the reader is broken. It delivers nothing more and
  leaves its source alone.

Every operation gives a result and the reader after it. `source_fetch` says that decoding a
block takes bytes off the source, which is why reading on comes to an end.
-/

namespace FramedStream

/-- A reader of a stream. -/
structure Reader where
  source : Source
  header : Header
  codec : Codec
  /-- The payload buffer: the payload read last, or what the source has left of it. -/
  buffer : Buffer
  /-- The room for raw blocks. It grows and never shrinks, and keeps what was there. -/
  unpacked : Buffer
  /-- The raw bytes of the current block. -/
  block : Bytes
  /-- How many of them have been handed out. -/
  position : Nat
  blocksRead : Nat
  isBroken : Bool
  /-- The declared lengths and the decompressed blocks asked of the codec so far. -/
  lengthCalls : Nat
  decompressCalls : Nat

namespace Reader

/-- A reader of a source whose header was taken off already. -/
def ofParts (source : Source) (header : Header) (codec : Codec) : Except Error Reader :=
  if header.codecId ≠ codec.id then
    .error (.format (.otherCodec header.codecId codec.id))
  else
    .ok { source, header, codec, buffer := {}, unpacked := {}, block := [], position := 0,
          blocksRead := 0, isBroken := false, lengthCalls := 0, decompressCalls := 0 }

/-- A reader of a whole stream of a known codec. -/
def create (source : Source) (codec : Codec) : Except Error Reader :=
  match Header.readFrom source with
  | (.error e, _) => .error e
  | (.ok header, source) => ofParts source header codec

/-- The longest payload that the reader takes. -/
def maxPayload (r : Reader) : Nat := r.codec.maxCompressedLength maxBlockSize

/-- The raw bytes of the current block that have not been handed out. -/
def undrained (r : Reader) : Bytes := r.block.drop r.position

/-- What is in the payload buffer. -/
def payload (r : Reader) : Bytes := r.buffer.toList

/-- Take the length of the next payload off the source; `none` if the source has ended. -/
def fetchLength (r : Reader) : Except Error (Option Nat) × Reader :=
  let filled := r.source.fill blockLengthSize
  let result : Except Error (Option Nat) :=
    match filled.stop with
    | .full => .ok (some (Bytes.toNatBE filled.bytes))
    | .ended =>
        if filled.bytes.isEmpty then .ok none
        else .error (.format (.tornLength filled.bytes.length))
    | .failed failure => .error (.io failure)
  (result, { r with source := filled.source })

/-- Take a payload of known length off the source. -/
def fetchPayload (r : Reader) (length : Nat) : Except Error Unit × Reader :=
  if length = 0 then (.error (.format (.zeroLength r.blocksRead)), r)
  else if r.maxPayload < length then
    (.error (.format (.longPayload r.blocksRead length r.maxPayload)), r)
  else
    let filled := r.source.fill length
    let torn : Except Error Unit := .error (.format (.tornPayload r.blocksRead length))
    let result : Except Error Unit :=
      match filled.stop with
      | .full => .ok ()
      | .ended => torn
      | .failed failure => if failure.kind = .unexpectedEof then torn else .error (.io failure)
    (result, { r with
      source := filled.source
      buffer := r.buffer.refill length (r.source.front length filled.bytes) })

/-- The reader after it asked its codec for a declared length. -/
def asked (r : Reader) : Reader := { r with lengthCalls := r.lengthCalls + 1 }

/-- The reader after its codec decompressed into the room for raw blocks, or failed to. -/
def tried (r : Reader) (unpacked : Buffer) : Reader :=
  { r.asked with unpacked, decompressCalls := r.decompressCalls + 1 }

/-- Decompress the payload that was fetched. -/
def unpack (r : Reader) : Except Error Bytes × Reader :=
  match r.codec.declaredLength r.lengthCalls r.payload with
  | .error e => (.error e, r.asked)
  | .ok size =>
      if size = 0 ∨ maxBlockSize < size then
        (.error (.format (.declaredSize r.blocksRead size)), r.asked)
      else
        match r.codec.decompress r.decompressCalls r.payload size with
        | .error e => (.error e, r.tried r.unpacked)
        | .ok output =>
            let unpacked := output.into r.unpacked (max size r.unpacked.size) size
            if output.reported ≠ size then
              (.error (.format (.producedSize r.blocksRead output.reported size)),
                r.tried unpacked)
            else (.ok (unpacked.take size), r.tried unpacked)

/-- Take the next record off the source and decode it; `none` if the source has ended. -/
def fetch (r : Reader) : Except Error (Option Bytes) × Reader :=
  match r.fetchLength with
  | (.error e, r) => (.error e, r)
  | (.ok none, r) => (.ok none, r)
  | (.ok (some length), r) =>
      match r.fetchPayload length with
      | (.error e, r) => (.error e, r)
      | (.ok (), r) =>
          match r.unpack with
          | (.error e, r) => (.error e, r)
          | (.ok block, r) => (.ok (some block), { r with blocksRead := r.blocksRead + 1, block })

/-- The reader without a current block. -/
def cleared (r : Reader) : Reader := { r with block := [], position := 0 }

/-- Decode the next block. What the current one still holds is given up. -/
def nextBlock (r : Reader) : Except Error (Option Bytes) × Reader :=
  if r.isBroken then (.error .broken, r)
  else
    match r.cleared.fetch with
    | (.error e, r) => (.error e, { r with isBroken := true })
    | (result, r) => (result, r)

/-- What is left of the current block, or else the next block; empty at the end of the stream. -/
def available (r : Reader) : Except Error Bytes × Reader :=
  if r.position = r.block.length then
    match r.nextBlock with
    | (.error e, r) => (.error e, r)
    | (.ok _, r) => (.ok r.undrained, r)
  else (.ok r.undrained, r)

/-- Mark the next bytes of the current block as handed out. The sum is one of 64-bit words and wraps
around; what exceeds the block stops at its end. -/
def consume (r : Reader) (count : Nat) : Reader :=
  { r with position := min ((r.position + count) % 2 ^ 64) r.block.length }

/-- Mark the next bytes of the current block as handed out where sums are checked: one that exceeds
a word is a trap, and the program ends. -/
def consume? (r : Reader) (count : Nat) : Option Reader :=
  if r.position + count < 2 ^ 64 then
    some { r with position := min (r.position + count) r.block.length }
  else none

/-- What a read hands out, how it ended, and the reader after it. -/
structure Drawn where
  bytes : Bytes
  result : Except Error Unit
  reader : Reader

/-- Read until `count` more bytes have been gathered, the stream ends, or a block fails. -/
def drawOnto (gathered : Array UInt8) (r : Reader) (count : Nat) : Drawn :=
  if hcount : count = 0 then ⟨gathered.toList, .ok (), r⟩
  else
    match r.available with
    | (.error e, r) => ⟨gathered.toList, .error e, r⟩
    | (.ok chunk, r) =>
        if hchunk : chunk = [] then ⟨gathered.toList, .ok (), r⟩
        else
          have : count - min chunk.length count < count := by
            have := List.length_pos_iff.2 hchunk
            omega
          drawOnto (gathered ++ chunk.take count)
            { r with position := r.position + min chunk.length count }
            (count - min chunk.length count)
termination_by count

/-- Read `count` bytes, or as many as there are. -/
def draw (r : Reader) (count : Nat) : Drawn :=
  drawOnto #[] r count

/-- What a read into a buffer gives: the count of what was read, the buffer and the reader. -/
structure ReadInto (α : Type) where
  result : Except Error Nat
  buffer : List α
  reader : Reader

/-- Fill `length` bytes of a buffer from `offset`. The count is short only where the stream ends;
what arrived before a failure stays in the buffer. -/
def readBytes (r : Reader) (buffer : Bytes) (offset length : Nat) : ReadInto UInt8 :=
  if buffer.length < offset + length then
    ⟨.error (.config (.byteRange offset length buffer.length)), buffer, r⟩
  else
    let drawn := r.draw length
    ⟨drawn.result.map fun _ => drawn.bytes.length,
      buffer.take offset ++ drawn.bytes ++ buffer.drop (offset + drawn.bytes.length),
      drawn.reader⟩

/-- Fill `count` elements of an array from `offset`. A stream that ends inside an element is
damaged. -/
def readElements (r : Reader) (t : ElementType) (array : List t.Word) (offset count : Nat) :
    ReadInto t.Word :=
  match t.byteRange? array.length offset count with
  | none => ⟨.error (.config (.elementRange offset count array.length)), array, r⟩
  | some (byteOffset, byteLength) =>
      let read := r.readBytes (t.bytesOf array) byteOffset byteLength
      let result :=
        match read.result with
        | .error e => .error e
        | .ok got =>
            if got % t.width ≠ 0 then .error (.format (.tornElement t.width))
            else .ok (got / t.width)
      ⟨result, t.wordsOf array.length read.buffer, read.reader⟩

/-! ### Decoding uses the source up -/

theorem source_fetchLength (r : Reader) :
    r.fetchLength.2.source = (r.source.fill blockLengthSize).source := rfl

theorem rest_fill_le (s : Source) (count : Nat) :
    (s.fill count).source.rest.length ≤ s.rest.length := by
  have h := congrArg List.length (s.fill_split count)
  rw [List.length_append] at h
  omega

theorem rest_fetchPayload_le (r : Reader) (length : Nat) :
    (r.fetchPayload length).2.source.rest.length ≤ r.source.rest.length := by
  unfold fetchPayload
  split
  · exact Nat.le_refl _
  split
  · exact Nat.le_refl _
  · exact rest_fill_le _ _

/-- Unpacking only asks the codec, and fills the room for raw blocks. -/
theorem unpack_snd (r : Reader) :
    r.unpack.2 = r.asked ∨ ∃ unpacked, r.unpack.2 = r.tried unpacked := by
  unfold unpack
  split
  · exact .inl rfl
  split
  · exact .inl rfl
  split
  · exact .inr ⟨_, rfl⟩
  simp only
  split
  · exact .inr ⟨_, rfl⟩
  · exact .inr ⟨_, rfl⟩

@[simp] theorem source_unpack (r : Reader) : r.unpack.2.source = r.source := by
  rcases r.unpack_snd with h | ⟨unpacked, h⟩
  · rw [h, asked]
  · rw [h, tried, asked]

/-- The reader after it has tried to take a payload of a given length, behind the length itself. -/
def loaded (r : Reader) (length : Nat) : Reader := (r.fetchLength.2.fetchPayload length).2

/-- How decoding the next record goes. It needs a length, a payload and a block, and stops where one
of them is not to be had. -/
inductive FetchSteps (r : Reader) : Except Error (Option Bytes) × Reader → Prop
  | noLength {e : Error} (length : r.fetchLength.1 = .error e) :
      FetchSteps r (.error e, r.fetchLength.2)
  | ended (length : r.fetchLength.1 = .ok none) : FetchSteps r (.ok none, r.fetchLength.2)
  | noPayload {size : Nat} {e : Error} (length : r.fetchLength.1 = .ok (some size))
      (payload : (r.fetchLength.2.fetchPayload size).1 = .error e) :
      FetchSteps r (.error e, r.loaded size)
  | noBlock {size : Nat} {e : Error} (length : r.fetchLength.1 = .ok (some size))
      (payload : (r.fetchLength.2.fetchPayload size).1 = .ok ())
      (unpack : (r.loaded size).unpack.1 = .error e) :
      FetchSteps r (.error e, (r.loaded size).unpack.2)
  | got {size : Nat} {block : Bytes} (length : r.fetchLength.1 = .ok (some size))
      (payload : (r.fetchLength.2.fetchPayload size).1 = .ok ())
      (unpack : (r.loaded size).unpack.1 = .ok block) :
      FetchSteps r (.ok (some block),
        let r' := (r.loaded size).unpack.2
        { r' with blocksRead := r'.blocksRead + 1, block })

theorem fetchSteps (r : Reader) : FetchSteps r r.fetch := by
  unfold fetch
  split
  · next h =>
    obtain rfl : r.fetchLength.2 = _ := congrArg Prod.snd h
    exact .noLength (congrArg Prod.fst h)
  · next h =>
    obtain rfl : r.fetchLength.2 = _ := congrArg Prod.snd h
    exact .ended (congrArg Prod.fst h)
  next size r₁ h =>
  have hlength : r.fetchLength.1 = .ok (some size) := congrArg Prod.fst h
  obtain rfl : r.fetchLength.2 = r₁ := congrArg Prod.snd h
  split
  · next h =>
    obtain rfl : r.loaded size = _ := congrArg Prod.snd h
    exact .noPayload hlength (congrArg Prod.fst h)
  next r₂ h =>
  have hpayload : (r.fetchLength.2.fetchPayload size).1 = .ok () := congrArg Prod.fst h
  obtain rfl : r.loaded size = r₂ := congrArg Prod.snd h
  split
  · next h =>
    obtain rfl : (r.loaded size).unpack.2 = _ := congrArg Prod.snd h
    exact .noBlock hlength hpayload (congrArg Prod.fst h)
  · next h =>
    obtain rfl : (r.loaded size).unpack.2 = _ := congrArg Prod.snd h
    exact .got hlength hpayload (congrArg Prod.fst h)

theorem rest_fetchLength_le (r : Reader) :
    r.fetchLength.2.source.rest.length ≤ r.source.rest.length :=
  rest_fill_le _ _

/-- A length that was taken is off the source. -/
theorem rest_fetchLength_lt (r : Reader) {size : Nat} (h : r.fetchLength.1 = .ok (some size)) :
    r.fetchLength.2.source.rest.length < r.source.rest.length := by
  have hfull : (r.source.fill blockLengthSize).stop = .full := by
    simp only [fetchLength] at h
    split at h
    · assumption
    · split at h <;> cases h
    · cases h
  have hgot := r.source.length_fill_full _ hfull
  have hsplit := congrArg List.length (r.source.fill_split blockLengthSize)
  rw [List.length_append, hgot] at hsplit
  rw [source_fetchLength]
  simp only [blockLengthSize] at hsplit ⊢
  omega

theorem rest_loaded_le (r : Reader) (size : Nat) :
    (r.loaded size).source.rest.length ≤ r.fetchLength.2.source.rest.length :=
  rest_fetchPayload_le _ _

/-- Decoding never puts anything back. -/
theorem rest_fetch_le (r : Reader) :
    r.fetch.2.source.rest.length ≤ r.source.rest.length := by
  have hlength := rest_fetchLength_le r
  have hsteps := fetchSteps r
  generalize r.fetch = outcome at hsteps
  cases hsteps with
  | noLength | ended => exact hlength
  | @noPayload size => exact Nat.le_trans (rest_loaded_le r size) hlength
  | @noBlock size | @got size =>
    rw [source_unpack]
    exact Nat.le_trans (rest_loaded_le r size) hlength

/-- A decoded block was taken off the source. -/
theorem source_fetch (r : Reader) {block : Bytes} {r' : Reader}
    (h : r.fetch = (.ok (some block), r')) :
    r'.source.rest.length < r.source.rest.length := by
  have hsteps := fetchSteps r
  rw [h] at hsteps
  cases hsteps with
  | @got size _ length =>
    rw [source_unpack]
    exact Nat.lt_of_le_of_lt (rest_loaded_le r size) (rest_fetchLength_lt r length)

/-- How asking for the next block goes. A broken reader refuses, and any other decodes a record. -/
inductive NextSteps (r : Reader) : Except Error (Option Bytes) × Reader → Prop
  | refused (broken : r.isBroken = true) : NextSteps r (.error .broken, r)
  | failed {e : Error} {r' : Reader} (unbroken : r.isBroken = false)
      (fetch : r.cleared.fetch = (.error e, r')) :
      NextSteps r (.error e, { r' with isBroken := true })
  | ended {r' : Reader} (unbroken : r.isBroken = false)
      (fetch : r.cleared.fetch = (.ok none, r')) : NextSteps r (.ok none, r')
  | got {block : Bytes} {r' : Reader} (unbroken : r.isBroken = false)
      (fetch : r.cleared.fetch = (.ok (some block), r')) : NextSteps r (.ok (some block), r')

theorem nextSteps (r : Reader) : NextSteps r r.nextBlock := by
  unfold nextBlock
  split
  · next hbroken => exact .refused hbroken
  next hbroken =>
  have hunbroken : r.isBroken = false := by simpa using hbroken
  rcases hfetch : r.cleared.fetch with ⟨e | _ | block, r'⟩
  · exact .failed hunbroken hfetch
  · exact .ended hunbroken hfetch
  · exact .got hunbroken hfetch

/-- A block that `nextBlock` gives was taken off the source. -/
theorem source_nextBlock (r : Reader) {block : Bytes} {r' : Reader}
    (h : r.nextBlock = (.ok (some block), r')) :
    r'.source.rest.length < r.source.rest.length := by
  have hsteps := nextSteps r
  rw [h] at hsteps
  cases hsteps with
  | got _ fetch => exact source_fetch r.cleared fetch

end Reader

end FramedStream
