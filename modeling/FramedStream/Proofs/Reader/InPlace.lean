import FramedStream.Proofs.Reader.Call
import FramedStream.Proofs.Reader.LengthField

/-!
# A reader in place

A reader takes each payload into one buffer and has its codec decompress into another, which grows
and never shrinks. Of this it hands out the part between two places. `Reader.InPlace` is this
reader, with a trap wherever it slices a buffer or takes a difference.

* `nextBlock?` decodes a block, `available?` is the part that is in view, `readRounds?` the loop of
  a read, and `Call.perform?` any call;
* `Mirrors` says how the buffers stand for the sequences of a `Reader`, the two places in their
  order included, and `Follows` that an operation goes through without a trap and to the same end;
* `follows_nextBlock`, `follows_readRounds` and `follows_call` are the steps, and `follows_perform`
  says that no session traps, whatever the codec reports, the source delivers and the caller asks;
* `checked?` has a trap for the sums of places and counts as well, and that is the only one which is
  ever met (`checked?_of_allFit`, `checked?_eq_none`).
-/

namespace FramedStream

namespace Reader

/-- A reader with its two buffers. -/
structure InPlace where
  source : Source
  header : Header
  codec : Codec
  compressed : Bytes
  uncompressed : Bytes
  /-- The part of the room for raw blocks that has not been handed out is from here on, -/
  pos : Nat
  /-- and ends here. -/
  len : Nat
  blocksRead : Nat
  isBroken : Bool
  lengthCalls : Nat
  decompressCalls : Nat

namespace InPlace

/-! ### Operations -/

/-- A reader of a source whose header was taken off already. -/
def ofParts (source : Source) (header : Header) (codec : Codec) : Except Error InPlace :=
  if header.codecId ≠ codec.id then
    .error (.format (.otherCodec header.codecId codec.id))
  else
    .ok { source, header, codec, compressed := [], uncompressed := [], pos := 0, len := 0,
          blocksRead := 0, isBroken := false, lengthCalls := 0, decompressCalls := 0 }

/-- The longest payload that the reader takes. -/
def maxPayload (m : InPlace) : Nat := m.codec.maxCompressedLength maxBlockSize

/-- Read the length of the next payload into a buffer of its own. -/
def fetchLength? (m : InPlace) : Option (Except Error (Option Nat) × InPlace) := do
  let field := List.replicate blockLengthSize 0
  let (result, source) ← m.source.readRounds? (m.source.script.length + blockLengthSize + 1) field 0
  let m := { m with source }
  match result with
  | .error failure => some (.error (.io failure), m)
  | .ok (field, filled) =>
      if filled = 0 then some (.ok none, m)
      else if filled = blockLengthSize then some (.ok (some (Bytes.toNatBE field)), m)
      else some (.error (.format (.tornLength filled)), m)

/-- Take a payload of known length into the payload buffer, which is made as long. What the source
puts there is the payload, unless there is too little of it. -/
def fetchPayload (m : InPlace) (length : Nat) : Except Error Unit × InPlace :=
  if length = 0 then (.error (.format (.zeroLength m.blocksRead)), m)
  else if m.maxPayload < length then
    (.error (.format (.longPayload m.blocksRead length m.maxPayload)), m)
  else
    let filled := m.source.fill length
    let torn : Except Error Unit := .error (.format (.tornPayload m.blocksRead length))
    let result : Except Error Unit :=
      match filled.stop with
      | .full => .ok ()
      | .ended => torn
      | .failed failure => if failure.kind = .unexpectedEof then torn else .error (.io failure)
    (result, { m with
      source := filled.source
      compressed := (m.compressed.resized length).under (m.source.front length filled.bytes) })

/-- The reader after it asked its codec for a declared length. -/
def asked (m : InPlace) : InPlace := { m with lengthCalls := m.lengthCalls + 1 }

/-- The reader after its codec decompressed into the room for raw blocks, or failed to. -/
def tried (m : InPlace) (uncompressed : Bytes) : InPlace :=
  { m.asked with uncompressed, decompressCalls := m.decompressCalls + 1 }

/-- The room for raw blocks, once a block of some size fits in. -/
def grown (m : InPlace) (size : Nat) : Bytes :=
  if m.uncompressed.length < size then m.uncompressed.resized size else m.uncompressed

/-- Decompress the payload into the front of the room, and give the size of the block. -/
def unpack? (m : InPlace) : Option (Except Error Nat × InPlace) :=
  match m.codec.declaredLength m.lengthCalls m.compressed with
  | .error e => some (.error e, m.asked)
  | .ok size =>
      if size = 0 ∨ maxBlockSize < size then
        some (.error (.format (.declaredSize m.blocksRead size)), m.asked)
      else do
        let room ← (m.grown size).slice? 0 size
        match m.codec.decompress m.decompressCalls m.compressed room.length with
        | .error e => some (.error e, m.tried (m.grown size))
        | .ok output => do
            let uncompressed ←
              (m.grown size).put? 0 size (room.under (output.bytes.take room.length))
            if output.reported ≠ size then
              some (.error (.format (.producedSize m.blocksRead output.reported size)),
                m.tried uncompressed)
            else some (.ok size, m.tried uncompressed)

/-- Read and decompress one block, and give its size. -/
def decode? (m : InPlace) : Option (Except Error (Option Nat) × InPlace) := do
  match ← m.fetchLength? with
  | (.error e, m) => some (.error e, m)
  | (.ok none, m) => some (.ok none, m)
  | (.ok (some length), m) =>
      match m.fetchPayload length with
      | (.error e, m) => some (.error e, m)
      | (.ok (), m) => do
          match ← m.unpack? with
          | (.error e, m) => some (.error e, m)
          | (.ok size, m) =>
              some (.ok (some size), { m with blocksRead := m.blocksRead + 1, len := size })

/-- Decode the next block, and view it. -/
def nextBlock? (m : InPlace) : Option (Except Error (Option Bytes) × InPlace) :=
  if m.isBroken then some (.error .broken, m)
  else do
    match ← { m with pos := 0, len := 0 }.decode? with
    | (.error e, m) => some (.error e, { m with isBroken := true })
    | (.ok none, m) => some (.ok none, m)
    | (.ok (some size), m) => do
        let view ← m.uncompressed.slice? 0 size
        some (.ok (some view), m)

/-- What is between the two places, once there is a block if there was nothing. -/
def available? (m : InPlace) : Option (Except Error Bytes × InPlace) :=
  if m.pos = m.len then do
    match ← m.nextBlock? with
    | (.error e, m) => some (.error e, m)
    | (.ok none, m) => some (.ok [], m)
    | (.ok (some _), m) => do
        let view ← m.uncompressed.slice? m.pos m.len
        some (.ok view, m)
  else do
    let view ← m.uncompressed.slice? m.pos m.len
    some (.ok view, m)

/-- Mark the next bytes of the current block as handed out. The sum wraps around. -/
def consume (m : InPlace) (count : Nat) : InPlace :=
  { m with pos := min ((m.pos + count) % 2 ^ 64) m.len }

/-- Mark the next bytes of the current block as handed out. A sum that exceeds a word is a trap. -/
def consume? (m : InPlace) (count : Nat) : Option InPlace :=
  if m.pos + count < 2 ^ 64 then some { m with pos := min (m.pos + count) m.len } else none

/-- What a read into a buffer gives in place. -/
structure ReadInto (α : Type) where
  result : Except Error Nat
  buffer : List α
  reader : InPlace

/-- The loop of a read, from a place in the buffer to another one. It gives the place that it has
come to, and traps too if it has not come to its end in a number of rounds. -/
def readRounds? : (rounds : Nat) → InPlace → Bytes → (filled last : Nat) → Option (ReadInto UInt8)
  | 0, m, buffer, filled, last => if last ≤ filled then some ⟨.ok filled, buffer, m⟩ else none
  | rounds + 1, m, buffer, filled, last =>
      if last ≤ filled then some ⟨.ok filled, buffer, m⟩
      else do
        match ← m.available? with
        | (.error e, m) => some ⟨.error e, buffer, m⟩
        | (.ok chunk, m) =>
            if chunk = [] then some ⟨.ok filled, buffer, m⟩
            else do
              let free ← minus? last filled
              let count := min chunk.length free
              let piece ← chunk.slice? 0 count
              let buffer ← buffer.put? filled (filled + count) piece
              readRounds? rounds { m with pos := m.pos + count } buffer (filled + count) last

/-- Fill `length` bytes of a buffer from `offset`. Each round takes a byte. -/
def readBytes? (m : InPlace) (buffer : Bytes) (offset length : Nat) : Option (ReadInto UInt8) :=
  if buffer.length < offset + length then
    some ⟨.error (.config (.byteRange offset length buffer.length)), buffer, m⟩
  else do
    let read ← m.readRounds? length buffer offset (offset + length)
    match read.result with
    | .error _ => some read
    | .ok filled => do
        let got ← minus? filled offset
        some { read with result := .ok got }

/-- Fill `count` elements of an array from `offset`. -/
def readElements? (m : InPlace) (t : ElementType) (array : List t.Word) (offset count : Nat) :
    Option (ReadInto t.Word) :=
  match t.byteRange? array.length offset count with
  | none => some ⟨.error (.config (.elementRange offset count array.length)), array, m⟩
  | some (byteOffset, byteLength) => do
      let read ← m.readBytes? (t.bytesOf array) byteOffset byteLength
      let result :=
        match read.result with
        | .error e => .error e
        | .ok got =>
            if got % t.width ≠ 0 then .error (.format (.tornElement t.width))
            else .ok (got / t.width)
      some ⟨result, t.wordsOf array.length read.buffer, read.reader⟩

/-- Read up to `count` bytes as I/O, into a buffer that the caller then views as far as it is
filled. -/
def read? (m : InPlace) (count : Nat) : Option (Except IoFailure Bytes × InPlace) := do
  let read ← m.readBytes? (List.replicate count 0) 0 count
  match read.result with
  | .error e => some (.error e.toIo, read.reader)
  | .ok got => do
      let view ← Bytes.slice? read.buffer 0 got
      some (.ok view, read.reader)

/-- What is in view as I/O. -/
def fillBuf? (m : InPlace) : Option (Except IoFailure Bytes × InPlace) := do
  let (result, m) ← m.available?
  some (result.mapError Error.toIo, m)

end InPlace

/-- Carry a call out in place. -/
def Call.perform? : Call → InPlace → Option (Reply × InPlace)
  | .nextBlock, m => m.nextBlock?.map (Prod.map .block id)
  | .readBytes buffer offset length, m => do
      let done ← m.readBytes? buffer offset length
      some (.filled done.result done.buffer, done.reader)
  | .readElements t array offset count, m => do
      let done ← m.readElements? t array offset count
      some (.elements t done.result done.buffer, done.reader)
  | .read count, m => (m.read? count).map (Prod.map .bytes id)
  | .fillBuf, m => m.fillBuf?.map (Prod.map .bytes id)
  | .consume count, m => some (.silence, m.consume count)

/-- Carry out calls in place, one after the other. -/
def InPlace.perform? (m : InPlace) : List Call → Option (List Reply × InPlace)
  | [] => some ([], m)
  | c :: cs => do
      let (reply, m) ← c.perform? m
      let (replies, m) ← m.perform? cs
      some (reply :: replies, m)

/-- Carry a call out in place where sums are checked as well. -/
def Call.checkedInPlace? : Call → InPlace → Option (Reply × InPlace)
  | .consume count, m => (m.consume? count).map (Reply.silence, ·)
  | c, m => c.perform? m

/-- Carry out calls in place where sums are checked as well, one after the other. -/
def InPlace.checked? (m : InPlace) : List Call → Option (List Reply × InPlace)
  | [] => some ([], m)
  | c :: cs => do
      let (reply, m) ← c.checkedInPlace? m
      let (replies, m) ← m.checked? cs
      some (reply :: replies, m)

namespace InPlace

/-! ### What the buffers stand for -/

/-- The buffers of a reader in place and the sequences of a reader. The block is the front of its
room, as far as the second place, and the first place is not behind that. Behind what the room holds
there may be zeros, if it has grown for a block that failed. -/
structure Mirrors (m : InPlace) (r : Reader) : Prop where
  source : r.source = m.source
  header : r.header = m.header
  codec : r.codec = m.codec
  compressed : r.buffer.toList = m.compressed
  uncompressed : ∃ extra, m.uncompressed = r.unpacked.toList ++ List.replicate extra 0
  block : r.block = m.uncompressed.take m.len
  position : r.position = m.pos
  pos_le : m.pos ≤ m.len
  len_le : m.len ≤ m.uncompressed.length
  len_max : m.len ≤ maxBlockSize
  blocksRead : r.blocksRead = m.blocksRead
  isBroken : r.isBroken = m.isBroken
  lengthCalls : r.lengthCalls = m.lengthCalls
  decompressCalls : r.decompressCalls = m.decompressCalls

/-- An operation in place goes through, and tells and leaves what the one on sequences does. -/
def Follows {α : Type} (outcome? : Option (α × InPlace)) (outcome : α × Reader) : Prop :=
  ∃ m, outcome? = some (outcome.1, m) ∧ Mirrors m outcome.2

variable {m : InPlace} {r : Reader}

theorem Mirrors.length_block (h : Mirrors m r) : r.block.length = m.len := by
  rw [h.block, List.length_take]
  exact Nat.min_eq_left h.len_le

theorem Mirrors.payload (h : Mirrors m r) : r.payload = m.compressed := h.compressed

theorem Mirrors.maxPayload (h : Mirrors m r) : r.maxPayload = m.maxPayload := by
  rw [Reader.maxPayload, InPlace.maxPayload, h.codec]

/-- The view of what has not been handed out is inside its buffer. -/
theorem Mirrors.view (h : Mirrors m r) : m.uncompressed.slice? m.pos m.len = some r.undrained := by
  rw [Bytes.slice?_of_le h.pos_le h.len_le, undrained, h.block, h.position]

/-- Wherever a reader is opened, one in place is, with two buffers that hold nothing. -/
theorem exists_mirror {source : Source} {header : Header} {codec : Codec}
    (hopen : Reader.ofParts source header codec = .ok r) :
    ∃ m, ofParts source header codec = .ok m ∧ Mirrors m r := by
  unfold Reader.ofParts at hopen
  split at hopen
  · cases hopen
  next hid =>
  cases hopen
  refine ⟨_, by rw [ofParts, if_neg hid], ?_⟩
  constructor
  · rfl
  · rfl
  · rfl
  · rfl
  · exact ⟨0, rfl⟩
  · rfl
  · rfl
  · exact Nat.le_refl _
  · exact Nat.le_refl _
  · exact Nat.zero_le _
  · rfl
  · rfl
  · rfl
  · rfl

/-! ### A record -/

/-- What has been put into an empty field. -/
theorem placed_field (bytes : Bytes) (s : Source) :
    Source.placed (List.replicate blockLengthSize 0) 0 ⟨bytes, .full, s⟩ =
      (.ok (bytes ++ List.replicate (blockLengthSize - bytes.length) 0, bytes.length), s) := by
  simp only [Source.placed, Bytes.splice, List.take_zero, List.nil_append, Nat.zero_add,
    List.drop_replicate]

theorem follows_fetchLength (h : Mirrors m r) : Follows m.fetchLength? r.fetchLength := by
  have hfield : (List.replicate blockLengthSize (0 : UInt8)).length = blockLengthSize := rfl
  have hread : m.source.readRounds? (m.source.script.length + blockLengthSize + 1)
      (List.replicate blockLengthSize 0) 0 =
        some (Source.placed (List.replicate blockLengthSize 0) 0
          (m.source.fill blockLengthSize)) := by
    have heq := Source.readRounds?_eq (s := m.source)
      (Nat.zero_le (List.replicate blockLengthSize (0 : UInt8)).length)
      (Nat.lt_succ_self (m.source.script.length + blockLengthSize))
    rwa [hfield, Nat.sub_zero] at heq
  have hstops := m.source.stops_fill blockLengthSize
  unfold fetchLength? fetchLength
  rw [h.source]
  simp only [hread, Option.bind_eq_bind, Option.bind_some]
  generalize m.source.fill blockLengthSize = filled at hstops ⊢
  have hmirrors : ∀ source, Mirrors { m with source } { r with source } :=
    fun source => { h with source := rfl }
  cases hstops with
  | @full bytes source length =>
    have hwidth : ¬blockLengthSize = 0 := by decide
    refine ⟨{ m with source }, ?_, hmirrors source⟩
    rw [placed_field]
    simp only [length, if_neg hwidth, if_true, Nat.sub_self, List.replicate_zero, List.append_nil]
  | @ended bytes source length =>
    refine ⟨{ m with source }, ?_, hmirrors source⟩
    have hshort : ¬bytes.length = blockLengthSize := Nat.ne_of_lt length
    simp only [Source.placed, Nat.zero_add, if_neg hshort, List.isEmpty_iff]
    by_cases hnil : bytes = []
    · rw [if_pos hnil, if_pos (by rw [hnil, List.length_nil])]
    · rw [if_neg hnil, if_neg (by rwa [List.length_eq_zero_iff])]
  | @failed bytes source failure length =>
    exact ⟨{ m with source }, rfl, hmirrors source⟩

/-- The payload buffer is made as long as the payload, and the source puts at its front what the one
of the reader does. -/
theorem follows_fetchPayload (h : Mirrors m r) (length : Nat) :
    (m.fetchPayload length).1 = (r.fetchPayload length).1 ∧
      Mirrors (m.fetchPayload length).2 (r.fetchPayload length).2 := by
  unfold fetchPayload Reader.fetchPayload
  rw [h.maxPayload, h.blocksRead, h.source]
  by_cases hzero : length = 0
  · rw [if_pos hzero, if_pos hzero]
    exact ⟨rfl, h⟩
  by_cases hlong : m.maxPayload < length
  · rw [if_neg hzero, if_neg hzero, if_pos hlong, if_pos hlong]
    exact ⟨rfl, h⟩
  rw [if_neg hzero, if_neg hzero, if_neg hlong, if_neg hlong]
  refine ⟨rfl, { h with source := rfl, compressed := ?_, blocksRead := rfl }⟩
  show (r.buffer.refill length _).toList = _
  rw [r.buffer.toList_refill_eq (m.source.length_front_le length _), h.compressed]

/-- The room for raw blocks grows as that of the reader does, and may have more zeros at its end. -/
theorem Mirrors.grown (h : Mirrors m r) (size : Nat) :
    size ≤ (m.grown size).length ∧ ∃ extra, m.grown size =
      Bytes.resized r.unpacked.toList (max size r.unpacked.size) ++ List.replicate extra 0 := by
  obtain ⟨extra, hextra⟩ := h.uncompressed
  have hsize := r.unpacked.length_toList
  have hlength : m.uncompressed.length = r.unpacked.size + extra := by
    rw [hextra, List.length_append, hsize, List.length_replicate]
  have hfits : r.unpacked.toList.length ≤ max size r.unpacked.size := by
    rw [hsize]
    exact Nat.le_max_right _ _
  have hroom := Bytes.resized_of_le hfits
  rw [hroom, hsize]
  unfold InPlace.grown
  by_cases hshort : m.uncompressed.length < size
  · have hfull := Bytes.resized_of_le (Nat.le_of_lt hshort)
    rw [if_pos hshort]
    refine ⟨Nat.le_of_eq (Bytes.length_resized _ _).symm, 0, ?_⟩
    rw [hfull, hlength, hextra, List.append_assoc, List.append_assoc,
      List.replicate_append_replicate, List.replicate_append_replicate]
    congr 2
    omega
  · rw [if_neg hshort]
    refine ⟨Nat.not_lt.1 hshort, extra - (max size r.unpacked.size - r.unpacked.size), ?_⟩
    rw [hextra, List.append_assoc, List.replicate_append_replicate]
    congr 2
    omega

/-- How unpacking ends in place and otherwise. The block is the front of the room, of the size that
is given. -/
inductive Unpacks (outcome? : Option (Except Error Nat × InPlace)) :
    Except Error Bytes × Reader → Prop
  | failed {e : Error} {m : InPlace} {r : Reader} (ends : outcome? = some (.error e, m))
      (mirrors : Mirrors m r) : Unpacks outcome? (.error e, r)
  | got {block : Bytes} {m : InPlace} {r : Reader} (ends : outcome? = some (.ok block.length, m))
      (mirrors : Mirrors m r) (fits : block.length ≤ m.uncompressed.length)
      (small : block.length ≤ maxBlockSize) (front : block = m.uncompressed.take block.length) :
      Unpacks outcome? (.ok block, r)

theorem Mirrors.asked (h : Mirrors m r) : Mirrors m.asked r.asked :=
  { h with lengthCalls := congrArg (· + 1) h.lengthCalls }

/-- Where no block is held, it does not matter what happens to the room. -/
theorem Mirrors.tried (h : Mirrors m r) (hnil : r.block = []) {uncompressed : Bytes}
    {unpacked : Buffer} {extra : Nat}
    (hroom : uncompressed = unpacked.toList ++ List.replicate extra 0) :
    Mirrors (m.tried uncompressed) (r.tried unpacked) := by
  have hlen : m.len = 0 := by rw [← h.length_block, hnil, List.length_nil]
  exact
    { h with
      uncompressed := ⟨extra, hroom⟩
      block := by
        show r.block = uncompressed.take m.len
        rw [hnil, hlen, List.take_zero]
      len_le := by
        show m.len ≤ uncompressed.length
        rw [hlen]
        exact Nat.zero_le _
      lengthCalls := congrArg (· + 1) h.lengthCalls
      decompressCalls := congrArg (· + 1) h.decompressCalls }

/-- The size that the payload declares is looked at before the room is sliced by it, and the size
that is reported before there is a block. -/
theorem unpacks (h : Mirrors m r) (hnil : r.block = []) : Unpacks m.unpack? r.unpack := by
  unfold unpack? unpack
  rw [h.codec, h.lengthCalls, h.payload]
  cases m.codec.declaredLength m.lengthCalls m.compressed with
  | error e => exact .failed rfl h.asked
  | ok size =>
    simp only
    by_cases hsize : size = 0 ∨ maxBlockSize < size
    · rw [if_pos hsize, if_pos hsize, h.blocksRead]
      exact .failed rfl h.asked
    rw [if_neg hsize, if_neg hsize, h.decompressCalls]
    obtain ⟨hfits, extra, hgrown⟩ := h.grown size
    have hroom : ((m.grown size).take size).length = size := List.length_take_of_le hfits
    have hmax := Nat.le_max_left size r.unpacked.size
    rw [Bytes.slice?_front hfits, Option.bind_eq_bind, Option.bind_some, hroom]
    cases m.codec.decompress m.decompressCalls m.compressed size with
    | error e =>
      have hlarger : r.unpacked.toList.length ≤ max size r.unpacked.size := by
        rw [Buffer.length_toList]
        exact Nat.le_max_right _ _
      have hsame := Bytes.resized_of_le hlarger
      rw [hsame, List.append_assoc, List.replicate_append_replicate] at hgrown
      exact .failed rfl (h.tried hnil hgrown)
    | ok output =>
      have hpiece : (output.bytes.take size).length ≤ size := List.length_take_le _ _
      have hlength := output.length_take_into r.unpacked hmax hmax
      have hwhole := output.size_into r.unpacked hmax
      have hinto : (output.into r.unpacked (max size r.unpacked.size) size).toList =
          (Bytes.resized r.unpacked.toList (max size r.unpacked.size)).under
            (output.bytes.take size) :=
        r.unpacked.toList_refill_eq (Nat.le_trans hpiece hmax)
      simp only [Bytes.put?_under hpiece hfits, Option.bind_some]
      generalize output.into r.unpacked (max size r.unpacked.size) size = unpacked at *
      have hnew : (m.grown size).under (output.bytes.take size) =
          unpacked.toList ++ List.replicate extra 0 := by
        rw [hgrown, hinto, Bytes.under_append]
        rw [Bytes.length_resized]
        exact Nat.le_trans hpiece hmax
      have htried := h.tried hnil hnew
      by_cases hreported : output.reported ≠ size
      · rw [if_pos hreported, if_pos hreported, h.blocksRead]
        exact .failed rfl htried
      · rw [if_neg hreported, if_neg hreported]
        refine .got ?_ htried ?_ ?_ ?_
        · rw [hlength]
        · show (unpacked.take size).length ≤ ((m.grown size).under _).length
          rw [hlength, Bytes.length_under (Nat.le_trans hpiece hfits)]
          exact hfits
        · rw [hlength]
          omega
        · show unpacked.take size = ((m.grown size).under _).take _
          rw [hlength, hnew, unpacked.take_eq, List.take_append_of_le_length]
          rw [unpacked.length_toList, hwhole]
          exact hmax

/-! ### The next block -/

/-- How decoding ends in place and otherwise. -/
inductive Decodes (outcome? : Option (Except Error (Option Nat) × InPlace)) :
    Except Error (Option Bytes) × Reader → Prop
  | failed {e : Error} {m : InPlace} {r : Reader} (ends : outcome? = some (.error e, m))
      (mirrors : Mirrors m r) : Decodes outcome? (.error e, r)
  | ended {m : InPlace} {r : Reader} (ends : outcome? = some (.ok none, m))
      (mirrors : Mirrors m r) : Decodes outcome? (.ok none, r)
  | got {block : Bytes} {m : InPlace} {r : Reader}
      (ends : outcome? = some (.ok (some block.length), m)) (mirrors : Mirrors m r)
      (held : r.block = block) : Decodes outcome? (.ok (some block), r)

theorem decodes (h : Mirrors m r) (hnil : r.block = []) : Decodes m.decode? r.fetch := by
  have hlength := follows_fetchLength h
  have hnil₁ : r.fetchLength.2.block = [] := (holds_fetchLength r).block.trans hnil
  unfold decode? fetch
  generalize r.fetchLength = outcome at hlength hnil₁ ⊢
  obtain ⟨e | _ | length, r₁⟩ := outcome
  · obtain ⟨m₁, hends, hm₁⟩ := hlength
    rw [hends]
    exact .failed rfl hm₁
  · obtain ⟨m₁, hends, hm₁⟩ := hlength
    rw [hends]
    exact .ended rfl hm₁
  obtain ⟨m₁, hends, hm₁⟩ := hlength
  obtain ⟨hresult, hm₂⟩ := follows_fetchPayload hm₁ length
  have hnil₂ : (r₁.fetchPayload length).2.block = [] :=
    (holds_fetchPayload r₁ length).block.trans hnil₁
  rw [hends]
  simp only [Option.bind_eq_bind, Option.bind_some]
  generalize r₁.fetchPayload length = outcome at hresult hm₂ hnil₂ ⊢
  generalize m₁.fetchPayload length = outcome' at hresult hm₂ ⊢
  obtain ⟨result, r₂⟩ := outcome
  obtain ⟨result', m₂⟩ := outcome'
  obtain rfl : result' = result := hresult
  cases result' with
  | error e => exact .failed rfl hm₂
  | ok _ =>
    have hunpacks := unpacks hm₂ hnil₂
    have hnil₃ : r₂.unpack.2.block = [] := (holds_unpack r₂).block.trans hnil₂
    simp only
    generalize r₂.unpack = outcome at hunpacks hnil₃ ⊢
    cases hunpacks with
    | failed ends mirrors =>
      rw [ends]
      exact .failed rfl mirrors
    | @got block m₃ r₃ ends mirrors fits small front =>
      rw [ends]
      have hlen : m₃.len = 0 := by rw [← mirrors.length_block, hnil₃, List.length_nil]
      have hpos := mirrors.pos_le
      refine .got (m := { m₃ with blocksRead := m₃.blocksRead + 1, len := block.length }) rfl ?_ rfl
      exact
        { mirrors with
          block := front
          pos_le := by
            show m₃.pos ≤ block.length
            omega
          len_le := fits
          len_max := small
          blocksRead := congrArg (· + 1) mirrors.blocksRead }

/-- A block that is given is what is in view of the room. -/
theorem follows_nextBlock (h : Mirrors m r) : Follows m.nextBlock? r.nextBlock := by
  unfold nextBlock? nextBlock
  rw [h.isBroken]
  by_cases hbroken : m.isBroken = true
  · rw [if_pos hbroken, if_pos hbroken]
    exact ⟨m, rfl, h⟩
  rw [if_neg hbroken, if_neg hbroken]
  have hcleared : Mirrors { m with pos := 0, len := 0 } r.cleared :=
    { h with
      block := List.take_zero.symm
      position := rfl
      pos_le := Nat.le_refl 0
      len_le := Nat.zero_le _
      len_max := Nat.zero_le _ }
  have hdecodes := decodes hcleared rfl
  generalize r.cleared.fetch = outcome at hdecodes ⊢
  cases hdecodes with
  | failed ends mirrors =>
    rw [ends]
    exact ⟨_, rfl, { mirrors with isBroken := rfl }⟩
  | ended ends mirrors =>
    rw [ends]
    exact ⟨_, rfl, mirrors⟩
  | @got block m' r' ends mirrors held =>
    have hlen : m'.len = block.length := by rw [← mirrors.length_block, held]
    have hfits : block.length ≤ m'.uncompressed.length := hlen ▸ mirrors.len_le
    have hview : m'.uncompressed.take block.length = block := by
      rw [← hlen, ← mirrors.block, held]
    rw [ends]
    simp only [Option.bind_eq_bind, Option.bind_some, Bytes.slice?_front hfits, hview]
    exact ⟨m', rfl, mirrors⟩

/-! ### Reads -/

theorem follows_available (h : Mirrors m r) : Follows m.available? r.available := by
  unfold available? Reader.available
  rw [h.position, h.length_block]
  by_cases hempty : m.pos = m.len
  · rw [if_pos hempty, if_pos hempty]
    obtain ⟨m', hends, hm'⟩ := follows_nextBlock h
    have hnexts := nexts r
    rw [hends]
    generalize r.nextBlock = outcome at hm' hnexts ⊢
    cases hnexts with
    | refused => exact ⟨m', rfl, hm'⟩
    | failed => exact ⟨m', rfl, hm'⟩
    | @ended r' _ held =>
      have hnil : r'.undrained = [] := by rw [Reader.undrained, held, List.drop_nil]
      refine ⟨m', ?_, hm'⟩
      simp only [Option.bind_eq_bind, Option.bind_some, hnil]
    | got =>
      refine ⟨m', ?_, hm'⟩
      simp only [Option.bind_eq_bind, Option.bind_some, hm'.view]
  · rw [if_neg hempty, if_neg hempty, h.view]
    exact ⟨m, rfl, h⟩

/-- Nothing is handed out behind the end of the block. -/
theorem Mirrors.moved (h : Mirrors m r) {position : Nat} (hposition : position ≤ m.len) :
    Mirrors { m with pos := position } { r with position } :=
  { h with position := rfl, pos_le := hposition }

/-- Some of what is in view is handed out. -/
theorem Mirrors.advance (h : Mirrors m r) {count : Nat} (hcount : count ≤ r.undrained.length) :
    Mirrors { m with pos := m.pos + count } { r with position := r.position + count } := by
  have hlength : r.undrained.length = m.len - m.pos := by
    rw [Reader.undrained, List.length_drop, h.length_block, h.position]
  have hpos := h.pos_le
  rw [h.position]
  exact h.moved (by omega)

/-- Whatever number is given, and if the sum wraps around. -/
theorem mirrors_consume (h : Mirrors m r) (count : Nat) :
    Mirrors (m.consume count) (r.consume count) := by
  unfold consume Reader.consume
  rw [h.position, h.length_block]
  exact h.moved (Nat.min_le_right _ _)

theorem length_drawOnto_le (gathered : Array UInt8) (r : Reader) (count : Nat) :
    (drawOnto gathered r count).bytes.length ≤ gathered.toList.length + count := by
  fun_induction drawOnto gathered r count with
  | case1 | case2 | case3 => exact Nat.le_add_right _ _
  | case4 gathered r count hcount chunk r' heq hchunk hless ih =>
    rw [Array.toList_appendList, List.length_append, List.length_take] at ih
    omega

theorem readRounds?_of_le {filled last : Nat} (hend : last ≤ filled) (rounds : Nat) (m : InPlace)
    (buffer : Bytes) : readRounds? rounds m buffer filled last = some ⟨.ok filled, buffer, m⟩ := by
  cases rounds with
  | zero => exact if_pos hend
  | succ rounds => exact if_pos hend

/-- A round of the loop puts as much of the view behind the bytes that are there as is wanted. -/
theorem readRounds?_round {rounds count offset last : Nat} {buffer bytes chunk : Bytes}
    {m' : InPlace} (hends : m.available? = some (.ok chunk, m')) (hchunk : chunk ≠ [])
    (hlast : last = offset + bytes.length + count) (hcount : 0 < count)
    (hroom : last ≤ buffer.length) :
    readRounds? (rounds + 1) m (buffer.splice offset bytes) (offset + bytes.length) last =
      readRounds? rounds { m' with pos := m'.pos + min chunk.length count }
        (buffer.splice offset (bytes ++ chunk.take count))
        (offset + (bytes ++ chunk.take count).length) last := by
  have hpiece : (chunk.take count).length = min chunk.length count := by
    rw [List.length_take, Nat.min_comm]
  have hplace : offset + (bytes ++ chunk.take count).length =
      offset + bytes.length + min chunk.length count := by
    rw [List.length_append, hpiece, Nat.add_assoc]
  have hfree : minus? last (offset + bytes.length) = some count := by
    rw [minus?_of_le (by omega), hlast, Nat.add_sub_cancel_left]
  have hslice : chunk.slice? 0 (min chunk.length count) = some (chunk.take count) := by
    rw [Bytes.slice?_front (Nat.min_le_left _ _), Nat.min_comm, ← List.take_eq_take_min]
  have hput : (buffer.splice offset bytes).put? (offset + bytes.length)
      (offset + bytes.length + min chunk.length count) (chunk.take count) =
        some (buffer.splice offset (bytes ++ chunk.take count)) := by
    have hwhole : (buffer.splice offset bytes).length = buffer.length :=
      Bytes.length_splice (by omega)
    rw [← hpiece, Bytes.put?_at (by omega), Bytes.splice_splice (by omega)]
  rw [readRounds?, if_neg (by omega), hends]
  simp only [Option.bind_eq_bind, Option.bind_some, if_neg hchunk, hfree, hslice, hput, hplace]

/-- The loop of a read puts at its place what is gathered, behind what has been gathered before.
Each round takes a byte. -/
theorem follows_readRounds {gathered : Array UInt8} {count rounds offset last : Nat}
    {buffer : Bytes} (h : Mirrors m r) (hlast : last = offset + gathered.toList.length + count)
    (hroom : last ≤ buffer.length) (hrounds : count ≤ rounds) :
    ∃ m', readRounds? rounds m (buffer.splice offset gathered.toList)
        (offset + gathered.toList.length) last =
      some ⟨(drawOnto gathered r count).result.map
          fun _ => offset + (drawOnto gathered r count).bytes.length,
        buffer.splice offset (drawOnto gathered r count).bytes, m'⟩ ∧
      Mirrors m' (drawOnto gathered r count).reader := by
  -- the rounds that are left are never fewer than the bytes that are still wanted
  fun_induction drawOnto gathered r count generalizing m rounds with
  | case1 gathered r =>
    have hend : last ≤ offset + gathered.toList.length := by omega
    exact ⟨m, readRounds?_of_le hend rounds m _, h⟩
  | case2 gathered r count hcount e r' heq | case3 gathered r count hcount r' heq =>
    obtain ⟨m', hends, hm'⟩ := follows_available h
    rw [heq] at hends hm'
    obtain ⟨rounds, rfl⟩ := Nat.exists_eq_succ_of_ne_zero (n := rounds) (by omega)
    refine ⟨m', ?_, hm'⟩
    rw [readRounds?, if_neg (by omega), hends]
    rfl
  | case4 gathered r count hcount chunk r' heq hchunk hless ih =>
    obtain ⟨m', hends, hm'⟩ := follows_available h
    rw [heq] at hends hm'
    obtain rfl := available_eq_undrained heq
    obtain ⟨rounds, rfl⟩ := Nat.exists_eq_succ_of_ne_zero (n := rounds) (by omega)
    have hgathered : (gathered ++ r'.undrained.take count).toList =
        gathered.toList ++ r'.undrained.take count := Array.toList_appendList
    have hleft : last = offset + (gathered ++ r'.undrained.take count).toList.length +
        (count - min r'.undrained.length count) := by
      rw [hgathered, List.length_append, List.length_take]
      omega
    have hfewer : count - min r'.undrained.length count ≤ rounds := by omega
    obtain ⟨m'', hrest, hm''⟩ := ih (hm'.advance (Nat.min_le_left _ count)) hleft hfewer
    refine ⟨m'', ?_, hm''⟩
    rw [← hrest, hgathered]
    exact readRounds?_round hends hchunk hlast (Nat.pos_of_ne_zero hcount) hroom

/-- How a read into a buffer goes in place and otherwise. -/
def Fills {α : Type} (read? : Option (ReadInto α)) (read : Reader.ReadInto α) : Prop :=
  ∃ m, read? = some ⟨read.result, read.buffer, m⟩ ∧ Mirrors m read.reader

theorem fills_readBytes (h : Mirrors m r) (buffer : Bytes) (offset length : Nat) :
    Fills (m.readBytes? buffer offset length) (r.readBytes buffer offset length) := by
  unfold readBytes? Reader.readBytes
  by_cases hrange : buffer.length < offset + length
  · rw [if_pos hrange, if_pos hrange]
    exact ⟨m, rfl, h⟩
  have hlast : offset + length = offset + (#[] : Array UInt8).toList.length + length := rfl
  have hread := follows_readRounds h hlast (Nat.not_lt.1 hrange) (Nat.le_refl length)
  rw [if_neg hrange, if_neg hrange, Reader.draw]
  generalize drawOnto #[] r length = drawn at hread ⊢
  rw [Bytes.splice_nil, List.length_nil, Nat.add_zero] at hread
  obtain ⟨m', hread, hm'⟩ := hread
  obtain ⟨bytes, e | _, r'⟩ := drawn
  · refine ⟨m', ?_, hm'⟩
    rw [hread]
    rfl
  · have hcount : minus? (offset + bytes.length) offset = some bytes.length := by
      rw [minus?_of_le (Nat.le_add_right _ _), Nat.add_sub_cancel_left]
    refine ⟨m', ?_, hm'⟩
    rw [hread]
    simp only [Except.map, Option.bind_eq_bind, Option.bind_some, hcount]
    rfl

theorem fills_readElements (h : Mirrors m r) (t : ElementType) (array : List t.Word)
    (offset count : Nat) :
    Fills (m.readElements? t array offset count) (r.readElements t array offset count) := by
  unfold readElements? Reader.readElements
  cases t.byteRange? array.length offset count with
  | none => exact ⟨m, rfl, h⟩
  | some range =>
    obtain ⟨m', hread, hm'⟩ := fills_readBytes h (t.bytesOf array) range.1 range.2
    refine ⟨m', ?_, hm'⟩
    show Option.bind (m.readBytes? (t.bytesOf array) range.1 range.2) _ = _
    rw [hread]
    rfl

theorem follows_read (h : Mirrors m r) (count : Nat) : Follows (m.read? count) (r.read count) := by
  obtain ⟨m', hread, hm'⟩ := fills_readBytes h (List.replicate count 0) 0 count
  have hlength : (List.replicate count (0 : UInt8)).length = count := List.length_replicate
  have hgot : (drawOnto #[] r count).bytes.length ≤ count := by
    have hle := length_drawOnto_le #[] r count
    rwa [List.length_nil, Nat.zero_add] at hle
  unfold read? Reader.read
  rw [hread]
  unfold Reader.readBytes Reader.draw at hm' ⊢
  rw [if_neg (by omega)] at hm' ⊢
  generalize drawOnto #[] r count = drawn at hgot hm' ⊢
  obtain ⟨bytes, e | _, r'⟩ := drawn
  · exact ⟨m', rfl, hm'⟩
  · have hroom : 0 + bytes.length ≤ (List.replicate count (0 : UInt8)).length := by
      rwa [hlength, Nat.zero_add]
    have hview := Bytes.slice?_splice hroom
    rw [Nat.zero_add] at hview
    refine ⟨m', ?_, hm'⟩
    show (Bytes.slice? (Bytes.splice (List.replicate count 0) 0 bytes) 0 bytes.length).bind _ = _
    rw [hview]
    rfl

theorem follows_fillBuf (h : Mirrors m r) : Follows m.fillBuf? r.fillBuf := by
  obtain ⟨m', hends, hm'⟩ := follows_available h
  unfold fillBuf? Reader.fillBuf
  rw [hends]
  generalize r.available = outcome at hm' ⊢
  obtain ⟨e | chunk, r'⟩ := outcome
  · exact ⟨m', rfl, hm'⟩
  · exact ⟨m', rfl, hm'⟩

/-! ### Sessions -/

theorem Follows.map {α β : Type} {outcome? : Option (α × InPlace)} {outcome : α × Reader}
    (h : Follows outcome? outcome) (f : α → β) :
    Follows (outcome?.map (Prod.map f id)) (outcome.map f id) := by
  obtain ⟨m', rfl, hm'⟩ := h
  exact ⟨m', rfl, hm'⟩

/-- No call traps, and each tells what the one on sequences does. -/
theorem follows_call (h : Mirrors m r) (c : Call) : Follows (c.perform? m) (c.perform r) := by
  cases c with
  | nextBlock => exact (follows_nextBlock h).map Reply.block
  | readBytes buffer offset length =>
    obtain ⟨m', hread, hm'⟩ := fills_readBytes h buffer offset length
    refine ⟨m', ?_, hm'⟩
    rw [Call.perform?, hread]
    rfl
  | readElements t array offset count =>
    obtain ⟨m', hread, hm'⟩ := fills_readElements h t array offset count
    refine ⟨m', ?_, hm'⟩
    rw [Call.perform?, hread]
    rfl
  | read count => exact (follows_read h count).map Reply.bytes
  | fillBuf => exact (follows_fillBuf h).map Reply.bytes
  | consume count => exact ⟨m.consume count, rfl, mirrors_consume h count⟩

/-- No session traps, and all that is told in it is what a reader of sequences tells. -/
theorem follows_perform (h : Mirrors m r) (calls : List Call) :
    Follows (m.perform? calls) (r.perform calls) := by
  induction calls generalizing m r with
  | nil => exact ⟨m, rfl, h⟩
  | cons c calls ih =>
    obtain ⟨m₁, hcall, hm₁⟩ := follows_call h c
    obtain ⟨m₂, hrest, hm₂⟩ := ih hm₁
    refine ⟨m₂, ?_, hm₂⟩
    simp only [perform?, hcall, hrest, Option.bind_eq_bind, Option.bind_some, perform_cons]

/-! ### Sums -/

theorem checkedInPlace?_of_fits (h : Mirrors m r) {c : Call} (hc : c.Fits r) :
    c.checkedInPlace? m = c.perform? m := by
  cases c with
  | consume count =>
    have hfits : m.pos + count < 2 ^ 64 := h.position ▸ hc
    rw [Call.checkedInPlace?, consume?, if_pos hfits, Call.perform?, consume,
      Nat.mod_eq_of_lt hfits]
    rfl
  | _ => rfl

theorem checkedInPlace?_eq_none (h : Mirrors m r) {c : Call} (hc : ¬c.Fits r) :
    c.checkedInPlace? m = none := by
  cases c with
  | consume count =>
    have hfits : ¬m.pos + count < 2 ^ 64 := h.position ▸ hc
    rw [Call.checkedInPlace?, consume?, if_neg hfits]
    rfl
  | _ => exact absurd trivial hc

/-- Checked sums add no trap to a session in which they all fit. -/
theorem checked?_of_allFit (h : Mirrors m r) {calls : List Call} (hcalls : r.AllFit calls) :
    m.checked? calls = m.perform? calls := by
  induction calls generalizing m r with
  | nil => rfl
  | cons c calls ih =>
    obtain ⟨m₁, hcall, hm₁⟩ := follows_call h c
    simp only [checked?, perform?, checkedInPlace?_of_fits h hcalls.1, hcall,
      Option.bind_eq_bind, Option.bind_some, ih hm₁ hcalls.2]

/-- A sum that does not fit is a trap. -/
theorem checked?_eq_none (h : Mirrors m r) {calls : List Call} (hcalls : ¬r.AllFit calls) :
    m.checked? calls = none := by
  induction calls generalizing m r with
  | nil => exact absurd trivial hcalls
  | cons c calls ih =>
    by_cases hc : c.Fits r
    · obtain ⟨m₁, hcall, hm₁⟩ := follows_call h c
      have hrest : ¬(c.perform r).2.AllFit calls := fun hrest => hcalls ⟨hc, hrest⟩
      simp only [checked?, checkedInPlace?_of_fits h hc, hcall, Option.bind_eq_bind,
        Option.bind_some, ih hm₁ hrest, Option.bind_none]
    · simp only [checked?, checkedInPlace?_eq_none h hc, Option.bind_eq_bind, Option.bind_none]

end InPlace

end Reader

end FramedStream
