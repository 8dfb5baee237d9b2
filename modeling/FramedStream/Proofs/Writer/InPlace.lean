import FramedStream.Proofs.Slices
import FramedStream.Proofs.Writer.Rounds

/-!
# A writer in place

A writer keeps the bytes that wait for the next block in a buffer as long as a block, up to a
cursor, and has its codec compress into another buffer, of which it sends as much as the codec
reports. `Writer.InPlace` is this writer, with a trap wherever it slices a buffer or takes a
difference.

* `dump?` sends a block, `fillRounds?` is the loop of a write, and `Call.operate?` any call;
* `Mirrors` says how the buffers stand for the sequences of a `Writer`, the cursor inside its buffer
  included, and `Follows` that an operation goes through without a trap and to the same end;
* `follows_dump`, `follows_fillRounds` and `follows_operate` are the steps, and `follows_perform`
  says that no session traps, whatever the codec reports and whatever the sink does.
-/

namespace FramedStream

namespace Writer

/-- A writer with its two buffers. -/
structure InPlace where
  codec : Codec
  /-- A block, of which the bytes in front of the cursor are pending. -/
  uncompressed : Bytes
  cursor : Nat
  /-- The room for compressed blocks. -/
  compressed : Bytes
  sink : Sink
  phase : Phase
  stats : Stats
  compressCalls : Nat

namespace InPlace

/-! ### Operations -/

/-- Start a stream, with two buffers of zeros. -/
def create (sink : Sink) (codec : Codec) (blockSize : Nat) : Except Error InPlace × Sink :=
  if blockSize = 0 ∨ maxBlockSize < blockSize then
    (.error (.config (.blockSize blockSize)), sink)
  else
    match (Header.current codec.id).writeTo sink with
    | (.error e, sink) => (.error e, sink)
    | (.ok (), sink) =>
        (.ok { codec, uncompressed := List.replicate blockSize 0, cursor := 0,
               compressed := List.replicate (codec.maxCompressedLength blockSize) 0, sink,
               phase := .accepting, stats := { framedBytes := headerSize }, compressCalls := 0 },
          sink)

/-- Why a writer accepts nothing, if it does not. -/
def unusable? (m : InPlace) : Option Error :=
  match m.phase with
  | .accepting => none
  | .broken => some .broken
  | .closed => some .closed

/-- The next operation, unless there is a trap or an error. -/
def andThen? (outcome? : Option (Except Error Unit × InPlace))
    (f : InPlace → Option (Except Error Unit × InPlace)) :
    Option (Except Error Unit × InPlace) := do
  match ← outcome? with
  | (.ok (), m) => f m
  | (.error e, m) => some (.error e, m)

/-- The writer after a call of its codec. -/
def tried (m : InPlace) (compressed : Bytes) : InPlace :=
  { m with compressed, compressCalls := m.compressCalls + 1 }

/-- Send the front of the room, of a given size, as the record of a block. -/
def send? (m : InPlace) (size : Nat) : Option (Except Error Unit × InPlace) := do
  let payload ← m.compressed.slice? 0 size
  match m.sink.writeRecord payload with
  | (.error failure, sink) => some (.error (.io failure), { m with sink, phase := .broken })
  | (.ok (), sink) =>
      some (.ok (), { m with
        sink
        cursor := 0
        stats := { m.stats with
          blocks := m.stats.blocks + 1
          framedBytes := m.stats.framedBytes + (blockLengthSize + size) } })

/-- Compress what is in front of the cursor and send as much of the room as the codec reports. -/
def dump? (m : InPlace) : Option (Except Error Unit × InPlace) :=
  if m.cursor = 0 then some (.ok (), m)
  else do
    let raw ← m.uncompressed.slice? 0 m.cursor
    match m.codec.compress m.compressCalls raw m.compressed.length with
    | .error e => some (.error e, m.tried m.compressed)
    | .ok output =>
        let m := m.tried (m.compressed.under (output.bytes.take m.compressed.length))
        if m.compressed.length < output.reported ∨ 2 ^ 32 ≤ output.reported then
          some (.error (.codec m.codec.name
            s!"compressed size {output.reported} exceeds the declared bound {m.compressed.length}"),
            m)
        else m.send? output.reported

/-- Copy a piece to the cursor, and move the cursor behind it. -/
def store? (m : InPlace) (piece : Bytes) : Option InPlace := do
  let uncompressed ← m.uncompressed.put? m.cursor (m.cursor + piece.length) piece
  some { m with
    uncompressed
    cursor := m.cursor + piece.length
    stats := { m.stats with rawBytes := m.stats.rawBytes + piece.length } }

/-- The loop of a write: store what there is room for, and send the block if that completes it. It
traps too if it has not come to its end in a number of rounds. -/
def fillRounds? : (rounds : Nat) → InPlace → Bytes → Option (Except Error Unit × InPlace)
  | 0, m, source => if source = [] then some (.ok (), m) else none
  | rounds + 1, m, source =>
      if source = [] then some (.ok (), m)
      else do
        let free ← minus? m.uncompressed.length m.cursor
        let count := min free source.length
        let piece ← source.slice? 0 count
        let m ← m.store? piece
        let source ← source.slice? count source.length
        if m.cursor = m.uncompressed.length then
          andThen? m.dump? fun m => fillRounds? rounds m source
        else fillRounds? rounds m source

/-- Append `length` bytes of a buffer from `offset`. Each round but the first takes a byte. -/
def writeBytes? (m : InPlace) (buffer : Bytes) (offset length : Nat) :
    Option (Except Error Unit × InPlace) :=
  match m.unusable? with
  | some e => some (.error e, m)
  | none =>
      if buffer.length < offset + length then
        some (.error (.config (.byteRange offset length buffer.length)), m)
      else do
        let source ← buffer.slice? offset (offset + length)
        fillRounds? (source.length + 2) m source

/-- Append one byte. A block that is complete is sent first. -/
def writeByte? (m : InPlace) (byte : UInt8) : Option (Except Error Unit × InPlace) :=
  match m.unusable? with
  | some e => some (.error e, m)
  | none =>
      andThen? (if m.cursor = m.uncompressed.length then m.dump? else some (.ok (), m)) fun m => do
        let m ← m.store? [byte]
        some (.ok (), m)

/-- Append `count` elements of an array from `offset`. -/
def writeElements? (m : InPlace) (t : ElementType) (array : List t.Word) (offset count : Nat) :
    Option (Except Error Unit × InPlace) :=
  match t.byteRange? array.length offset count with
  | none => some (.error (.config (.elementRange offset count array.length)), m)
  | some (byteOffset, byteLength) => m.writeBytes? (t.bytesOf array) byteOffset byteLength

/-- Send what is pending, then flush the sink. -/
def flush? (m : InPlace) : Option (Except Error Unit × InPlace) :=
  match m.unusable? with
  | some e => some (.error e, m)
  | none =>
      andThen? m.dump? fun m =>
        match m.sink.flush with
        | (.ok (), sink) => some (.ok (), { m with sink })
        | (.error failure, sink) => some (.error (.io failure), { m with sink, phase := .broken })

/-- Flush and let go of the sink, which is all that is left to do for a broken writer. -/
def close? (m : InPlace) : Option (Except Error Unit × InPlace) :=
  match m.phase with
  | .closed => some (.ok (), m)
  | .broken => some (.ok (), { m with phase := .closed })
  | .accepting => do
      let (result, m) ← m.flush?
      some (result, { m with phase := .closed })

/-- What becomes of a writer that is given up. -/
def drop? (m : InPlace) : Option InPlace :=
  if m.phase = .accepting then m.close?.map Prod.snd else some m

/-- Flush and hand the sink back. -/
def finish? (m : InPlace) : Option (Except Error Unit × InPlace) := do
  match ← m.flush? with
  | (.ok (), m) => some (.ok (), { m with phase := .closed })
  | (.error e, m) => do
      let m ← m.drop?
      some (.error e, m)

end InPlace

end Writer

/-- The operation behind a call, in place. -/
def Call.operate? : Call → Writer.InPlace → Option (Except Error Unit × Writer.InPlace)
  | .writeBytes buffer offset length, m => m.writeBytes? buffer offset length
  | .writeByte byte, m => m.writeByte? byte
  | .writeElements t array offset count, m => m.writeElements? t array offset count
  | .writeAllElements t array, m => m.writeElements? t array 0 array.length
  | .write buffer, m => m.writeBytes? buffer 0 buffer.length
  | .flush, m | .flushIo, m => m.flush?
  | .close, m => m.close?
  | .finish, m => m.finish?
  | .drop, m => m.drop?.map fun m => (.ok (), m)

/-- Carry out calls in place, one after the other. -/
def Writer.InPlace.perform? (m : InPlace) : List Call → Option (List Answer × InPlace)
  | [] => some ([], m)
  | c :: cs => do
      let (result, m) ← c.operate? m
      let (answers, m) ← m.perform? cs
      some (c.answer result :: answers, m)

namespace Writer

namespace InPlace

/-! ### What the buffers stand for -/

/-- The buffers of a writer in place and the sequences of a writer. The pending bytes are those in
front of the cursor, which is inside its buffer, and the room is as long as the bound says. -/
structure Mirrors (m : InPlace) (w : Writer) : Prop where
  codec : w.codec = m.codec
  blockSize : w.blockSize = m.uncompressed.length
  cursor : m.cursor ≤ m.uncompressed.length
  pending : w.pending = m.uncompressed.take m.cursor
  compressed : m.compressed = Bytes.resized w.scratch.toList w.room
  sink : w.sink = m.sink
  phase : w.phase = m.phase
  stats : w.stats = m.stats
  compressCalls : w.compressCalls = m.compressCalls

/-- An operation in place goes through, and tells and leaves what the one on sequences does. -/
def Follows (outcome? : Option (Except Error Unit × InPlace))
    (outcome : Except Error Unit × Writer) : Prop :=
  ∃ m, outcome? = some (outcome.1, m) ∧ Mirrors m outcome.2

variable {m : InPlace} {w : Writer} {piece bytes : Bytes}

theorem Mirrors.length_pending (h : Mirrors m w) : w.pending.length = m.cursor := by
  rw [h.pending, List.length_take]
  exact Nat.min_eq_left h.cursor

theorem Mirrors.room (h : Mirrors m w) : w.room = m.compressed.length := by
  rw [h.compressed, Bytes.length_resized]

theorem Mirrors.unusable? (h : Mirrors m w) : w.unusable? = m.unusable? := by
  have hphase := h.phase
  unfold Writer.unusable? InPlace.unusable?
  generalize w.phase = phase at hphase ⊢
  subst hphase
  cases m.phase <;> rfl

theorem follows_andThen {outcome? : Option (Except Error Unit × InPlace)}
    {outcome : Except Error Unit × Writer} {f : InPlace → Option (Except Error Unit × InPlace)}
    {g : Writer → Except Error Unit × Writer} (h : Follows outcome? outcome)
    (hf : ∀ {m w}, outcome = (.ok (), w) → Mirrors m w → Follows (f m) (g w)) :
    Follows (andThen? outcome? f) (andThen outcome g) := by
  obtain ⟨m, rfl, hm⟩ := h
  obtain ⟨e | _, w⟩ := outcome
  · exact ⟨m, rfl, hm⟩
  · exact hf rfl hm

/-- Bytes for which there is room are accepted. -/
theorem mirrors_store (h : Mirrors m w) (hroom : m.cursor + piece.length ≤ m.uncompressed.length) :
    ∃ m', m.store? piece = some m' ∧ Mirrors m' (w.accept piece) := by
  have hlength := Bytes.length_splice hroom
  rw [store?, Bytes.put?_at hroom]
  refine ⟨_, rfl, ?_⟩
  constructor
  · exact h.codec
  · exact h.blockSize.trans hlength.symm
  · show m.cursor + piece.length ≤ (m.uncompressed.splice m.cursor piece).length
    rw [hlength]
    exact hroom
  · show w.pending ++ piece = (m.uncompressed.splice m.cursor piece).take _
    rw [Bytes.take_splice h.cursor, h.pending]
  · exact h.compressed
  · exact h.sink
  · exact h.phase
  · show { w.stats with rawBytes := w.stats.rawBytes + piece.length } = _
    rw [h.stats]
  · exact h.compressCalls

/-- What the codec puts into the room is seen there, in both. -/
theorem Mirrors.into (h : Mirrors m w) (output : Output) :
    (output.into w.scratch w.room w.room).toList =
      m.compressed.under (output.bytes.take m.compressed.length) := by
  have hfits : (output.bytes.take w.room).length ≤ w.room := List.length_take_le _ _
  rw [Output.into, Buffer.toList_refill_eq _ hfits, ← h.compressed, h.room]

theorem Mirrors.tried (h : Mirrors m w) {scratch : Buffer} {compressed : Bytes}
    (hscratch : compressed = Bytes.resized scratch.toList w.room) :
    Mirrors (m.tried compressed) (w.tried scratch) := by
  constructor
  · exact h.codec
  · exact h.blockSize
  · exact h.cursor
  · exact h.pending
  · exact hscratch
  · exact h.sink
  · exact h.phase
  · exact h.stats
  · show w.compressCalls + 1 = m.compressCalls + 1
    rw [h.compressCalls]

/-- The front of the room is sent, and nothing else of it. -/
theorem follows_send (h : Mirrors m w) {size : Nat} (hsize : size ≤ m.compressed.length) :
    Follows (m.send? size) (w.putRecord (m.compressed.take size)) := by
  have hlength : (m.compressed.take size).length = size := by
    rw [List.length_take]
    exact Nat.min_eq_left hsize
  unfold send? putRecord
  rw [Bytes.slice?_front hsize, h.sink, Option.bind_eq_bind, Option.bind_some]
  rcases m.sink.writeRecord (m.compressed.take size) with ⟨failure | _, sink⟩
  · exact ⟨_, rfl, { h with sink := rfl, phase := rfl }⟩
  · refine ⟨_, rfl, ?_⟩
    exact
      { h with
        cursor := Nat.zero_le _
        pending := List.take_zero.symm
        sink := rfl
        stats := by
          show { w.stats with
            blocks := w.stats.blocks + 1
            framedBytes := w.stats.framedBytes +
              (blockLengthSize + (m.compressed.take size).length) } = _
          rw [h.stats, hlength] }

/-- The sending of a block, with what stands for what. The size that the codec reports is looked at
before anything is sliced by it. -/
theorem follows_dump (h : Mirrors m w) : Follows m.dump? w.emit := by
  have hlength := h.length_pending
  unfold dump? emit
  by_cases hzero : m.cursor = 0
  · have hempty : w.pending.isEmpty = true := by
      rw [List.isEmpty_iff, ← List.length_eq_zero_iff, hlength]
      exact hzero
    rw [if_pos hzero, if_pos hempty]
    exact ⟨m, rfl, h⟩
  have hnonempty : ¬w.pending.isEmpty = true := by
    rw [List.isEmpty_iff, ← List.length_eq_zero_iff, hlength]
    exact hzero
  rw [if_neg hzero, if_neg hnonempty, Bytes.slice?_front h.cursor, ← h.pending]
  unfold pack
  rw [h.codec, h.compressCalls, h.room]
  simp only [Option.bind_eq_bind, Option.bind_some]
  cases m.codec.compress m.compressCalls w.pending m.compressed.length with
  | error e => exact ⟨_, rfl, h.tried h.compressed⟩
  | ok output =>
    have hinto := h.into output
    have hroom := Bytes.length_under (List.length_take_le m.compressed.length output.bytes)
    rw [h.room] at hinto
    have htried : Mirrors (m.tried (m.compressed.under (output.bytes.take m.compressed.length)))
        (w.tried (output.into w.scratch m.compressed.length m.compressed.length)) := by
      apply h.tried
      rw [hinto, h.room, Bytes.resized_of_length hroom]
    simp only [Buffer.take_eq, hinto]
    by_cases hlarge : m.compressed.length < output.reported ∨ 2 ^ 32 ≤ output.reported
    · have hover : w.oversized output.reported = true := by
        rw [oversized_iff, h.room]
        exact hlarge
      rw [if_pos hover, if_pos (by simpa only [InPlace.tried, hroom] using hlarge)]
      refine ⟨_, ?_, htried⟩
      simp only [InPlace.tried, hroom]
    · have hfits : ¬w.oversized output.reported = true := by
        rw [oversized_iff, h.room]
        exact hlarge
      rw [if_neg hfits, if_neg (by simpa only [InPlace.tried, hroom] using hlarge)]
      refine follows_send htried ?_
      show output.reported ≤ (m.compressed.under _).length
      omega

/-! ### The loop of a write -/

theorem fillRounds?_nil (rounds : Nat) (m : InPlace) :
    fillRounds? rounds m [] = some (.ok (), m) := by
  cases rounds <;> rfl

/-- One round. As many bytes are taken as there is room for, so that the piece has a place in the
buffer and the rest one in what was to be written. -/
theorem fillRounds?_succ (h : Mirrors m w) (hne : bytes ≠ []) (rounds : Nat) :
    ∃ round?, Follows round? (w.fillUp bytes) ∧
      fillRounds? (rounds + 1) m bytes = andThen? round? fun m =>
        fillRounds? rounds m (bytes.drop (w.blockSize - w.pending.length)) := by
  have hlength := h.length_pending
  have hcursor := h.cursor
  have hfree : w.blockSize - w.pending.length = m.uncompressed.length - m.cursor := by
    rw [h.blockSize, hlength]
  generalize hcount : min (m.uncompressed.length - m.cursor) bytes.length = count
  have hle : count ≤ bytes.length := by omega
  have hpiece : bytes.take (w.blockSize - w.pending.length) = bytes.take count := by
    rw [hfree, ← hcount, ← List.take_take, List.take_length]
  have hrest : bytes.drop (w.blockSize - w.pending.length) = bytes.drop count := by
    rw [hfree]
    by_cases hall : bytes.length ≤ m.uncompressed.length - m.cursor
    · rw [List.drop_of_length_le hall, List.drop_of_length_le (by omega)]
    · congr 1
      omega
  have hstored : (bytes.take count).length = count := List.length_take_of_le hle
  have hroom : m.cursor + (bytes.take count).length ≤ m.uncompressed.length := by omega
  obtain ⟨m', hstore, hm'⟩ := mirrors_store h hroom
  refine ⟨if m'.cursor = m'.uncompressed.length then m'.dump? else some (.ok (), m'), ?_, ?_⟩
  · rw [← hpiece] at hm'
    simp only [fillUp, hm'.length_pending, hm'.blockSize]
    by_cases hfull : m'.cursor = m'.uncompressed.length
    · rw [if_pos hfull, if_pos hfull]
      exact follows_dump hm'
    · rw [if_neg hfull, if_neg hfull]
      exact ⟨m', rfl, hm'⟩
  · rw [fillRounds?, if_neg hne, hrest]
    simp only [minus?_of_le hcursor, Option.bind_eq_bind, Option.bind_some, hcount,
      Bytes.slice?_front hle, hstore, Bytes.slice?_back hle]
    by_cases hfull : m'.cursor = m'.uncompressed.length
    · rw [if_pos hfull, if_pos hfull]
    · rw [if_neg hfull, if_neg hfull]
      rfl

/-- In as many rounds as the loop takes, it comes to its end. -/
theorem follows_fillRounds {count rounds : Nat} {outcome : Except Error Unit × Writer}
    (hrounds : Rounds count w bytes outcome) (h : Mirrors m w) (hcount : count ≤ rounds) :
    Follows (fillRounds? rounds m bytes) outcome := by
  induction hrounds generalizing m rounds with
  | done w =>
    rw [fillRounds?_nil]
    exact ⟨m, rfl, h⟩
  | @round count w w₁ bytes outcome left step rest ih =>
    obtain ⟨rounds, rfl⟩ := Nat.exists_eq_add_of_le' hcount
    obtain ⟨round?, hround, heq⟩ := fillRounds?_succ h left (rounds + count)
    rw [step] at hround
    obtain ⟨m₁, rfl, hm₁⟩ := hround
    rw [← Nat.add_assoc, heq]
    exact ih hm₁ (Nat.le_add_left count rounds)
  | @failed w w' bytes e left step =>
    obtain ⟨rounds, rfl⟩ := Nat.exists_eq_add_of_le' hcount
    obtain ⟨round?, hround, heq⟩ := fillRounds?_succ h left rounds
    rw [step] at hround
    obtain ⟨m₁, rfl, hm₁⟩ := hround
    rw [heq]
    exact ⟨m₁, rfl, hm₁⟩

/-- The rounds of a write are at most as many as its bytes, and two. -/
theorem follows_append (hw : w.Bounded) (h : Mirrors m w) :
    Follows (fillRounds? (bytes.length + 2) m bytes) (w.append bytes) := by
  obtain ⟨count, hrounds, hcount⟩ := rounds_append hw bytes
  apply follows_fillRounds hrounds h
  have hpending := hw.pending
  have hblocks : (w.pending.length + bytes.length) / w.blockSize ≤
      (bytes.length + w.blockSize) / w.blockSize := Nat.div_le_div_right (by omega)
  rw [Nat.add_div_right _ hw.positive] at hblocks
  have hbytes := Nat.div_le_self bytes.length w.blockSize
  omega

/-! ### Every call -/

theorem follows_writeBytes (hw : w.Bounded) (h : Mirrors m w) (buffer : Bytes)
    (offset length : Nat) :
    Follows (m.writeBytes? buffer offset length) (w.writeBytes buffer offset length) := by
  unfold writeBytes? writeBytes
  rw [h.unusable?]
  cases m.unusable? with
  | some e => exact ⟨m, rfl, h⟩
  | none =>
    simp only
    by_cases hrange : buffer.length < offset + length
    · rw [if_pos hrange, if_pos hrange]
      exact ⟨m, rfl, h⟩
    · have hslice : buffer.slice? offset (offset + length) =
          some ((buffer.drop offset).take length) := by
        rw [Bytes.slice?_of_le (Nat.le_add_right _ _) (Nat.not_lt.1 hrange), List.drop_take,
          Nat.add_sub_cancel_left]
      rw [if_neg hrange, if_neg hrange, hslice]
      exact follows_append hw h

theorem follows_writeByte (hw : w.Bounded) (h : Mirrors m w) (byte : UInt8) :
    Follows (m.writeByte? byte) (w.writeByte byte) := by
  have hlength := h.length_pending
  unfold writeByte? writeByte
  rw [h.unusable?]
  cases m.unusable? with
  | some e => exact ⟨m, rfl, h⟩
  | none =>
    simp only
    -- whether or not a block has to be sent first, there is room for the byte then
    have hstore : ∀ {m₁ : InPlace} {w₁ : Writer}, Mirrors m₁ w₁ →
        w₁.pending.length + [byte].length ≤ w₁.blockSize →
        Follows (do
          let m ← m₁.store? [byte]
          some (.ok (), m)) (.ok (), w₁.accept [byte]) := by
      intro m₁ w₁ hm₁ hroom
      rw [hm₁.length_pending, hm₁.blockSize] at hroom
      obtain ⟨m₂, hstored, hm₂⟩ := mirrors_store hm₁ hroom
      rw [hstored]
      exact ⟨m₂, rfl, hm₂⟩
    rw [hlength, h.blockSize]
    by_cases hfull : m.cursor = m.uncompressed.length
    · rw [if_pos hfull, if_pos hfull]
      refine follows_andThen (g := fun w => (.ok (), w.accept [byte])) (follows_dump h) ?_
      intro m₁ w₁ hemit hm₁
      exact hstore hm₁ (room_of_emit_ok hw hemit byte)
    · rw [if_neg hfull, if_neg hfull]
      apply hstore h
      apply room_of_free hw
      rw [hlength, h.blockSize]
      exact hfull

theorem follows_writeElements (hw : w.Bounded) (h : Mirrors m w) (t : ElementType)
    (array : List t.Word) (offset count : Nat) :
    Follows (m.writeElements? t array offset count) (w.writeElements t array offset count) := by
  unfold writeElements? writeElements
  cases t.byteRange? array.length offset count with
  | none => exact ⟨m, rfl, h⟩
  | some range => exact follows_writeBytes hw h _ _ _

theorem follows_flush (h : Mirrors m w) : Follows m.flush? w.flush := by
  unfold flush? flush
  rw [h.unusable?]
  cases m.unusable? with
  | some e => exact ⟨m, rfl, h⟩
  | none =>
    refine follows_andThen (g := flushSink) (follows_dump h) ?_
    intro m₁ w₁ _ hm₁
    unfold flushSink
    rw [hm₁.sink]
    rcases m₁.sink.flush with ⟨failure | _, sink⟩
    · exact ⟨_, rfl, { hm₁ with sink := rfl, phase := rfl }⟩
    · exact ⟨_, rfl, { hm₁ with sink := rfl }⟩

theorem Mirrors.letGo (h : Mirrors m w) : Mirrors { m with phase := .closed } w.letGo :=
  { h with phase := rfl }

theorem follows_close (h : Mirrors m w) : Follows m.close? w.close := by
  unfold close? close
  rw [h.phase]
  cases m.phase with
  | closed => exact ⟨m, rfl, h⟩
  | broken => exact ⟨_, rfl, h.letGo⟩
  | accepting =>
    obtain ⟨m₁, hflush, hm₁⟩ := follows_flush h
    simp only [hflush, Option.bind_eq_bind, Option.bind_some]
    exact ⟨_, rfl, hm₁.letGo⟩

theorem mirrors_drop (h : Mirrors m w) : ∃ m', m.drop? = some m' ∧ Mirrors m' w.drop := by
  unfold drop? drop
  rw [h.phase]
  by_cases hphase : m.phase = .accepting
  · obtain ⟨m₁, hclose, hm₁⟩ := follows_close h
    rw [if_pos hphase, if_pos hphase, hclose]
    exact ⟨m₁, rfl, hm₁⟩
  · rw [if_neg hphase, if_neg hphase]
    exact ⟨m, rfl, h⟩

theorem follows_finish (h : Mirrors m w) : Follows m.finish? w.finish := by
  have hflush := follows_flush h
  unfold finish? finish
  generalize w.flush = outcome at hflush ⊢
  obtain ⟨e | _, w₁⟩ := outcome
  · obtain ⟨m₁, hflush, hm₁⟩ := hflush
    obtain ⟨m₂, hdrop, hm₂⟩ := mirrors_drop hm₁
    simp only [hflush, hdrop, Option.bind_eq_bind, Option.bind_some]
    exact ⟨m₂, rfl, hm₂⟩
  · obtain ⟨m₁, hflush, hm₁⟩ := hflush
    simp only [hflush, Option.bind_eq_bind, Option.bind_some]
    exact ⟨_, rfl, hm₁.letGo⟩

theorem follows_operate (hw : w.Bounded) (h : Mirrors m w) (c : Call) :
    Follows (c.operate? m) (c.operate w) := by
  cases c with
  | writeBytes buffer offset length => exact follows_writeBytes hw h buffer offset length
  | writeByte byte => exact follows_writeByte hw h byte
  | writeElements t array offset count => exact follows_writeElements hw h t array offset count
  | writeAllElements t array => exact follows_writeElements hw h t array 0 array.length
  | write buffer => exact follows_writeBytes hw h buffer 0 buffer.length
  | flush | flushIo => exact follows_flush h
  | close => exact follows_close h
  | finish => exact follows_finish h
  | drop =>
    obtain ⟨m', hdrop, hm'⟩ := mirrors_drop h
    refine ⟨m', ?_, hm'⟩
    show m.drop?.map _ = _
    rw [hdrop]
    rfl

/-- No session traps, and all that is told in it is what a writer of sequences tells. -/
theorem follows_perform (hw : w.Bounded) (h : Mirrors m w) (calls : List Call) :
    ∃ m', m.perform? calls = some ((w.perform calls).1, m') ∧ Mirrors m' (w.perform calls).2 := by
  induction calls generalizing m w with
  | nil => exact ⟨m, rfl, h⟩
  | cons c calls ih =>
    obtain ⟨m₁, hcall, hm₁⟩ := follows_operate hw h c
    obtain ⟨m₂, hrest, hm₂⟩ := ih ((operate_moves hw c).bounded hw) hm₁
    refine ⟨m₂, ?_, ?_⟩
    · simp only [perform?, hcall, hrest, Option.bind_eq_bind, Option.bind_some, perform_cons]
    · rw [perform_cons]
      exact hm₂

/-- Wherever a writer is created, one in place is, with nothing pending and with the room that the
codec asks for. -/
theorem exists_mirror {sink start : Sink} {codec : Codec} {blockSize : Nat}
    (hcreate : Writer.create sink codec blockSize = (.ok w, start)) :
    ∃ m, create sink codec blockSize = (.ok m, start) ∧ Mirrors m w := by
  unfold Writer.create at hcreate
  split at hcreate
  · cases hcreate
  next hsize =>
  rw [create, if_neg hsize]
  generalize (Header.current codec.id).writeTo sink = outcome at hcreate ⊢
  obtain ⟨e | _, s⟩ := outcome
  · cases hcreate
  · cases hcreate
    refine ⟨_, rfl, ?_⟩
    constructor
    · rfl
    · exact List.length_replicate.symm
    · exact Nat.zero_le _
    · exact List.take_zero.symm
    · exact (Bytes.resized_nil _).symm
    · rfl
    · rfl
    · rfl
    · rfl

end InPlace

end Writer

end FramedStream
