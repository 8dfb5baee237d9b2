import FramedStream.Proofs.Writer.Call
import Mathlib.Logic.Relation

/-!
# What a writer can do

However long a call is, a writer does one of seven things at a time (`Move`): it takes bytes, is
refused by the codec, sends a record or fails to, flushes its sink or fails to, or lets go of it.
`Writer.perform_moves` is the only place where this is read off the operations; what holds of a
writer in all states is then looked at for each move once.

* `Bounded`: the pending bytes fit into one block;
* `append_of_lt`, `append_of_le` and `append_induct` are the loop that gathers bytes, one round at
  a time;
* `emits` says how the sending of a block ends;
* `Reaches.grows`: what has arrived at the sink stays there;
* `Booked`: the books of a writer agree with what it has sent.
-/

namespace FramedStream

namespace Writer

/-- A writer whose pending bytes fit into one block, or fill it. -/
structure Bounded (w : Writer) : Prop where
  positive : 0 < w.blockSize
  pending : w.pending.length ≤ w.blockSize

/-! ### Sending a block -/

/-- Compressing changes nothing but the room for the compressed block and the count of calls. -/
theorem pack_snd (w : Writer) : w.pack.2 = w.tried w.pack.2.scratch := by
  unfold pack
  cases w.codec.compress w.compressCalls w.pending w.room with
  | error e => rfl
  | ok output =>
    simp only
    split <;> rfl

section Pack

variable (w : Writer)

@[simp] theorem pack_phase : w.pack.2.phase = w.phase := by rw [pack_snd, tried]

@[simp] theorem pack_sink : w.pack.2.sink = w.sink := by rw [pack_snd, tried]

@[simp] theorem pack_pending : w.pack.2.pending = w.pending := by rw [pack_snd, tried]

@[simp] theorem pack_blockSize : w.pack.2.blockSize = w.blockSize := by rw [pack_snd, tried]

@[simp] theorem pack_stats : w.pack.2.stats = w.stats := by rw [pack_snd, tried]

end Pack

/-- How the sending of the pending bytes ends. -/
inductive Emits (w : Writer) : Except Error Unit × Writer → Prop
  | nothing (pending : w.pending = []) : Emits w (.ok (), w)
  | refused {e : Error} (pending : w.pending ≠ []) (pack : w.pack.1 = .error e) :
      Emits w (.error e, w.pack.2)
  | sent {payload : Bytes} {s : Sink} (pending : w.pending ≠ []) (pack : w.pack.1 = .ok payload)
      (write : w.sink.writeRecord payload = (.ok (), s)) :
      Emits w (.ok (), w.pack.2.emitted s payload)
  | torn {payload : Bytes} {failure : IoFailure} {s : Sink} (pending : w.pending ≠ [])
      (pack : w.pack.1 = .ok payload)
      (write : w.sink.writeRecord payload = (.error failure, s)) :
      Emits w (.error (.io failure), w.pack.2.breakOff s)

theorem emits (w : Writer) : Emits w w.emit := by
  unfold emit
  split
  · next h => exact .nothing (List.isEmpty_iff.1 h)
  next h =>
  have hne : w.pending ≠ [] := by simpa using h
  split
  · next e w₁ hpack =>
    have hsnd : w.pack.2 = w₁ := congrArg Prod.snd hpack
    exact hsnd ▸ .refused hne (congrArg Prod.fst hpack)
  next payload w₁ hpack =>
  have hfst : w.pack.1 = .ok payload := congrArg Prod.fst hpack
  have hsnd : w.pack.2 = w₁ := congrArg Prod.snd hpack
  rw [← hsnd, putRecord, pack_sink]
  split
  · next s hwrite => exact .sent hne hfst hwrite
  · next failure s hwrite => exact .torn hne hfst hwrite

/-! ### The loop that gathers bytes -/

/-- The next operation, unless there is an error. -/
def andThen (outcome : Except Error Unit × Writer) (f : Writer → Except Error Unit × Writer) :
    Except Error Unit × Writer :=
  match outcome with
  | (.ok (), w) => f w
  | (.error e, w) => (.error e, w)

@[simp] theorem accept_nil (w : Writer) : w.accept [] = w := by
  simp [accept]

/-- A writer that has sent what was pending may take a whole block. -/
theorem emit_ok {w w' : Writer} (h : w.emit = (.ok (), w')) :
    w'.pending = [] ∧ w'.blockSize = w.blockSize ∧ w'.phase = w.phase := by
  have hemits := emits w
  rw [h] at hemits
  cases hemits with
  | nothing pending => exact ⟨pending, rfl, rfl⟩
  | sent => exact ⟨rfl, by simp [emitted], by simp [emitted]⟩

/-- There is room for a byte once a block has been sent. -/
theorem room_of_emit_ok {w w' : Writer} (hw : w.Bounded) (h : w.emit = (.ok (), w'))
    (byte : UInt8) : w'.pending.length + [byte].length ≤ w'.blockSize := by
  obtain ⟨hnil, hsize, -⟩ := emit_ok h
  rw [hnil, hsize]
  exact hw.positive

theorem room_of_free {w : Writer} (hw : w.Bounded) (hfree : ¬w.pending.length = w.blockSize)
    (byte : UInt8) : w.pending.length + [byte].length ≤ w.blockSize := by
  have := hw.pending
  rw [List.length_singleton]
  omega

/-- Where nothing is to be sent, no bytes are no matter either. -/
theorem gather_eq_append {w : Writer} (hw : w.pending.length < w.blockSize) (bytes : Bytes) :
    gather ((w.pending.length + bytes.length) / w.blockSize) w bytes = w.append bytes := by
  unfold append
  split
  · next h =>
    rw [List.isEmpty_iff.1 h, List.length_nil, Nat.add_zero, Nat.div_eq_of_lt hw, gather,
      accept_nil]
  · rfl

/-- Bytes that complete no block wait. -/
theorem append_of_lt {w : Writer} {bytes : Bytes}
    (hlt : w.pending.length + bytes.length < w.blockSize) :
    w.append bytes = (.ok (), w.accept bytes) := by
  have hfree : w.pending.length < w.blockSize := by omega
  rw [← gather_eq_append hfree, Nat.div_eq_of_lt hlt, gather]

/-- A block is complete with the first of the bytes, and the others complete one less. -/
theorem div_of_le {size pending count : Nat} (hpos : 0 < size) (hpending : pending ≤ size)
    (hle : size ≤ pending + count) :
    (pending + count) / size = (count - (size - pending)) / size + 1 := by
  rw [← Nat.add_div_right _ hpos]
  congr 1
  omega

/-- One round of the loop. The bytes of a round fill the block up; they are none if the block was
complete before. -/
theorem append_of_le {w : Writer} (hw : w.Bounded) {bytes : Bytes} (hne : bytes ≠ [])
    (hle : w.blockSize ≤ w.pending.length + bytes.length) :
    w.append bytes =
      andThen (w.accept (bytes.take (w.blockSize - w.pending.length))).emit fun w₁ =>
        w₁.append (bytes.drop (w.blockSize - w.pending.length)) := by
  have hpos := hw.positive
  have hpending := hw.pending
  -- the count of rounds is that of the blocks that get complete, and this is one of them
  have hcount := div_of_le hpos hpending hle
  rw [append, if_neg (by simpa using hne), hcount, gather]
  rcases hemit : (w.accept (bytes.take (w.blockSize - w.pending.length))).emit with ⟨_ | _, w₁⟩
  · rfl
  · obtain ⟨hnil, hsize, -⟩ := emit_ok hemit
    have hfree : w₁.pending.length < w₁.blockSize := by
      rw [hnil, hsize]
      exact hpos
    simp only [andThen]
    rw [← gather_eq_append hfree, hnil, hsize, List.length_nil, Nat.zero_add, List.length_drop]
    rfl

/-- What holds of the loop if it holds where the loop ends and is passed on from each round to the
one before. -/
theorem append_induct {motive : Writer → Bytes → Prop} (nil : ∀ w, motive w [])
    (wait : ∀ {w bytes}, w.pending.length + bytes.length < w.blockSize → motive w bytes)
    (round : ∀ {w bytes}, w.Bounded → bytes ≠ [] →
      w.blockSize ≤ w.pending.length + bytes.length →
      w.pending.length + (bytes.take (w.blockSize - w.pending.length)).length = w.blockSize →
      (∀ w₁, (w.accept (bytes.take (w.blockSize - w.pending.length))).emit = (.ok (), w₁) →
        motive w₁ (bytes.drop (w.blockSize - w.pending.length))) →
      motive w bytes)
    {w : Writer} (hw : w.Bounded) (bytes : Bytes) : motive w bytes := by
  -- each round but the last leaves fewer bytes pending and given
  obtain ⟨size, hsize⟩ : ∃ size, size = w.pending.length + bytes.length := ⟨_, rfl⟩
  induction size using Nat.strongRecOn generalizing w bytes with
  | ind size ih =>
    have hpos := hw.positive
    have hpending := hw.pending
    by_cases hne : bytes = []
    · exact hne ▸ nil w
    by_cases hlt : w.pending.length + bytes.length < w.blockSize
    · exact wait hlt
    refine round hw hne (Nat.not_lt.1 hlt) ?_ fun w₁ hemit => ?_
    · rw [List.length_take]
      omega
    · obtain ⟨hnil, hblockSize, -⟩ := emit_ok hemit
      have hbounded : w₁.Bounded := ⟨hblockSize ▸ hpos, by rw [hnil]; exact Nat.zero_le _⟩
      refine ih _ ?_ hbounded _ rfl
      rw [hnil, List.length_drop, List.length_nil]
      omega

/-! ### Moves -/

/-- One thing that a writer does. All but the last it does only while it accepts. -/
inductive Move (w : Writer) : Writer → Prop
  | accept (bytes : Bytes) (usable : w.phase = .accepting)
      (room : w.pending.length + bytes.length ≤ w.blockSize) : Move w (w.accept bytes)
  | refused {e : Error} (usable : w.phase = .accepting) (pending : w.pending ≠ [])
      (pack : w.pack.1 = .error e) : Move w w.pack.2
  | sent {payload : Bytes} {s : Sink} (usable : w.phase = .accepting) (pending : w.pending ≠ [])
      (pack : w.pack.1 = .ok payload) (write : w.sink.writeRecord payload = (.ok (), s)) :
      Move w (w.pack.2.emitted s payload)
  | torn {payload : Bytes} {failure : IoFailure} {s : Sink} (usable : w.phase = .accepting)
      (pending : w.pending ≠ []) (pack : w.pack.1 = .ok payload)
      (write : w.sink.writeRecord payload = (.error failure, s)) : Move w (w.pack.2.breakOff s)
  | flushed {s : Sink} (usable : w.phase = .accepting) (flush : w.sink.flush = (.ok (), s)) :
      Move w { w with sink := s }
  | lost {failure : IoFailure} {s : Sink} (usable : w.phase = .accepting)
      (flush : w.sink.flush = (.error failure, s)) : Move w (w.breakOff s)
  | letGo : Move w w.letGo

/-- Any number of moves. -/
abbrev Reaches : Writer → Writer → Prop := Relation.ReflTransGen Move

variable {w w' : Writer}

theorem Move.bounded (h : Move w w') (hw : w.Bounded) : w'.Bounded := by
  cases h with
  | accept bytes usable room => exact ⟨hw.positive, by rwa [Writer.accept, List.length_append]⟩
  | refused => exact ⟨by simpa using hw.positive, by simpa using hw.pending⟩
  | sent => exact ⟨by simpa [emitted] using hw.positive, Nat.zero_le _⟩
  | torn => exact ⟨by simpa [breakOff] using hw.positive, by simpa [breakOff] using hw.pending⟩
  | flushed | lost | letGo => exact ⟨hw.positive, hw.pending⟩

theorem Reaches.bounded (h : Reaches w w') (hw : w.Bounded) : w'.Bounded := by
  induction h with
  | refl => exact hw
  | tail _ hmove ih => exact hmove.bounded ih

theorem accept_moves (usable : w.phase = .accepting) {bytes : Bytes}
    (room : w.pending.length + bytes.length ≤ w.blockSize) : Reaches w (w.accept bytes) :=
  .single (.accept bytes usable room)

theorem emit_moves (usable : w.phase = .accepting) : Reaches w w.emit.2 := by
  have h := emits w
  generalize w.emit = outcome at h
  cases h with
  | nothing => exact .refl
  | refused pending pack => exact .single (.refused usable pending pack)
  | sent pending pack write => exact .single (.sent usable pending pack write)
  | torn pending pack write => exact .single (.torn usable pending pack write)

theorem andThen_moves {x : Except Error Unit × Writer} {f : Writer → Except Error Unit × Writer}
    (hx : Reaches w x.2) (hf : ∀ {w₁}, x = (.ok (), w₁) → Reaches w₁ (f w₁).2) :
    Reaches w (andThen x f).2 := by
  obtain ⟨_ | _, w₁⟩ := x
  · exact hx
  · exact hx.trans (hf rfl)

theorem append_moves (hw : w.Bounded) (usable : w.phase = .accepting) (bytes : Bytes) :
    Reaches w (w.append bytes).2 := by
  refine append_induct
    (motive := fun w bytes => w.phase = .accepting → Reaches w (w.append bytes).2)
    (fun w _ => .refl) (fun hlt usable => ?_) (fun hw hne hle hfill ih usable => ?_) hw bytes usable
  · rw [append_of_lt hlt]
    exact accept_moves usable (Nat.le_of_lt hlt)
  · rw [append_of_le hw hne hle]
    refine andThen_moves ((accept_moves usable (Nat.le_of_eq hfill)).trans (emit_moves usable)) ?_
    exact fun hok => ih _ hok ((emit_ok hok).2.2.trans usable)

theorem writeBytes_moves (hw : w.Bounded) (buffer : Bytes) (offset length : Nat) :
    Reaches w (w.writeBytes buffer offset length).2 := by
  unfold writeBytes
  split
  · exact .refl
  next husable =>
  split
  · exact .refl
  · exact append_moves hw (accepting_of_usable husable) _

theorem writeByte_moves (hw : w.Bounded) (byte : UInt8) : Reaches w (w.writeByte byte).2 := by
  unfold writeByte
  split
  · exact .refl
  next husable =>
  have usable := accepting_of_usable husable
  split
  · next hfull =>
    refine andThen_moves (f := fun w₁ => (.ok (), w₁.accept [byte])) (emit_moves usable) ?_
    exact fun hok => accept_moves ((emit_ok hok).2.2.trans usable) (room_of_emit_ok hw hok byte)
  · next hfree => exact accept_moves usable (room_of_free hw hfree byte)

theorem writeElements_moves (hw : w.Bounded) (t : ElementType) (array : List t.Word)
    (offset count : Nat) : Reaches w (w.writeElements t array offset count).2 := by
  unfold writeElements
  split
  · exact .refl
  · exact writeBytes_moves hw _ _ _

theorem flushSink_moves (usable : w.phase = .accepting) : Reaches w w.flushSink.2 := by
  unfold flushSink
  split
  · next s hflush => exact .single (.flushed usable hflush)
  · next failure s hflush => exact .single (.lost usable hflush)

theorem flush_moves (w : Writer) : Reaches w w.flush.2 := by
  unfold flush
  split
  · exact .refl
  next husable =>
  have usable := accepting_of_usable husable
  exact andThen_moves (f := flushSink) (emit_moves usable) fun hok =>
    flushSink_moves ((emit_ok hok).2.2.trans usable)

theorem close_moves (w : Writer) : Reaches w w.close.2 := by
  unfold close
  split
  · exact .refl
  · exact .single .letGo
  · exact (flush_moves w).tail .letGo

theorem drop_moves (w : Writer) : Reaches w w.drop := by
  unfold drop
  split
  · exact close_moves w
  · exact .refl

theorem finish_moves (w : Writer) : Reaches w w.finish.2 := by
  have hflush := flush_moves w
  unfold finish
  split
  · next w₁ heq =>
    rw [heq] at hflush
    exact hflush.tail .letGo
  · next e w₁ heq =>
    rw [heq] at hflush
    exact hflush.trans (drop_moves w₁)

/-- Every call is made of moves. -/
theorem operate_moves (hw : w.Bounded) (c : Call) : Reaches w (c.operate w).2 := by
  cases c with
  | writeBytes buffer offset length => exact writeBytes_moves hw _ _ _
  | writeByte byte => exact writeByte_moves hw byte
  | writeElements t array offset count => exact writeElements_moves hw _ _ _ _
  | writeAllElements t array => exact writeElements_moves hw _ _ _ _
  | write buffer => exact writeBytes_moves hw _ _ _
  | flush | flushIo => exact flush_moves w
  | close => exact close_moves w
  | finish => exact finish_moves w
  | drop => exact drop_moves w

theorem perform_moves (hw : w.Bounded) (calls : List Call) : Reaches w (w.perform calls).2 := by
  induction calls generalizing w with
  | nil => exact .refl
  | cons c calls ih =>
    have hcall := operate_moves hw c
    rw [perform_cons]
    exact hcall.trans (ih (Reaches.bounded hcall hw))

/-! ### What has arrived -/

/-- What has arrived at the sink stays there, and more comes only behind it. -/
theorem Move.grows (h : Move w w') : w.sink.toList <+: w'.sink.toList := by
  cases h with
  | accept | letGo => exact List.prefix_rfl
  | refused =>
    exact (pack_sink w).symm ▸ List.prefix_rfl
  | sent _ _ _ write => exact (Sink.writeRecord_ok write).1 ▸ List.prefix_append _ _
  | torn _ _ _ write =>
    obtain ⟨taken, -, -, contents, -⟩ := Sink.writeRecord_error write
    exact contents ▸ List.prefix_append _ _
  | flushed _ flush =>
    exact (Sink.flush_ok flush).1 ▸ List.prefix_rfl
  | lost _ flush =>
    exact (Sink.flush_error flush).1 ▸ List.prefix_rfl

theorem Reaches.grows (h : Reaches w w') : w.sink.toList <+: w'.sink.toList := by
  induction h with
  | refl => exact List.prefix_rfl
  | tail _ hmove ih => exact ih.trans hmove.grows

/-! ### The books -/

/-- The records of blocks that were sent, each given by its raw bytes and its payload. -/
def recordsOf (sent : List (Bytes × Bytes)) : Bytes := sent.flatMap fun block => record block.2

/-- The books of a writer agree with the blocks it has sent behind `front`. As long as its sink has
failed no more often than `failures` times, these are all that the sink holds, and so it is while
the writer accepts. -/
structure Booked (front : Bytes) (failures : Nat) (sent : List (Bytes × Bytes)) (w : Writer) :
    Prop where
  blocks : w.stats.blocks = sent.length
  rawBytes : w.stats.rawBytes = (sent.flatMap Prod.fst).length + w.pending.length
  framedBytes : w.stats.framedBytes = headerSize + (recordsOf sent).length
  arrived : front ++ recordsOf sent <+: w.sink.toList
  exact : w.sink.failures = failures → w.sink.toList = front ++ recordsOf sent
  faultless : w.phase = .accepting → w.sink.failures = failures
  counted : failures ≤ w.sink.failures

variable {front : Bytes} {failures : Nat} {sent : List (Bytes × Bytes)}

@[simp] theorem recordsOf_append (xs ys : List (Bytes × Bytes)) :
    recordsOf (xs ++ ys) = recordsOf xs ++ recordsOf ys :=
  List.flatMap_append

@[simp] theorem recordsOf_singleton (raw payload : Bytes) :
    recordsOf [(raw, payload)] = record payload := by
  simp [recordsOf]

/-- A writer that breaks off has sent what it had sent before. -/
theorem Booked.breakOff (h : Booked front failures sent w) {s : Sink}
    (hgrows : w.sink.toList <+: s.toList) (hfailures : s.failures = w.sink.failures + 1) :
    Booked front failures sent (w.breakOff s) where
  blocks := h.blocks
  rawBytes := h.rawBytes
  framedBytes := h.framedBytes
  arrived := h.arrived.trans hgrows
  exact heq := by
    have hcounted := h.counted
    have heq' : s.failures = failures := heq
    omega
  faultless hphase := by cases hphase
  counted := by
    have hcounted := h.counted
    show failures ≤ s.failures
    omega

theorem Booked.accept (h : Booked front failures sent w) (bytes : Bytes) :
    Booked front failures sent (w.accept bytes) :=
  { h with rawBytes := by simp [Writer.accept, h.rawBytes, Nat.add_assoc] }

theorem Booked.tried (h : Booked front failures sent w) (scratch : Buffer) :
    Booked front failures sent (w.tried scratch) :=
  { h with }

/-- A record that is all written is put on the books. -/
theorem Booked.emitted (h : Booked front failures sent w) (usable : w.phase = .accepting)
    {payload : Bytes} {s : Sink} (hcontents : s.toList = w.sink.toList ++ record payload)
    (hfailures : s.failures = w.sink.failures) :
    Booked front failures (sent ++ [(w.pending, payload)]) (w.emitted s payload) := by
  -- while the writer accepts, the sink holds just what is on the books
  have hlist : s.toList = front ++ recordsOf (sent ++ [(w.pending, payload)]) := by
    rw [hcontents, h.exact (h.faultless usable), recordsOf_append, recordsOf_singleton,
      List.append_assoc]
  exact
    { blocks := by simp [Writer.emitted, h.blocks]
      rawBytes := by simp [Writer.emitted, h.rawBytes]
      framedBytes := by simp [Writer.emitted, h.framedBytes, Nat.add_assoc]
      arrived := hlist ▸ List.prefix_rfl
      exact := fun _ => hlist
      faultless := fun _ => hfailures.trans (h.faultless usable)
      counted := hfailures ▸ h.counted }

theorem Booked.letGo (h : Booked front failures sent w) : Booked front failures sent w.letGo :=
  { h with faultless := fun hphase => by cases hphase }

/-- A flush that succeeds is none of the books' business. -/
theorem Booked.flushed (h : Booked front failures sent w) {s : Sink}
    (hcontents : s.toList = w.sink.toList) (hfailures : s.failures = w.sink.failures) :
    Booked front failures sent { w with sink := s } :=
  { h with
    arrived := hcontents ▸ h.arrived
    exact := fun heq => hcontents.trans (h.exact (hfailures.symm.trans heq))
    faultless := fun hphase => hfailures.trans (h.faultless hphase)
    counted := hfailures ▸ h.counted }

end Writer

end FramedStream
