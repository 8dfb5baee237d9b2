import FramedStream.Proofs.Writer.Moves
import FramedStream.Proofs.Writer.Reference

/-!
# What a writer has accepted

The codec may be anything, one that fails now and then included. A block that it refuses stays
pending, and the next call that needs the room for it asks the codec once more. So no byte is lost,
sent twice or moved, whichever attempts fail.

* `Codec.Makes` and `Codec.Fails` are the two ends of an attempt, `Codec.MakesAll` a row of attempts
  none of which failed;
* `Writer.Sends`: the blocks that were sent since, and what is pending, are what was pending and
  what was taken;
* `Writer.Ran` says how an operation ends: its attempts all succeeded, or the last one failed and
  its error is that of the operation, or the sink failed;
* `Writer.accepted` are the bytes that calls have accepted, as their callers can tell, and
  `Writer.perform_sends` says that a writer that is still open sends these.
-/

namespace FramedStream

/-! ### Attempts -/

/-- What a codec has put into the room is seen at its front. -/
theorem Output.take_prefix_into (o : Output) (buffer : Buffer) {room count : Nat}
    (hcount : count ≤ room) : o.bytes.take count <+: (o.into buffer room room).take count := by
  have hfits : (o.bytes.take room).length ≤ room := List.length_take_le _ _
  rw [into, Buffer.take_eq, buffer.toList_refill hfits, List.take_append, List.take_take,
    Nat.min_eq_left hcount]
  exact List.prefix_append _ _

namespace Codec

/-- An attempt to compress a block succeeds: the payload has the size that the codec reports, which
fits the room and the length field, and starts with what the codec has put there. -/
def Makes (c : Codec) (call : Nat) (raw : Bytes) (room : Nat) (payload : Bytes) : Prop :=
  ∃ output, c.compress call raw room = .ok output ∧ output.reported ≤ room ∧
    output.reported < 2 ^ 32 ∧ payload.length = output.reported ∧
    output.bytes.take output.reported <+: payload

/-- An attempt to compress a block fails: the codec says so, or reports a size that cannot be. -/
inductive Fails (c : Codec) (call : Nat) (raw : Bytes) (room : Nat) : Error → Prop
  | refused {e : Error} (compress : c.compress call raw room = .error e) : Fails c call raw room e
  | oversized {output : Output} (compress : c.compress call raw room = .ok output)
      (large : room < output.reported ∨ 2 ^ 32 ≤ output.reported) :
      Fails c call raw room (.codec c.name
        s!"compressed size {output.reported} exceeds the declared bound {room}")

/-- Blocks, each with its payload, of which successive attempts from `first` on all succeed. -/
def MakesAll (c : Codec) (room : Nat) : (first : Nat) → List (Bytes × Bytes) → Prop
  | _, [] => True
  | first, (raw, payload) :: blocks =>
      c.Makes first raw room payload ∧ MakesAll c room (first + 1) blocks

variable {c : Codec} {room first : Nat} {xs ys : List (Bytes × Bytes)}

theorem MakesAll.append (hxs : c.MakesAll room first xs)
    (hys : c.MakesAll room (first + xs.length) ys) : c.MakesAll room first (xs ++ ys) := by
  induction xs generalizing first with
  | nil => exact hys
  | cons block xs ih =>
    rw [List.length_cons, Nat.add_comm xs.length, ← Nat.add_assoc] at hys
    exact ⟨hxs.1, ih hxs.2 hys⟩

end Codec

namespace Writer

theorem makes_of_pack {w : Writer} {payload : Bytes} (h : w.pack.1 = .ok payload) :
    w.codec.Makes w.compressCalls w.pending w.room payload := by
  simp only [pack] at h
  split at h
  · cases h
  next output hcompress =>
  split at h
  · cases h
  next hsize =>
  rw [oversized_iff, not_or] at hsize
  obtain ⟨hroom, hfield⟩ := hsize
  have hroom := Nat.not_lt.1 hroom
  cases h
  exact ⟨output, hcompress, hroom, Nat.not_le.1 hfield,
    output.length_take_into w.scratch (Nat.le_refl _) hroom,
    output.take_prefix_into w.scratch hroom⟩

theorem fails_of_pack {w : Writer} {e : Error} (h : w.pack.1 = .error e) :
    w.codec.Fails w.compressCalls w.pending w.room e := by
  simp only [pack] at h
  split at h
  · next hcompress =>
    cases h
    exact .refused hcompress
  next output hcompress =>
  split at h
  · next hsize =>
    cases h
    exact .oversized hcompress (oversized_iff.1 hsize)
  · cases h

/-! ### Operations -/

/-- The writer after it took some bytes and sent some blocks, each given by its raw bytes and its
payload. -/
structure Sends (taken : Bytes) (sent : List (Bytes × Bytes)) (w w' : Writer) : Prop where
  codec : w'.codec = w.codec
  blockSize : w'.blockSize = w.blockSize
  phase : w'.phase = w.phase
  bounded : w'.Bounded
  contents : w'.sink.toList = w.sink.toList ++ recordsOf sent
  carried : sent.flatMap Prod.fst ++ w'.pending = w.pending ++ taken
  rawBytes : w'.stats.rawBytes = w.stats.rawBytes + taken.length
  sizes : ∀ block ∈ sent, 1 ≤ block.1.length ∧ block.1.length ≤ w.blockSize
  made : ∀ block ∈ sent, ∃ call, w.codec.Makes call block.1 w.room block.2
  neverFails : w.sink.NeverFails → w'.sink.NeverFails

/-- How an operation ends that may take all of its input and ask the codec. -/
inductive Ran (w : Writer) (input : Bytes) : Except Error Unit × Writer → Prop
  /-- Every attempt has succeeded. -/
  | done {sent : List (Bytes × Bytes)} {w' : Writer} (sends : Sends input sent w w')
      (made : w.codec.MakesAll w.room w.compressCalls sent)
      (calls : w'.compressCalls = w.compressCalls + sent.length) : Ran w input (.ok (), w')
  /-- An attempt has failed, which was the last one. Its block is still pending. -/
  | failed {taken : Bytes} {sent : List (Bytes × Bytes)} {e : Error} {w' : Writer}
      (part : taken <+: input) (sends : Sends taken sent w w')
      (made : w.codec.MakesAll w.room w.compressCalls sent)
      (fails : w.codec.Fails (w.compressCalls + sent.length) w'.pending w.room e)
      (pending : w'.pending ≠ [])
      (calls : w'.compressCalls = w.compressCalls + sent.length + 1) : Ran w input (.error e, w')
  /-- The sink has failed. -/
  | lost {e : Error} {w' : Writer} (faulty : ¬w.sink.NeverFails) (ended : w'.phase ≠ .accepting) :
      Ran w input (.error e, w')

variable {w w₁ w₂ w' : Writer} {taken taken₁ taken₂ input input' : Bytes}
  {sent sent₁ sent₂ : List (Bytes × Bytes)}

theorem Sends.refl (hw : w.Bounded) : Sends [] [] w w where
  codec := rfl
  blockSize := rfl
  phase := rfl
  bounded := hw
  contents := (List.append_nil _).symm
  carried := (List.append_nil _).symm
  rawBytes := rfl
  sizes := List.forall_mem_nil _
  made := List.forall_mem_nil _
  neverFails := id

theorem Sends.room (h : Sends taken sent w w') : w'.room = w.room := by
  rw [Writer.room, h.codec, h.blockSize, Writer.room]

theorem Sends.trans (h₁ : Sends taken₁ sent₁ w w₁) (h₂ : Sends taken₂ sent₂ w₁ w₂) :
    Sends (taken₁ ++ taken₂) (sent₁ ++ sent₂) w w₂ where
  codec := h₂.codec.trans h₁.codec
  blockSize := h₂.blockSize.trans h₁.blockSize
  phase := h₂.phase.trans h₁.phase
  bounded := h₂.bounded
  contents := by rw [h₂.contents, h₁.contents, recordsOf_append, List.append_assoc]
  carried := by
    rw [List.flatMap_append, List.append_assoc, h₂.carried, ← List.append_assoc, h₁.carried,
      List.append_assoc]
  rawBytes := by rw [h₂.rawBytes, h₁.rawBytes, List.length_append, Nat.add_assoc]
  sizes := List.forall_mem_append.2 ⟨h₁.sizes, h₁.blockSize ▸ h₂.sizes⟩
  made := by
    have hmade := h₂.made
    rw [h₁.codec, h₁.room] at hmade
    exact List.forall_mem_append.2 ⟨h₁.made, hmade⟩
  neverFails := h₂.neverFails ∘ h₁.neverFails

/-- Operations in sequence. -/
theorem Ran.andThen {x : Except Error Unit × Writer} (hx : Ran w input x)
    {f : Writer → Except Error Unit × Writer}
    (hf : ∀ {w₁}, x = (.ok (), w₁) → w₁.Bounded → Ran w₁ input' (f w₁)) :
    Ran w (input ++ input') (andThen x f) := by
  cases hx with
  | failed part sends made fails pending calls =>
    exact .failed (part.trans (List.prefix_append _ _)) sends made fails pending calls
  | lost faulty ended => exact .lost faulty ended
  | @done sent w₁ sends made calls =>
    have h := hf rfl sends.bounded
    show Ran w (input ++ input') (f w₁)
    generalize f w₁ = y at h
    -- the attempts of the second operation follow those of the first
    cases h with
    | @done sent' w' sends' made' calls' =>
      rw [sends.codec, sends.room, calls] at made'
      refine .done (sends.trans sends') (made.append made') ?_
      rw [calls', calls, List.length_append, Nat.add_assoc]
    | @failed taken sent' e w' part sends' made' fails pending calls' =>
      rw [sends.codec, sends.room, calls] at made' fails
      rw [Nat.add_assoc, ← List.length_append] at fails
      refine .failed ((List.prefix_append_right_inj _).2 part) (sends.trans sends')
        (made.append made') fails pending ?_
      rw [calls', calls, List.length_append, Nat.add_assoc w.compressCalls]
    | lost faulty ended => exact .lost (fun hsink => faulty (sends.neverFails hsink)) ended

theorem ran_refl (hw : w.Bounded) : Ran w [] (.ok (), w) :=
  .done (.refl hw) trivial rfl

theorem sends_accept (hw : w.Bounded) {bytes : Bytes}
    (hroom : w.pending.length + bytes.length ≤ w.blockSize) :
    Sends bytes [] w (w.accept bytes) :=
  { Sends.refl hw with
    bounded := ⟨hw.positive, by rwa [accept, List.length_append]⟩
    carried := rfl
    rawBytes := rfl }

theorem ran_accept (hw : w.Bounded) {bytes : Bytes}
    (hroom : w.pending.length + bytes.length ≤ w.blockSize) :
    Ran w bytes (.ok (), w.accept bytes) :=
  .done (sends_accept hw hroom) trivial rfl

/-- An attempt that fails sends nothing. -/
theorem sends_pack (hw : w.Bounded) : Sends [] [] w w.pack.2 := by
  rw [pack_snd]
  exact { Sends.refl hw with bounded := ⟨hw.positive, hw.pending⟩ }

/-- One that succeeds is followed by the record of the block. -/
theorem sends_emitted (hw : w.Bounded) {payload : Bytes} {s : Sink} (pending : w.pending ≠ [])
    (pack : w.pack.1 = .ok payload) (write : w.sink.writeRecord payload = (.ok (), s)) :
    Sends [] [(w.pending, payload)] w (w.pack.2.emitted s payload) := by
  have hmakes := makes_of_pack pack
  obtain ⟨hcontents, -⟩ := Sink.writeRecord_ok write
  rw [pack_snd]
  exact
    { codec := rfl
      blockSize := rfl
      phase := rfl
      bounded := ⟨hw.positive, Nat.zero_le _⟩
      contents := by rw [recordsOf_singleton, ← hcontents]; rfl
      carried := by simp [emitted]
      rawBytes := rfl
      sizes := List.forall_mem_singleton.2 ⟨List.length_pos_iff.2 pending, hw.pending⟩
      made := List.forall_mem_singleton.2 ⟨_, hmakes⟩
      neverFails := fun hsink => by
        obtain ⟨s', hwrite, hs', -⟩ := hsink.writeRecord payload
        cases hwrite.symm.trans write
        exact hs' }

@[simp] theorem pack_compressCalls (w : Writer) :
    w.pack.2.compressCalls = w.compressCalls + 1 := by
  rw [pack_snd, tried]

/-- A block is sent, or stays pending because the attempt fails. -/
theorem ran_emit (hw : w.Bounded) : Ran w [] w.emit := by
  have h := emits w
  generalize w.emit = outcome at h
  cases h with
  | nothing => exact ran_refl hw
  | refused pending pack =>
    refine .failed List.nil_prefix (sends_pack hw) trivial ?_ ?_ (pack_compressCalls w)
    · rw [pack_pending]
      exact fails_of_pack pack
    · rwa [pack_pending]
  | sent pending pack write =>
    exact .done (sends_emitted hw pending pack write) ⟨makes_of_pack pack, trivial⟩
      (pack_compressCalls w)
  | @torn payload failure s pending pack write =>
    refine .lost (fun hsink => ?_) (by simp [breakOff])
    obtain ⟨s', hwrite, -⟩ := hsink.writeRecord payload
    cases hwrite.symm.trans write

theorem ran_flushSink (hw : w.Bounded) : Ran w [] w.flushSink := by
  unfold flushSink
  split
  · next s hflush =>
    have hsends : Sends [] [] w { w with sink := s } :=
      { Sends.refl hw with
        bounded := ⟨hw.positive, hw.pending⟩
        contents := by rw [(Sink.flush_ok hflush).1]; exact (List.append_nil _).symm
        neverFails := fun hsink => by
          obtain ⟨s', hflush', hs', -⟩ := hsink.flush
          cases hflush'.symm.trans hflush
          exact hs' }
    exact .done hsends trivial rfl
  · next failure s hflush =>
    refine .lost (fun hsink => ?_) (by simp [breakOff])
    obtain ⟨s', hflush', -⟩ := hsink.flush
    cases hflush'.symm.trans hflush

/-- The loop that gathers bytes stops where an attempt fails, with the block complete. The next call
starts with that block, since there is no room for a byte. -/
theorem ran_append (hw : w.Bounded) (bytes : Bytes) : Ran w bytes (w.append bytes) := by
  refine append_induct (motive := fun w bytes => w.Bounded → Ran w bytes (w.append bytes))
    (fun w hw => ran_refl hw) ?_ ?_ hw bytes hw
  · intro w bytes hlt hw
    rw [append_of_lt hlt]
    exact ran_accept hw (Nat.le_of_lt hlt)
  · intro w bytes hw hne hle hfill ih _
    rw [append_of_le hw hne hle]
    have hround : Ran w (bytes.take (w.blockSize - w.pending.length))
        (w.accept (bytes.take (w.blockSize - w.pending.length))).emit := by
      have h := (ran_accept hw (Nat.le_of_eq hfill)).andThen fun _ hw₁ => ran_emit hw₁
      rwa [List.append_nil] at h
    have h := hround.andThen fun hok hw₁ => ih _ hok hw₁
    rwa [List.take_append_drop] at h

/-! ### Calls -/

theorem writeBytes_ran (hw : w.Bounded) (usable : w.phase = .accepting) (buffer : Bytes)
    (offset length : Nat) :
    Ran w ((buffer.drop offset).take length) (w.writeBytes buffer offset length) ∨
      ∃ refusal, w.writeBytes buffer offset length = (.error (.config refusal), w) := by
  simp only [writeBytes, unusable?, usable]
  split
  · exact .inr ⟨_, rfl⟩
  · exact .inl (ran_append hw _)

theorem writeByte_ran (hw : w.Bounded) (usable : w.phase = .accepting) (byte : UInt8) :
    Ran w [byte] (w.writeByte byte) := by
  simp only [writeByte, unusable?, usable]
  split
  · exact (ran_emit hw).andThen (f := fun w₁ => (.ok (), w₁.accept [byte]))
      fun hok hw₁ => ran_accept hw₁ (room_of_emit_ok hw hok byte)
  · next hfree => exact ran_accept hw (room_of_free hw hfree byte)

theorem writeElements_ran (hw : w.Bounded) (usable : w.phase = .accepting) (t : ElementType)
    (array : List t.Word) (offset count : Nat) :
    Ran w (t.bytesOf ((array.drop offset).take count)) (w.writeElements t array offset count) ∨
      ∃ refusal, w.writeElements t array offset count = (.error (.config refusal), w) := by
  simp only [writeElements, ElementType.byteRange?]
  split
  · exact .inr ⟨_, rfl⟩
  · next byteOffset byteLength hrange =>
    split at hrange
    · cases hrange
      have h := writeBytes_ran hw usable (t.bytesOf array) (offset * t.width) (count * t.width)
      rwa [t.drop_bytesOf, t.take_bytesOf] at h
    · cases hrange

theorem flush_ran (hw : w.Bounded) (usable : w.phase = .accepting) : Ran w [] w.flush := by
  simp only [flush, unusable?, usable]
  exact (ran_emit hw).andThen (f := flushSink) fun _ hw₁ => ran_flushSink hw₁

/-- A flush that succeeds leaves nothing pending. -/
theorem flush_ok (usable : w.phase = .accepting) (h : w.flush = (.ok (), w')) :
    w'.pending = [] := by
  simp only [flush, unusable?, usable] at h
  split at h
  · next w₁ hemit =>
    obtain ⟨hnil, -, -⟩ := emit_ok hemit
    simp only [flushSink] at h
    split at h
    · cases h
      exact hnil
    · cases h
  · cases h

/-- A call that does not end the writer is refused without any effect, or runs on what it is
given. -/
theorem operate_ran (hw : w.Bounded) (usable : w.phase = .accepting) {c : Call} (hc : ¬c.Ends) :
    Ran w (Item.bytes c.items) (c.operate w) ∨
      ∃ refusal, c.operate w = (.error (.config refusal), w) := by
  cases c with
  | writeBytes buffer offset length =>
    rw [Call.items, Item.bytes_ofBytes]
    exact writeBytes_ran hw usable buffer offset length
  | writeByte byte =>
    rw [Call.items, Item.bytes_ofBytes]
    exact .inl (writeByte_ran hw usable byte)
  | writeElements t array offset count =>
    rw [Call.items, Item.bytes_ofBytes]
    exact writeElements_ran hw usable t array offset count
  | writeAllElements t array =>
    have h := writeElements_ran hw usable t array 0 array.length
    rw [List.drop_zero, List.take_length] at h
    rwa [Call.items, Item.bytes_ofBytes]
  | write buffer =>
    have h := writeBytes_ran hw usable buffer 0 buffer.length
    rw [List.drop_zero, List.take_length] at h
    rwa [Call.items, Item.bytes_ofBytes]
  | flush | flushIo => exact .inl (flush_ran hw usable)
  | close | finish | drop => exact absurd trivial hc

/-- A writer that was ended is closed, or broken if its sink has failed. -/
theorem ended_operate {c : Call} (hc : c.Ends) (w : Writer) :
    (c.operate w).2.phase ≠ .accepting := by
  have hclose : w.close.2.phase ≠ .accepting := by
    unfold close
    split
    · next h => simp [h]
    · simp [letGo]
    · simp [letGo]
  cases c with
  | close => exact hclose
  | drop =>
    simp only [Call.operate, drop]
    split
    · exact hclose
    · next h => exact h
  | finish =>
    simp only [Call.operate, finish]
    split
    · simp [letGo]
    · next e w₁ _ =>
      simp only [drop]
      split
      · unfold close
        split
        · next h => simp [h]
        · simp [letGo]
        · simp [letGo]
      · next h => exact h
  | _ => exact hc.elim

end Writer

/-! ### What was accepted -/

/-- The bytes that a call has accepted, as its caller can tell: all it was given if it succeeds, and
else as many of them as the count of raw bytes has grown by. -/
def Call.accepted (c : Call) (w : Writer) : Bytes :=
  match (c.operate w).1 with
  | .ok () => Item.bytes c.items
  | .error _ => (Item.bytes c.items).take ((c.operate w).2.stats.rawBytes - w.stats.rawBytes)

namespace Writer

/-- The bytes that calls have accepted, one after the other. -/
def accepted (w : Writer) : List Call → Bytes
  | [] => []
  | c :: cs => c.accepted w ++ (c.operate w).2.accepted cs

variable {w w' : Writer}

/-- A call that leaves the writer open sends what it has accepted, or leaves it pending. -/
theorem operate_sends (hw : w.Bounded) (usable : w.phase = .accepting) {c : Call}
    (hopen : (c.operate w).2.phase = .accepting) :
    ∃ sent, Sends (c.accepted w) sent w (c.operate w).2 := by
  by_cases hc : c.Ends
  · exact absurd hopen (ended_operate hc w)
  rw [Call.accepted]
  rcases operate_ran hw usable hc with h | ⟨refusal, h⟩
  · generalize c.operate w = outcome at h hopen
    cases h with
    | done sends => exact ⟨_, sends⟩
    | failed part sends =>
      -- the count of raw bytes tells how much of the input was taken
      have htaken := List.prefix_iff_eq_take.1 part
      have hgrown := Nat.sub_eq_of_eq_add' sends.rawBytes
      simp only [hgrown, ← htaken]
      exact ⟨_, sends⟩
    | lost _ ended => exact absurd hopen ended
  · rw [h]
    simp only [Nat.sub_self, List.take_zero]
    exact ⟨[], .refl hw⟩

/-- As long as a writer is open, nothing that was accepted is lost, sent twice or moved. -/
theorem perform_sends (hw : w.Bounded) (usable : w.phase = .accepting) {calls : List Call}
    (hopen : (w.perform calls).2.phase = .accepting) :
    ∃ sent, Sends (w.accepted calls) sent w (w.perform calls).2 := by
  induction calls generalizing w with
  | nil => exact ⟨[], .refl hw⟩
  | cons c calls ih =>
    rw [perform_cons] at hopen ⊢
    -- a writer that is open in the end was open all the time
    have hmiddle : (c.operate w).2.phase = .accepting := by
      by_contra hended
      rcases perform_unusable hended calls with h | h
      · exact hended (h ▸ hopen)
      · rw [h] at hopen
        cases hopen
    obtain ⟨sent₁, h₁⟩ := operate_sends hw usable hmiddle
    obtain ⟨sent₂, h₂⟩ := ih h₁.bounded hmiddle hopen
    exact ⟨sent₁ ++ sent₂, h₁.trans h₂⟩

end Writer

end FramedStream
