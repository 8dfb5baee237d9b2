import FramedStream.Proofs.Writer.Finished

/-!
# The totals of a writer

The totals are right in every state that a writer can get into, whatever its codec and its sink do.
`Audited` adds to the books of a writer (`Booked`) which blocks these are: each was made by the
codec from at least one and at most `blockSize` raw bytes, and the sink holds their records and
nothing behind them but the front of a record that was torn off.

* `Move.audited` is what one move does to it, `Reaches.audited` what any number of them do;
* `totals_exact` states the result for every session with a writer.
-/

namespace FramedStream

/-- Bytes that do not make up a record: the front of one, of which the end is missing. -/
def TornRecord (bytes : Bytes) : Prop :=
  ∃ payload, bytes <+: record payload ∧ bytes.length < (record payload).length

theorem tornRecord_nil : TornRecord [] :=
  ⟨[], List.nil_prefix, by simp [blockLengthSize]⟩

namespace Writer

/-- A writer whose books are kept, of the codec and the block size that it was created with. -/
structure Audited (codec : Codec) (blockSize : Nat) (front : Bytes) (failures : Nat)
    (sent : List (Bytes × Bytes)) (w : Writer) : Prop extends
    Booked front failures sent w, Bounded w where
  codec_eq : w.codec = codec
  blockSize_eq : w.blockSize = blockSize
  made : ∀ block ∈ sent, 1 ≤ block.1.length ∧ block.1.length ≤ blockSize ∧
    ∃ call, codec.Makes call block.1 (codec.maxCompressedLength blockSize) block.2
  contents : ∃ torn, TornRecord torn ∧ w.sink.toList = front ++ (recordsOf sent ++ torn)

variable {codec : Codec} {blockSize failures : Nat} {front : Bytes} {sent : List (Bytes × Bytes)}
  {w w' : Writer}

/-- The sum of the records, as far as it concerns the totals. -/
theorem length_recordsOf (sent : List (Bytes × Bytes)) :
    (recordsOf sent).length = (sent.map fun block => blockLengthSize + block.2.length).sum := by
  simp [recordsOf, List.length_flatMap]

theorem Audited.of_pending (h : Audited codec blockSize front failures sent w) {payload : Bytes}
    (hpending : w.pending ≠ []) (hpack : w.pack.1 = .ok payload) :
    1 ≤ w.pending.length ∧ w.pending.length ≤ blockSize ∧
      ∃ call, codec.Makes call w.pending (codec.maxCompressedLength blockSize) payload := by
  have hmakes := makes_of_pack hpack
  rw [Writer.room, h.codec_eq, h.blockSize_eq] at hmakes
  exact ⟨List.length_pos_iff.2 hpending, h.blockSize_eq ▸ h.pending, _, hmakes⟩

/-- Each move keeps the books, and a record that it adds is one that the codec has made. -/
theorem Move.audited (hmove : Move w w') (h : Audited codec blockSize front failures sent w) :
    ∃ more, Audited codec blockSize front failures (sent ++ more) w' := by
  have hbounded := hmove.bounded h.toBounded
  have hgrows := hmove.grows
  cases hmove with
  | accept bytes =>
    refine ⟨[], ?_⟩
    rw [List.append_nil]
    exact { h with toBooked := h.toBooked.accept bytes, toBounded := hbounded }
  | refused =>
    refine ⟨[], ?_⟩
    rw [pack_snd] at hbounded ⊢
    rw [List.append_nil]
    exact { h with toBooked := h.toBooked.tried _, toBounded := hbounded }
  | @sent payload s usable pending pack write =>
    obtain ⟨hcontents, hfailures⟩ := Sink.writeRecord_ok write
    have hmade := h.of_pending pending pack
    have hexact := h.exact (h.faultless usable)
    rw [pack_snd] at hbounded ⊢
    refine ⟨[(w.pending, payload)],
      { toBooked := (h.toBooked.tried _).emitted usable hcontents hfailures
        toBounded := hbounded
        codec_eq := h.codec_eq
        blockSize_eq := h.blockSize_eq
        made := List.forall_mem_append.2 ⟨h.made, List.forall_mem_singleton.2 hmade⟩
        contents := ⟨[], tornRecord_nil, ?_⟩ }⟩
    show s.toList = _
    rw [hcontents, hexact, recordsOf_append, recordsOf_singleton, List.append_nil,
      List.append_assoc]
  | @torn payload failure s usable pending pack write =>
    obtain ⟨taken, hfront, hshort, hcontents, hfailures⟩ := Sink.writeRecord_error write
    have hexact := h.exact (h.faultless usable)
    rw [pack_snd] at hbounded hgrows ⊢
    refine ⟨[], ?_⟩
    rw [List.append_nil]
    refine
      { h with
        toBooked := (h.toBooked.tried _).breakOff hgrows hfailures
        toBounded := hbounded
        contents := ⟨taken, ⟨payload, hfront, hshort⟩, ?_⟩ }
    show s.toList = _
    rw [hcontents, hexact, List.append_assoc]
  | flushed _ flush =>
    obtain ⟨hcontents, hfailures⟩ := Sink.flush_ok flush
    refine ⟨[], ?_⟩
    rw [List.append_nil]
    exact
      { h with
        toBooked := h.toBooked.flushed hcontents hfailures
        toBounded := hbounded
        contents := hcontents ▸ h.contents }
  | lost _ flush =>
    obtain ⟨hcontents, hfailures⟩ := Sink.flush_error flush
    refine ⟨[], ?_⟩
    rw [List.append_nil]
    exact
      { h with
        toBooked := h.toBooked.breakOff hgrows hfailures
        toBounded := hbounded
        contents := hcontents ▸ h.contents }
  | letGo =>
    refine ⟨[], ?_⟩
    rw [List.append_nil]
    exact { h with toBooked := h.toBooked.letGo, toBounded := hbounded }

theorem Reaches.audited (hreach : Reaches w w')
    (h : Audited codec blockSize front failures sent w) :
    ∃ more, Audited codec blockSize front failures (sent ++ more) w' := by
  induction hreach with
  | refl => exact ⟨[], by rwa [List.append_nil]⟩
  | tail _ hmove ih =>
    obtain ⟨more, hmore⟩ := ih
    obtain ⟨most, hmost⟩ := hmove.audited hmore
    exact ⟨more ++ most, by rwa [← List.append_assoc]⟩

/-- A new writer has sent nothing but the header. -/
theorem create_audited {sink start : Sink} (h : create sink codec blockSize = (.ok w, start)) :
    Audited codec blockSize (sink.toList ++ (Header.current codec.id).encode) sink.failures []
      w := by
  obtain ⟨hpos, hmax, rfl, hcontents⟩ := create_ok h
  have hfailures : start.failures = sink.failures := by
    rw [create_eq hpos hmax] at h
    have hwrote := sink.wrote_writeAll (Header.current codec.id).encode
    generalize sink.writeAll (Header.current codec.id).encode = outcome at h hwrote
    cases hwrote with
    | whole _ failures =>
      cases h
      exact failures
    | torn => cases h
  have hlist : start.toList = sink.toList ++ (Header.current codec.id).encode ++ recordsOf [] := by
    rw [hcontents]
    exact (List.append_nil _).symm
  exact
    { blocks := rfl
      rawBytes := rfl
      framedBytes := rfl
      arrived := hlist ▸ List.prefix_rfl
      exact := fun _ => hlist
      faultless := fun _ => hfailures
      counted := Nat.le_of_eq hfailures.symm
      toBounded := bounded_fresh hpos start codec
      codec_eq := rfl
      blockSize_eq := rfl
      made := List.forall_mem_nil _
      contents := ⟨[], tornRecord_nil, hlist⟩ }

/-- The totals of a writer are exact after every session, whichever of its calls were refused or
have failed. They are those of the records that the sink holds as a whole, each with the raw bytes
that the codec has made it from; behind these there is at most a part of one more. As long as no
write and no flush has failed, the sink holds just as many bytes as are counted. -/
theorem totals_exact {sink start : Sink} {codec : Codec} {blockSize : Nat} {w : Writer}
    (hcreate : create sink codec blockSize = (.ok w, start)) (calls : List Call) :
    ∃ w' sent torn, (w.perform calls).2 = w' ∧
      w'.blockSize = blockSize ∧ w'.buffered ≤ blockSize ∧
      w'.sink.toList =
        sink.toList ++ (Header.current codec.id).encode ++ (recordsOf sent ++ torn) ∧
      TornRecord torn ∧
      (∀ block ∈ sent, 1 ≤ block.1.length ∧ block.1.length ≤ blockSize ∧
        ∃ call, codec.Makes call block.1 (codec.maxCompressedLength blockSize) block.2) ∧
      w'.stats.blocks = sent.length ∧
      w'.stats.rawBytes = (sent.map fun block => block.1.length).sum + w'.buffered ∧
      w'.stats.framedBytes = 20 + (sent.map fun block => 4 + block.2.length).sum ∧
      (w'.sink.failures = sink.failures →
        w'.sink.toList.length = sink.toList.length + w'.stats.framedBytes) := by
  have hnew := create_audited hcreate
  obtain ⟨sent, h⟩ := (perform_moves hnew.toBounded calls).audited hnew
  obtain ⟨torn, htorn, hcontents⟩ := h.contents
  have hraw := h.rawBytes
  have hframed := h.framedBytes
  refine ⟨_, sent, torn, rfl, h.blockSize_eq, h.blockSize_eq ▸ h.pending, hcontents, htorn, h.made,
    h.blocks, ?_, ?_, fun hfaultless => ?_⟩
  · rw [hraw, List.nil_append, List.length_flatMap]
    rfl
  · rw [hframed, List.nil_append, length_recordsOf]
    rfl
  · rw [h.exact hfaultless, hframed]
    simp only [List.length_append, Header.length_encode]
    omega

/-- Seven bytes in blocks of four, over a sink that has room for the header, the first record and
half of the second. The last three bytes wait for ever. -/
theorem totals_exact_capacity :
    ∃ w start w' sent torn, create { capacity := some 38 } .passthrough 4 = (.ok w, start) ∧
      (w.perform [.write [1, 2, 3, 4, 5, 6, 7], .flush, .close]).2 = w' ∧
      w'.sink.toList = (Header.current 0).encode ++ (recordsOf sent ++ torn) ∧
      TornRecord torn ∧ w'.stats = ⟨1, 7, 32⟩ ∧ w'.buffered = 3 ∧ w'.stats.blocks = sent.length ∧
      w'.stats.framedBytes = 20 + (sent.map fun block => 4 + block.2.length).sum := by
  obtain ⟨w, start, hcreate⟩ : ∃ w start,
      create { capacity := some 38 } .passthrough 4 = (.ok w, start) := ⟨_, _, rfl⟩
  obtain ⟨w', sent, torn, hperform, -, -, hcontents, htorn, -, hblocks, -, hframed, -⟩ :=
    totals_exact hcreate [.write [1, 2, 3, 4, 5, 6, 7], .flush, .close]
  refine ⟨w, start, w', sent, torn, hcreate, hperform, hcontents, htorn, ?_, ?_, hblocks, hframed⟩
  · rw [← hperform]
    cases hcreate
    decide +kernel
  · rw [← hperform]
    cases hcreate
    decide +kernel

end Writer

end FramedStream
