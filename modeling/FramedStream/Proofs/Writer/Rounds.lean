import FramedStream.Proofs.Writer.FailedWrite

/-!
# The rounds of a write

A write takes its bytes in rounds, as many at a time as the pending block has room for, and sends
each block that gets complete. If the block is complete before the write begins, which it is when
it was filled by a single byte or its first attempt has failed, the first round takes nothing, and
what it leaves is the room for the second one.

* `fillUp` is one round and `Rounds` the loop, with the number of its rounds. `rounds_append`: the
  loop ends, and so does `append`, which counts the blocks before it begins;
* `Filled` is what a loop has done that does not fail. `filled_append` goes through its rounds;
* `write_counts_exact` says how many blocks a write sends and how many bytes it leaves, for any
  session, any number of pending bytes and any number of bytes written.
-/

namespace FramedStream

namespace Writer

variable {w w₁ w' : Writer} {front bytes input : Bytes} {sent : List (Bytes × Bytes)}
  {outcome outcome' : Except Error Unit × Writer}

/-! ### The loop ends -/

/-- One round: the bytes for which there is room, and the block if that completes it. -/
def fillUp (w : Writer) (bytes : Bytes) : Except Error Unit × Writer :=
  let w := w.accept (bytes.take (w.blockSize - w.pending.length))
  if w.pending.length = w.blockSize then w.emit else (.ok (), w)

/-- A loop that ends after some rounds, with no bytes left or because the last round has failed. -/
inductive Rounds : Nat → Writer → Bytes → Except Error Unit × Writer → Prop
  | done (w : Writer) : Rounds 0 w [] (.ok (), w)
  | round {count : Nat} {w w₁ : Writer} {bytes : Bytes} {outcome : Except Error Unit × Writer}
      (left : bytes ≠ []) (step : w.fillUp bytes = (.ok (), w₁))
      (rest : Rounds count w₁ (bytes.drop (w.blockSize - w.pending.length)) outcome) :
      Rounds (count + 1) w bytes outcome
  | failed {w w' : Writer} {bytes : Bytes} {e : Error} (left : bytes ≠ [])
      (step : w.fillUp bytes = (.error e, w')) : Rounds 1 w bytes (.error e, w')

/-- It ends in one way only. -/
theorem Rounds.unique {m n : Nat} (h : Rounds m w bytes outcome) (h' : Rounds n w bytes outcome') :
    m = n ∧ outcome = outcome' := by
  induction h generalizing n with
  | done w =>
    cases h' with
    | done => exact ⟨rfl, rfl⟩
    | round left => exact absurd rfl left
    | failed left => exact absurd rfl left
  | round left step rest ih =>
    cases h' with
    | done => exact absurd rfl left
    | round _ step' rest' =>
      cases step.symm.trans step'
      obtain ⟨hcount, houtcome⟩ := ih rest'
      exact ⟨congrArg (· + 1) hcount, houtcome⟩
    | failed _ step' => cases step.symm.trans step'
  | failed left step =>
    cases h' with
    | done => exact absurd rfl left
    | round _ step' => cases step.symm.trans step'
    | failed _ step' =>
      cases step.symm.trans step'
      exact ⟨rfl, rfl⟩

theorem fillUp_of_lt (hlt : w.pending.length + bytes.length < w.blockSize) :
    w.fillUp bytes = (.ok (), w.accept bytes) := by
  have htake : bytes.take (w.blockSize - w.pending.length) = bytes :=
    List.take_of_length_le (by omega)
  have hopen : (w.accept bytes).pending.length ≠ (w.accept bytes).blockSize := by
    rw [accept, List.length_append]
    exact Nat.ne_of_lt hlt
  simp only [fillUp, htake, if_neg hopen]

theorem fillUp_of_le
    (hfill : w.pending.length + (bytes.take (w.blockSize - w.pending.length)).length =
      w.blockSize) :
    w.fillUp bytes = (w.accept (bytes.take (w.blockSize - w.pending.length))).emit := by
  have hfull : (w.accept (bytes.take (w.blockSize - w.pending.length))).pending.length =
      (w.accept (bytes.take (w.blockSize - w.pending.length))).blockSize := by
    rw [accept, List.length_append]
    exact hfill
  simp only [fillUp, if_pos hfull]

/-- Each round but the last completes a block, so there is at most one more than there are complete
blocks in what is pending and what is written. -/
theorem rounds_append (hw : w.Bounded) (bytes : Bytes) :
    ∃ count, Rounds count w bytes (w.append bytes) ∧
      count ≤ (w.pending.length + bytes.length) / w.blockSize + 1 := by
  refine append_induct (motive := fun w bytes => ∃ count, Rounds count w bytes (w.append bytes) ∧
    count ≤ (w.pending.length + bytes.length) / w.blockSize + 1) ?_ ?_ ?_ hw bytes
  · exact fun w => ⟨0, .done w, Nat.zero_le _⟩
  · intro w bytes hlt
    rw [append_of_lt hlt]
    by_cases hnil : bytes = []
    · rw [hnil, accept_nil]
      exact ⟨0, .done w, Nat.zero_le _⟩
    · have hnone : bytes.drop (w.blockSize - w.pending.length) = [] :=
        List.drop_of_length_le (by omega)
      refine ⟨1, .round hnil (fillUp_of_lt hlt) ?_, Nat.le_add_left _ _⟩
      rw [hnone]
      exact .done _
  · intro w bytes hw hne hle hfill ih
    rw [append_of_le hw hne hle]
    have hstep := fillUp_of_le hfill
    generalize hemit : (w.accept (bytes.take (w.blockSize - w.pending.length))).emit = result
      at hstep
    obtain ⟨_ | _, w₁⟩ := result
    · exact ⟨1, .failed hne hstep, Nat.le_add_left _ _⟩
    · obtain ⟨count, hrounds, hcount⟩ := ih w₁ hemit
      refine ⟨count + 1, .round hne hstep hrounds, ?_⟩
      obtain ⟨hnil, hsize, -⟩ := emit_ok hemit
      have hsize : w₁.blockSize = w.blockSize := hsize
      rw [hnil, hsize, List.length_nil, Nat.zero_add, List.length_drop] at hcount
      have hsucc := div_of_le hw.positive hw.pending hle
      omega

/-! ### What the loop has done -/

/-- What a loop has done that has taken all of its input and not failed. It has sent a block for
each `blockSize` bytes, and what is pending now are the bytes behind these. -/
structure Filled (input : Bytes) (sent : List (Bytes × Bytes)) (w w' : Writer) : Prop where
  sends : Sends input sent w w'
  count : sent.length = (w.pending.length + input.length) / w.blockSize
  complete : ∀ block ∈ sent, block.1.length = w.blockSize
  blocks : w'.stats.blocks = w.stats.blocks + sent.length
  dumps : w'.compressCalls = w.compressCalls + sent.length

theorem filled_accept (hw : w.Bounded) (hlt : w.pending.length + input.length < w.blockSize) :
    Filled input [] w (w.accept input) where
  sends := sends_accept hw (Nat.le_of_lt hlt)
  count := (Nat.div_eq_of_lt hlt).symm
  complete := List.forall_mem_nil _
  blocks := rfl
  dumps := rfl

/-- One more block before those that were sent. -/
theorem Round.filled {payload : Bytes} (hround : Round front payload w w₁) (hw : w.Bounded)
    (hfill : w.pending.length + front.length = w.blockSize) (h : Filled input sent w₁ w') :
    Filled (front ++ input) ((w.pending ++ front, payload) :: sent) w w' where
  sends := hround.sends.trans h.sends
  count := by
    have hcount := h.count
    rw [hround.pending, hround.sends.blockSize, List.length_nil, Nat.zero_add] at hcount
    have hlength : w.pending.length + (front ++ input).length = input.length + w.blockSize := by
      rw [List.length_append]
      omega
    rw [List.length_cons, hcount, hlength, Nat.add_div_right _ hw.positive]
  complete := hround.complete hfill h.complete
  blocks := by
    rw [h.blocks, hround.blocks, List.length_cons]
    omega
  dumps := by
    rw [h.dumps, hround.calls, List.length_cons]
    omega

/-- From any number of pending bytes, a complete block included. Only a loop without any bytes has
to find the block incomplete, for it would leave a complete one alone. -/
theorem filled_append (hw : w.Bounded) (bytes : Bytes)
    (hsome : bytes ≠ [] ∨ w.pending.length < w.blockSize) (h : w.append bytes = (.ok (), w')) :
    ∃ sent, Filled bytes sent w w' := by
  refine append_induct (motive := fun w bytes => w.Bounded →
    bytes ≠ [] ∨ w.pending.length < w.blockSize → w.append bytes = (.ok (), w') →
    ∃ sent, Filled bytes sent w w') ?_ ?_ ?_ hw bytes hw hsome h
  · intro w hw hsome h
    have hlt : w.pending.length + ([] : Bytes).length < w.blockSize :=
      hsome.resolve_left fun hne => hne rfl
    rw [append_of_lt hlt] at h
    cases h
    exact ⟨[], filled_accept hw hlt⟩
  · intro w bytes hlt hw _ h
    rw [append_of_lt hlt] at h
    cases h
    exact ⟨[], filled_accept hw hlt⟩
  · intro w bytes hw hne hle hfill ih _ _ h
    rw [append_of_le hw hne hle] at h
    have hsplit := List.take_append_drop (w.blockSize - w.pending.length) bytes
    generalize bytes.take (w.blockSize - w.pending.length) = front at h hfill ih hsplit
    generalize hemit : (w.accept front).emit = result at h
    obtain ⟨_ | _, w₁⟩ := result
    · cases h
    obtain ⟨payload, hround⟩ := round_of_ok hw hfill hemit
    have hbounded := hround.sends.bounded
    have hfree : w₁.pending.length < w₁.blockSize := by
      rw [hround.pending]
      exact hbounded.positive
    obtain ⟨sent, hfilled⟩ := ih w₁ hemit hbounded (.inr hfree) h
    rw [← hsplit]
    exact ⟨_, hround.filled hw hfill hfilled⟩

/-- What is pending are the last bytes of all that was pending and written. -/
theorem Filled.pending (h : Filled input sent w w') :
    w'.pending = (w.pending ++ input).drop (sent.length * w.blockSize) := by
  have hlength := length_of_complete h.complete
  rw [← h.sends.carried, ← hlength, List.drop_left]

theorem Filled.buffered (h : Filled input sent w w') :
    w'.buffered = (w.pending.length + input.length) % w.blockSize := by
  rw [Writer.buffered, h.pending, List.length_drop, List.length_append, h.count, Nat.mul_comm]
  exact (Nat.mod_eq_sub _ _).symm

/-- A loop that fails does so because a block that is complete could not be sent. -/
theorem emit_of_append_error (hw : w.Bounded) (bytes : Bytes) {e : Error}
    (h : w.append bytes = (.error e, w')) :
    ∃ taken sent w₁, taken <+: bytes ∧ Sends taken sent w w₁ ∧ w₁.buffered = w.blockSize ∧
      w₁.emit = (.error e, w') := by
  refine append_induct (motive := fun w bytes => w.Bounded → w.append bytes = (.error e, w') →
    ∃ (taken : Bytes) (sent : _) (w₁ : Writer), taken <+: bytes ∧ Sends taken sent w w₁ ∧
      w₁.buffered = w.blockSize ∧ w₁.emit = (.error e, w')) ?_ ?_ ?_ hw bytes hw h
  · intro w _ h
    cases h
  · intro w bytes hlt _ h
    rw [append_of_lt hlt] at h
    cases h
  · intro w bytes hw hne hle hfill ih _ h
    rw [append_of_le hw hne hle] at h
    have hsplit := List.take_append_drop (w.blockSize - w.pending.length) bytes
    generalize bytes.take (w.blockSize - w.pending.length) = front at h hfill ih hsplit
    generalize hemit : (w.accept front).emit = result at h
    obtain ⟨_ | _, w₁⟩ := result
    · cases h
      refine ⟨front, [], _, ?_, sends_accept hw (Nat.le_of_eq hfill), ?_, hemit⟩
      · rw [← hsplit]
        exact List.prefix_append _ _
      · rw [buffered, accept, List.length_append, hfill]
    · obtain ⟨payload, hround⟩ := round_of_ok hw hfill hemit
      obtain ⟨taken, sent, w₂, hpart, hsends, hbuffered, hfailed⟩ :=
        ih w₁ hemit hround.sends.bounded h
      refine ⟨front ++ taken, _, w₂, ?_, hround.sends.trans hsends,
        hbuffered.trans hround.sends.blockSize, hfailed⟩
      rw [← hsplit]
      exact (List.prefix_append_right_inj _).2 hpart

/-! ### Writes -/

theorem writeBytes_of_le (usable : w.phase = .accepting) {buffer : Bytes} {offset length : Nat}
    (hrange : offset + length ≤ buffer.length) :
    w.writeBytes buffer offset length = w.append ((buffer.drop offset).take length) := by
  simp only [writeBytes, unusable?, usable, if_neg (Nat.not_lt.2 hrange)]

theorem writeByte_of_lt (usable : w.phase = .accepting) (hlt : w.buffered < w.blockSize)
    (byte : UInt8) : w.writeByte byte = (.ok (), w.accept [byte]) := by
  have hfree : ¬w.pending.length = w.blockSize := Nat.ne_of_lt hlt
  simp only [writeByte, unusable?, usable, if_neg hfree]

theorem writeByte_of_full (usable : w.phase = .accepting) (hfull : w.buffered = w.blockSize)
    (byte : UInt8) :
    w.writeByte byte = andThen w.emit fun w₁ => (.ok (), w₁.accept [byte]) := by
  have hfull : w.pending.length = w.blockSize := hfull
  simp only [writeByte, unusable?, usable, if_pos hfull]
  rfl

/-- A byte that comes to a complete block is the first of the next one. -/
theorem filled_writeByte (hw : w.Bounded) (usable : w.phase = .accepting)
    (hfull : w.buffered = w.blockSize) (byte : UInt8) (h : w.writeByte byte = (.ok (), w')) :
    ∃ payload, Sends [byte] [(w.pending, payload)] w w' ∧ w'.pending = [byte] ∧
      w'.stats.blocks = w.stats.blocks + 1 ∧ w'.compressCalls = w.compressCalls + 1 := by
  rw [writeByte_of_full usable hfull] at h
  generalize hemit : w.emit = result at h
  obtain ⟨_ | _, w₁⟩ := result
  · cases h
  cases h
  have hfill : w.pending.length + ([] : Bytes).length = w.blockSize := hfull
  rw [← accept_nil w] at hemit
  obtain ⟨payload, hround⟩ := round_of_ok hw hfill hemit
  have hroom : w₁.pending.length + [byte].length ≤ w₁.blockSize := by
    rw [hround.pending]
    exact hround.sends.bounded.positive
  have hsends := hround.sends.trans (sends_accept hround.sends.bounded hroom)
  rw [List.append_nil, List.append_nil] at hsends
  refine ⟨payload, hsends, ?_, hround.blocks, hround.calls⟩
  rw [accept, hround.pending]
  rfl

/-- The counts of a write are exact, at any point of a session with any codec and any sink. Say that
`buffered` bytes are pending, which may be a complete block. The loop ends, and in one way only.
Unless it has to send a block and cannot, it sends `(buffered + length) / blockSize` complete ones
and leaves the last `(buffered + length) % blockSize` bytes; a write of nothing does nothing. A
single byte sends the block that is complete, if it is, and is then the first of the next one. -/
theorem write_counts_exact {sink start : Sink} {codec : Codec} {blockSize : Nat} {w₀ : Writer}
    (hcreate : create sink codec blockSize = (.ok w₀, start)) (calls : List Call) {w : Writer}
    (hcalls : (w₀.perform calls).2 = w) (usable : w.phase = .accepting) :
    1 ≤ blockSize ∧ w.buffered ≤ blockSize ∧
      (∀ buffer offset length, offset + length ≤ buffer.length →
        ∃ input, (buffer.drop offset).take length = input ∧ input.length = length ∧
          (∃ count, count ≤ (w.buffered + length) / blockSize + 1 ∧ ∀ n outcome,
            Rounds n w input outcome ↔ n = count ∧ outcome = w.writeBytes buffer offset length) ∧
          (length = 0 → w.writeBytes buffer offset length = (.ok (), w)) ∧
          (0 < length → ∀ w', w.writeBytes buffer offset length = (.ok (), w') →
            ∃ sent, Sends input sent w w' ∧ sent.length = (w.buffered + length) / blockSize ∧
              (∀ block ∈ sent, block.1.length = blockSize) ∧
              w'.compressCalls = w.compressCalls + sent.length ∧
              w'.stats.blocks = w.stats.blocks + sent.length ∧
              w'.stats.rawBytes = w.stats.rawBytes + length ∧
              w'.buffered = (w.buffered + length) % blockSize ∧
              w'.pending <:+ w.pending ++ input) ∧
          (∀ e w', w.writeBytes buffer offset length = (.error e, w') →
            ∃ taken sent w₁, taken <+: input ∧ Sends taken sent w w₁ ∧ w₁.buffered = blockSize ∧
              w₁.emit = (.error e, w'))) ∧
      ∀ byte,
        (w.buffered < blockSize → ∃ w', w.writeByte byte = (.ok (), w') ∧ Sends [byte] [] w w' ∧
          w'.buffered = w.buffered + 1 ∧ w'.compressCalls = w.compressCalls) ∧
        (w.buffered = blockSize →
          (∀ w', w.writeByte byte = (.ok (), w') → ∃ payload,
            Sends [byte] [(w.pending, payload)] w w' ∧ w'.buffered = 1 ∧ w'.pending = [byte] ∧
              w'.stats.blocks = w.stats.blocks + 1 ∧ w'.compressCalls = w.compressCalls + 1) ∧
          ∀ e w', w.writeByte byte = (.error e, w') → w.emit = (.error e, w')) := by
  have hnew := create_audited hcreate
  obtain ⟨_, haudited⟩ := (perform_moves hnew.toBounded calls).audited hnew
  rw [hcalls] at haudited
  have hw := haudited.toBounded
  obtain rfl := haudited.blockSize_eq
  refine ⟨hw.positive, hw.pending, fun buffer offset length hrange => ?_, fun byte => ⟨?_, ?_⟩⟩
  · rw [writeBytes_of_le usable hrange]
    generalize hinput : (buffer.drop offset).take length = input
    have hlength : input.length = length := by
      rw [← hinput, List.length_take, List.length_drop]
      omega
    obtain ⟨count, hrounds, hcount⟩ := rounds_append hw input
    subst hlength
    refine ⟨input, rfl, rfl, ⟨count, hcount, fun n outcome => ⟨?_, ?_⟩⟩, ?_, fun hsome w' h => ?_,
      fun e w' h => emit_of_append_error hw input h⟩
    · exact fun h => h.unique hrounds
    · rintro ⟨rfl, rfl⟩
      exact hrounds
    · intro hnone
      rw [List.length_eq_zero_iff.1 hnone]
      rfl
    · obtain ⟨sent, hfilled⟩ := filled_append hw input (.inl (List.length_pos_iff.1 hsome)) h
      exact ⟨sent, hfilled.sends, hfilled.count, hfilled.complete, hfilled.dumps, hfilled.blocks,
        hfilled.sends.rawBytes, hfilled.buffered, hfilled.pending ▸ List.drop_suffix _ _⟩
  · intro hlt
    refine ⟨_, writeByte_of_lt usable hlt byte, sends_accept hw hlt, ?_, rfl⟩
    rw [buffered, accept, List.length_append]
    rfl
  · intro hfull
    refine ⟨fun w' h => ?_, fun e w' h => ?_⟩
    · obtain ⟨payload, hsends, hpending, hblocks, hdumps⟩ := filled_writeByte hw usable hfull byte h
      exact ⟨payload, hsends, by rw [buffered, hpending]; rfl, hpending, hblocks, hdumps⟩
    · rw [writeByte_of_full usable hfull] at h
      generalize w.emit = result at h
      obtain ⟨_ | _, w₁⟩ := result
      · exact h
      · cases h

/-- Blocks of four. Four single bytes leave a complete block, and the nine bytes behind the first
one of a buffer then make three blocks and leave one byte. -/
theorem write_counts_exact_four :
    ∃ w₀ start w w', create .unlimited .passthrough 4 = (.ok w₀, start) ∧
      (w₀.perform [.writeByte 1, .writeByte 2, .writeByte 3, .writeByte 4]).2 = w ∧
      w.buffered = 4 ∧ w.stats.blocks = 0 ∧
      w.writeBytes [0, 5, 6, 7, 8, 9, 10, 11, 12, 13, 0] 1 9 = (.ok (), w') ∧
      (∃ count, count ≤ (w.buffered + 9) / 4 + 1 ∧
        Rounds count w [5, 6, 7, 8, 9, 10, 11, 12, 13] (.ok (), w')) ∧
      w'.stats.blocks = 0 + 3 ∧ w'.stats.rawBytes = w.stats.rawBytes + 9 ∧ w'.buffered = 1 ∧
      w'.pending <:+ w.pending ++ [5, 6, 7, 8, 9, 10, 11, 12, 13] := by
  obtain ⟨w₀, start, hcreate⟩ : ∃ w₀ start, create .unlimited .passthrough 4 = (.ok w₀, start) :=
    ⟨_, _, rfl⟩
  obtain ⟨w, hw⟩ :
      ∃ w, (w₀.perform [.writeByte 1, .writeByte 2, .writeByte 3, .writeByte 4]).2 = w := ⟨_, rfl⟩
  have hstate : w.phase = .accepting ∧ w.buffered = 4 ∧ w.stats.blocks = 0 := by
    subst hw
    cases hcreate
    decide +kernel
  obtain ⟨usable, hbuffered, hblocks⟩ := hstate
  have hok : (w.writeBytes [0, 5, 6, 7, 8, 9, 10, 11, 12, 13, 0] 1 9).1 = .ok () := by
    subst hw
    cases hcreate
    decide +kernel
  obtain ⟨w', hwrite⟩ :
      ∃ w', w.writeBytes [0, 5, 6, 7, 8, 9, 10, 11, 12, 13, 0] 1 9 = (.ok (), w') :=
    ⟨_, Prod.ext hok rfl⟩
  obtain ⟨-, -, hwrites, -⟩ := write_counts_exact hcreate _ hw usable
  obtain ⟨input, hinput, -, ⟨count, hcount, hrounds⟩, -, hfilled, -⟩ :=
    hwrites [0, 5, 6, 7, 8, 9, 10, 11, 12, 13, 0] 1 9 (by decide)
  obtain ⟨sent, -, hsent, -, -, hmore, hraw, hleft, hlast⟩ := hfilled (by decide) w' hwrite
  subst hinput
  rw [hbuffered] at hsent hleft
  rw [hblocks, hsent] at hmore
  exact ⟨w₀, start, w, w', hcreate, hw, hbuffered, hblocks, hwrite,
    ⟨count, hcount, (hrounds _ _).2 ⟨rfl, hwrite.symm⟩⟩, hmore, hraw, hleft, hlast⟩

end Writer

end FramedStream
