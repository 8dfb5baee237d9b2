import FramedStream.Proofs.Writer.Books

/-!
# Writes that fail

A write goes from block to block until it has taken all of its bytes. If the codec fails on the way,
the writer stays open, and what the write has taken up to then stays with it: the blocks before are
sent, and the block that failed is complete and waits. The caller is told of a failure and not of
how far the write has come.

* `Round` is one block that is filled up and sent, `round_of_ok` the step of the loop;
* `Stalls` is a write that fails and leaves the writer open: which bytes it has taken, what it has
  sent, and which attempt has failed. `stalls_append` goes through the loop;
* `failed_write_takes_a_part` puts this together for any session, and says what has to be written
  again for each byte to be sent once: the rest, and not the whole.
-/

namespace FramedStream

namespace Writer

variable {w w₁ w' : Writer} {front taken : Bytes} {sent : List (Bytes × Bytes)}

/-- Some bytes fill a block up, and the block is sent. -/
structure Round (front payload : Bytes) (w w₁ : Writer) : Prop where
  sends : Sends front [(w.pending ++ front, payload)] w w₁
  makes : w.codec.Makes w.compressCalls (w.pending ++ front) w.room payload
  pending : w₁.pending = []
  blocks : w₁.stats.blocks = w.stats.blocks + 1
  framedBytes : w₁.stats.framedBytes = w.stats.framedBytes + (record payload).length
  calls : w₁.compressCalls = w.compressCalls + 1

theorem round_of_ok (hw : w.Bounded)
    (hfill : w.pending.length + front.length = w.blockSize)
    (h : (w.accept front).emit = (.ok (), w₁)) : ∃ payload, Round front payload w w₁ := by
  have haccept := sends_accept hw (Nat.le_of_eq hfill)
  have hpos := hw.positive
  have hne : w.pending ++ front ≠ [] := by
    rw [← List.length_pos_iff, List.length_append, hfill]
    exact hpos
  have hemits := emits (w.accept front)
  rw [h] at hemits
  cases hemits with
  | nothing pending => exact absurd pending hne
  | @sent payload s pending pack write =>
    refine ⟨payload, ?_, makes_of_pack pack, rfl, ?_, ?_, pack_compressCalls _⟩
    · have hsends := haccept.trans (sends_emitted haccept.bounded pending pack write)
      rwa [List.append_nil, List.nil_append] at hsends
    · simp [emitted, accept]
    · simp [emitted, accept]

theorem Round.complete {payload : Bytes} (hround : Round front payload w w₁)
    (hfill : w.pending.length + front.length = w.blockSize)
    (h : ∀ block ∈ sent, block.1.length = w₁.blockSize) :
    ∀ block ∈ (w.pending ++ front, payload) :: sent, block.1.length = w.blockSize := by
  rw [hround.sends.blockSize] at h
  refine List.forall_mem_cons.2 ⟨?_, h⟩
  rw [List.length_append, hfill]

/-- A write has failed and the writer is still open. It has taken some bytes and sent some blocks,
and the attempt after these has failed. Each block was complete, also the one that waits now. -/
structure Stalls (taken : Bytes) (sent : List (Bytes × Bytes)) (e : Error) (w w' : Writer) :
    Prop where
  sends : Sends taken sent w w'
  complete : ∀ block ∈ sent, block.1.length = w.blockSize
  waiting : w'.pending.length = w.blockSize
  blocks : w'.stats.blocks = w.stats.blocks + sent.length
  framedBytes : w'.stats.framedBytes = w.stats.framedBytes + (recordsOf sent).length
  makes : w.codec.MakesAll w.room w.compressCalls sent
  fails : w.codec.Fails (w.compressCalls + sent.length) w'.pending w.room e

/-- The attempt of the first block fails. -/
theorem stalls_refused (hw : w.Bounded) (hfill : w.pending.length + front.length = w.blockSize)
    {e : Error} (hpack : (w.accept front).pack.1 = .error e) :
    Stalls front [] e w (w.accept front).pack.2 := by
  have haccept := sends_accept hw (Nat.le_of_eq hfill)
  have hsends := haccept.trans (sends_pack haccept.bounded)
  rw [List.append_nil, List.append_nil] at hsends
  refine ⟨hsends, List.forall_mem_nil _, ?_, ?_, ?_, trivial, ?_⟩
  · rw [pack_pending, accept, List.length_append, hfill]
  · rw [pack_stats]
    rfl
  · rw [pack_stats]
    rfl
  · rw [pack_pending]
    exact fails_of_pack hpack

/-- One more block before those that were sent. -/
theorem Round.stalls {payload : Bytes} (hround : Round front payload w w₁)
    (hfill : w.pending.length + front.length = w.blockSize) {e : Error}
    (h : Stalls taken sent e w₁ w') :
    Stalls (front ++ taken) ((w.pending ++ front, payload) :: sent) e w w' where
  sends := hround.sends.trans h.sends
  complete := hround.complete hfill h.complete
  waiting := h.waiting.trans hround.sends.blockSize
  blocks := by
    rw [h.blocks, hround.blocks, List.length_cons]
    omega
  framedBytes := by
    have hrecords : recordsOf ((w.pending ++ front, payload) :: sent) =
        record payload ++ recordsOf sent := rfl
    rw [h.framedBytes, hround.framedBytes, hrecords, List.length_append, Nat.add_assoc]
  makes := by
    have hmakes := h.makes
    rw [hround.sends.codec, hround.sends.room, hround.calls] at hmakes
    exact ⟨hround.makes, hmakes⟩
  fails := by
    have hfails := h.fails
    rw [hround.sends.codec, hround.sends.room, hround.calls] at hfails
    rwa [List.length_cons, Nat.add_comm sent.length, ← Nat.add_assoc]

/-- The loop fails in the round whose block the codec refuses, or breaks the writer off. -/
theorem stalls_append (hw : w.Bounded) (bytes : Bytes) {e : Error}
    (h : w.append bytes = (.error e, w')) (hopen : w'.phase = .accepting) :
    ∃ taken sent, taken <+: bytes ∧ Stalls taken sent e w w' := by
  refine append_induct (motive := fun w bytes => w.Bounded → w.append bytes = (.error e, w') →
    ∃ taken sent, taken <+: bytes ∧ Stalls taken sent e w w') ?_ ?_ ?_ hw bytes hw h
  · intro w _ h
    cases h
  · intro w bytes hlt _ h
    rw [append_of_lt hlt] at h
    cases h
  · intro w bytes hw hne hle hfill ih _ h
    rw [append_of_le hw hne hle] at h
    generalize hfront : bytes.take (w.blockSize - w.pending.length) = front at h hfill ih
    have hpart : front <+: bytes := hfront ▸ List.take_prefix _ _
    have hemits := emits (w.accept front)
    cases hresult : (w.accept front).emit with
    | mk result w₁ =>
    rw [hresult] at h hemits
    cases result with
    | error e' =>
      cases h
      cases hemits with
      | refused pending pack => exact ⟨front, [], hpart, stalls_refused hw hfill pack⟩
      | torn => simp [breakOff] at hopen
    | ok =>
      obtain ⟨payload, hround⟩ := round_of_ok hw hfill hresult
      obtain ⟨taken, sent, hprefix, hstalls⟩ := ih w₁ hresult hround.sends.bounded h
      refine ⟨front ++ taken, _, ?_, hround.stalls hfill hstalls⟩
      have hsplit := List.take_append_drop (w.blockSize - w.pending.length) bytes
      rw [hfront] at hsplit
      rw [← hsplit]
      exact (List.prefix_append_right_inj _).2 hprefix

/-- Complete blocks only. -/
theorem length_of_complete {size : Nat} (h : ∀ block ∈ sent, block.1.length = size) :
    (sent.flatMap Prod.fst).length = sent.length * size := by
  induction sent with
  | nil => simp
  | cons block sent ih =>
    obtain ⟨hblock, hsent⟩ := List.forall_mem_cons.1 h
    rw [List.flatMap_cons, List.length_append, hblock, ih hsent, List.length_cons, Nat.succ_mul,
      Nat.add_comm]

/-- The bytes that were taken fill up the block that was pending and one for each that was sent. -/
theorem Stalls.length {e : Error} (h : Stalls taken sent e w w') (hw : w.Bounded) :
    taken.length = w.blockSize - w.pending.length + sent.length * w.blockSize := by
  have hpending := hw.pending
  have hcarried := congrArg List.length h.sends.carried
  rw [List.length_append, List.length_append, length_of_complete h.complete, h.waiting] at hcarried
  omega

/-- A write into an open writer is its loop. -/
theorem append_of_write {buffer : Bytes} {failure : IoFailure}
    (h : w.write buffer = (.error failure, w')) (hopen : w'.phase = .accepting) :
    ∃ e, failure = e.toIo ∧ w.append buffer = (.error e, w') := by
  unfold write at h
  split at h
  · cases h
  next e w₁ heq =>
  cases h
  refine ⟨e, rfl, ?_⟩
  have husable : w.phase = .accepting := by
    by_contra hne
    have hsame := writeBytes_unusable hne buffer 0 buffer.length
    rw [heq] at hsame
    exact hne (hsame ▸ hopen)
  have hrange : ¬buffer.length < 0 + buffer.length := by omega
  simp only [writeBytes, unusable?, husable, if_neg hrange, List.drop_zero,
    List.take_length] at heq
  exact heq

/-- A write that fails and leaves the writer open, at any point of a session with any codec and any
sink. It has taken the front of the buffer, as much of it as completes the block of which the
attempt has failed: nothing only if that block was complete before. Whatever is written later comes
behind what was taken, so to have each byte sent once it is the rest that has to be written. -/
theorem failed_write_takes_a_part {sink start : Sink} {codec : Codec} {blockSize : Nat}
    {w₀ : Writer} (hcreate : create sink codec blockSize = (.ok w₀, start)) (calls : List Call)
    {w : Writer} (hcalls : (w₀.perform calls).2 = w) {buffer : Bytes} {failure : IoFailure}
    {w' : Writer} (hwrite : w.write buffer = (.error failure, w')) (hopen : w'.phase = .accepting) :
    ∃ taken rest sent e, buffer = taken ++ rest ∧ failure = e.toIo ∧ Stalls taken sent e w w' ∧
      taken.length = blockSize - w.pending.length + sent.length * blockSize ∧
      (taken = [] ↔ w.pending.length = blockSize ∧ sent = []) ∧
      ∀ later, (w'.perform later).2.phase = .accepting →
        ∃ sent', Sends (taken ++ w'.accepted later) (sent ++ sent') w (w'.perform later).2 := by
  have hnew := create_audited hcreate
  obtain ⟨_, haudited⟩ := (perform_moves hnew.toBounded calls).audited hnew
  rw [hcalls] at haudited
  have hbounded := haudited.toBounded
  obtain ⟨e, hfailure, happend⟩ := append_of_write hwrite hopen
  obtain ⟨taken, sent, ⟨rest, hsplit⟩, hstalls⟩ := stalls_append hbounded buffer happend hopen
  have hlength := hstalls.length hbounded
  have hpositive := hbounded.positive
  have hpending := hbounded.pending
  rw [haudited.blockSize_eq] at hlength hpositive hpending
  refine ⟨taken, rest, sent, e, hsplit.symm, hfailure, hstalls, hlength, ?_, fun later hlater => ?_⟩
  · rw [← List.length_eq_zero_iff, hlength, Nat.add_eq_zero_iff, Nat.mul_eq_zero,
      List.length_eq_zero_iff]
    constructor
    · rintro ⟨hfull, hsent | hzero⟩
      · exact ⟨by omega, hsent⟩
      · omega
    · rintro ⟨hfull, hsent⟩
      exact ⟨by omega, .inl hsent⟩
  · obtain ⟨sent', hsends⟩ := perform_sends hstalls.sends.bounded hopen hlater
    exact ⟨sent', hstalls.sends.trans hsends⟩

/-- A codec that fails at the first attempt only. -/
def failsFirst : Codec :=
  { Codec.passthrough with
    compress := fun call raw room =>
      if call = 0 then .error (.codec "passthrough" "not now")
      else Codec.passthrough.compress call raw room }

/-- Five bytes in blocks of four. The write fails with four of them taken, and with the one that is
left the blocks carry the five. -/
theorem failed_write_takes_a_part_failsFirst :
    ∃ w start w', create .unlimited failsFirst 4 = (.ok w, start) ∧
      w.write [1, 2, 3, 4, 5] = (.error (Error.codec "passthrough" "not now").toIo, w') ∧
      (∃ e, Stalls [1, 2, 3, 4] [] e w w') ∧
      ∃ sent, Sends [1, 2, 3, 4, 5] sent w (w'.perform [.write [5], .flush]).2 := by
  obtain ⟨w, start, hcreate⟩ : ∃ w start, create .unlimited failsFirst 4 = (.ok w, start) :=
    ⟨_, _, rfl⟩
  have hfails : (w.write [1, 2, 3, 4, 5]).1 =
      .error (Error.codec "passthrough" "not now").toIo := by
    cases hcreate
    decide +kernel
  have hpending : w.pending = [] := by
    cases hcreate
    rfl
  obtain ⟨w', hw'⟩ : ∃ w', (w.write [1, 2, 3, 4, 5]).2 = w' := ⟨_, rfl⟩
  have hopen : w'.phase = .accepting := by
    subst hw'
    cases hcreate
    decide +kernel
  have hcalls : (w.perform []).2 = w := rfl
  obtain ⟨taken, rest, sent, e, hsplit, -, hstalls, hlength, -, hlater⟩ :=
    failed_write_takes_a_part hcreate [] hcalls (Prod.ext hfails hw') hopen
  rw [hpending, List.length_nil, Nat.sub_zero] at hlength
  have hall : 5 = taken.length + rest.length := by
    rw [← List.length_append, ← hsplit]
    rfl
  have hnone : sent = [] := List.length_eq_zero_iff.1 (by omega)
  have htaken : taken = [1, 2, 3, 4] := by
    have hfour : taken.length = 4 := by rw [hlength, hnone]; rfl
    have htake := congrArg (List.take 4) hsplit
    rw [List.take_left' hfour] at htake
    exact htake.symm
  subst hnone htaken
  refine ⟨w, start, w', hcreate, Prod.ext hfails hw', ⟨e, hstalls⟩, ?_⟩
  have haccepted : w'.accepted [.write [5], .flush] = [5] := by
    subst hw'
    cases hcreate
    decide +kernel
  have hstill : (w'.perform [.write [5], .flush]).2.phase = .accepting := by
    subst hw'
    cases hcreate
    decide +kernel
  obtain ⟨sent', hsends⟩ := hlater [.write [5], .flush] hstill
  rw [haccepted] at hsends
  exact ⟨_, hsends⟩

/-- A write of five bytes that fails has taken four of them. Written again as a whole and finished,
these four are sent twice. -/
theorem failed_write_repeats_bytes :
    ∃ w start w' w'', create .unlimited failsFirst 4 = (.ok w, start) ∧
      w.write [1, 2, 3, 4, 5] = (.error (Error.codec "passthrough" "not now").toIo, w') ∧
      w'.phase = .accepting ∧ w.stats.rawBytes = 0 ∧ w'.stats.rawBytes = 4 ∧ w'.buffered = 4 ∧
      w'.perform [.write [1, 2, 3, 4, 5], .finish] =
        ([.counted (.ok 5), .plain (.ok ())], w'') ∧
      w''.sink.toList = (Header.current 0).encode ++
        [Payload.encode 4 [1, 2, 3, 4], Payload.encode 4 [1, 2, 3, 4],
          Payload.encode 1 [5]].flatMap record := by
  refine ⟨_, _, _, _, rfl, Prod.ext ?_ rfl, ?_, rfl, ?_, ?_, Prod.ext ?_ rfl, ?_⟩
  all_goals decide +kernel

end Writer

end FramedStream
