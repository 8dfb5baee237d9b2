import FramedStream.Codec.Bundled
import FramedStream.Proofs.Writer.Accepted

/-!
# Codecs that fail

A session over a sink that never fails, with a codec that fails whenever it likes. Each failure is
the error of the call in which it happens, and nothing of its block reaches the sink
(`Writer.Turn`). The writer stays open, and whichever call comes next asks for the same block again,
so that in the end the blocks carry what was accepted and nothing else.
-/

namespace FramedStream

/-- The calls after which nothing is pending if they succeed. -/
def Call.Flushes : Call → Prop
  | .flush | .flushIo | .close | .finish => True
  | _ => False

namespace Writer

/-- What a call does to a writer that stays open: it runs on its input, or is refused and changes
nothing. A single byte that is not accepted is not counted either. -/
structure Turn (c : Call) (w : Writer) (result : Except Error Unit) (w' : Writer) : Prop where
  usable : w'.phase = .accepting
  ran : Ran w (Item.bytes c.items) (result, w') ∨
    ∃ refusal, result = .error (.config refusal) ∧ w' = w
  single : ∀ byte, c = .writeByte byte → result ≠ .ok () →
    w'.stats.rawBytes = w.stats.rawBytes

variable {w w' : Writer} {c : Call}

theorem rawBytes_writeByte {byte : UInt8} (h : (w.writeByte byte).1 ≠ .ok ()) :
    (w.writeByte byte).2.stats.rawBytes = w.stats.rawBytes := by
  have hemit := emits w
  revert h
  unfold writeByte
  split
  · exact fun _ => rfl
  split
  · split
    · exact fun h => absurd rfl h
    · next e w₁ heq =>
      rw [heq] at hemit
      cases hemit with
      | refused => exact fun _ => by rw [pack_stats]
      | torn => exact fun _ => by rw [breakOff, pack_stats]
  · exact fun h => absurd rfl h

theorem operate_turn (hw : w.Bounded) (usable : w.phase = .accepting) (hsink : w.sink.NeverFails)
    (hc : ¬c.Ends) :
    Turn c w (c.operate w).1 (c.operate w).2 ∧ (c.operate w).2.Bounded ∧
      (c.operate w).2.sink.NeverFails := by
  have hsingle : ∀ byte, c = .writeByte byte → (c.operate w).1 ≠ .ok () →
      (c.operate w).2.stats.rawBytes = w.stats.rawBytes := by
    rintro byte rfl h
    exact rawBytes_writeByte h
  rcases operate_ran hw usable hc with h | ⟨refusal, h⟩
  · generalize c.operate w = outcome at h hsingle
    have hran := h
    cases h with
    | done sends =>
      exact ⟨⟨sends.phase.trans usable, .inl hran, hsingle⟩, sends.bounded, sends.neverFails hsink⟩
    | failed _ sends =>
      exact ⟨⟨sends.phase.trans usable, .inl hran, hsingle⟩, sends.bounded, sends.neverFails hsink⟩
    | lost faulty => exact absurd hsink faulty
  · rw [h] at hsingle ⊢
    exact ⟨⟨usable, .inr ⟨refusal, rfl, rfl⟩, hsingle⟩, hw, hsink⟩

/-- Whatever the codec does, a writer stays open until it is ended. -/
theorem perform_usable (hw : w.Bounded) (usable : w.phase = .accepting) (hsink : w.sink.NeverFails)
    {calls : List Call} (hcalls : ∀ c ∈ calls, ¬c.Ends) :
    (w.perform calls).2.phase = .accepting ∧ (w.perform calls).2.sink.NeverFails := by
  induction calls generalizing w with
  | nil => exact ⟨usable, hsink⟩
  | cons c calls ih =>
    obtain ⟨hc, hrest⟩ := List.forall_mem_cons.1 hcalls
    obtain ⟨hturn, hbounded, hsink'⟩ := operate_turn hw usable hsink hc
    rw [perform_cons]
    exact ih hbounded hturn.usable hsink' hrest

/-- Behind such a call is a flush, after which a `close` or a `finish` lets go of the sink. -/
theorem flush_of_operate (usable : w.phase = .accepting) (hc : c.Flushes)
    (h : c.operate w = (.ok (), w')) :
    ∃ w₁, w.flush = (.ok (), w₁) ∧ (w' = w₁ ∨ w' = w₁.letGo) := by
  cases c with
  | flush | flushIo => exact ⟨w', h, .inl rfl⟩
  | close =>
    simp only [Call.operate, close, usable] at h
    obtain ⟨hok, rfl⟩ := Prod.mk.inj h
    exact ⟨w.flush.2, Prod.ext hok rfl, .inr rfl⟩
  | finish =>
    simp only [Call.operate, finish] at h
    split at h
    · next w₁ hflush =>
      cases h
      exact ⟨w₁, hflush, .inr rfl⟩
    · cases h
  | _ => exact hc.elim

theorem sends_of_flush (hw : w.Bounded) (usable : w.phase = .accepting)
    (h : w.flush = (.ok (), w')) : ∃ sent, Sends [] sent w w' := by
  have hran := flush_ran hw usable
  rw [h] at hran
  cases hran with
  | done sends => exact ⟨_, sends⟩

/-- What a call that succeeds leaves nothing pending has sent by then. -/
theorem sends_flushes (hw : w.Bounded) (usable : w.phase = .accepting) (hc : c.Flushes)
    (h : c.operate w = (.ok (), w')) :
    ∃ sent w₁, Sends [] sent w w₁ ∧ w₁.pending = [] ∧ w'.sink = w₁.sink := by
  obtain ⟨w₁, hflush, hsame⟩ := flush_of_operate usable hc h
  have hsink : w'.sink = w₁.sink := by
    rcases hsame with rfl | rfl
    · rfl
    · rfl
  obtain ⟨sent, hsends⟩ := sends_of_flush hw usable hflush
  exact ⟨sent, w₁, hsends, flush_ok usable hflush, hsink⟩

theorem bounded_fresh {blockSize : Nat} (hpos : 0 < blockSize) (sink : Sink) (codec : Codec) :
    (fresh sink codec blockSize).Bounded :=
  ⟨hpos, Nat.zero_le _⟩

/-- A failing codec loses and duplicates nothing. Over a sink that never fails a writer stays open
whatever its codec does, every call that does not end it takes its turn as `Turn` says, and once a
flush, a `close` or a `finish` succeeds, the sink holds the header and the records of blocks that
carry exactly the bytes that were accepted, none of them empty or longer than the block size. -/
theorem failing_codec_keeps_all {sink : Sink} (hsink : sink.NeverFails) (codec : Codec)
    {blockSize : Nat} (hpos : 0 < blockSize) (hmax : blockSize ≤ maxBlockSize) :
    ∃ w start, create sink codec blockSize = (.ok w, start) ∧
      ∀ calls : List Call, (∀ c ∈ calls, ¬c.Ends) →
        ∃ w', (w.perform calls).2 = w' ∧ w'.phase = .accepting ∧
          (∀ c : Call, ¬c.Ends → ∃ result w'', c.perform w' = (c.answer result, w'') ∧
            Turn c w' result w'') ∧
          ∀ c : Call, c.Flushes → ∀ w'', c.operate w' = (.ok (), w'') →
            ∃ sent, w''.sink.toList =
                sink.toList ++ ((Header.current codec.id).encode ++ recordsOf sent) ∧
              sent.flatMap Prod.fst = w.accepted calls ∧
              ∀ block ∈ sent, 1 ≤ block.1.length ∧ block.1.length ≤ blockSize ∧
                ∃ call, codec.Makes call block.1 (codec.maxCompressedLength blockSize) block.2 := by
  obtain ⟨s, hheader, hs, hlist, -⟩ := hsink.writeAll (Header.current codec.id).encode
  have hfresh := bounded_fresh hpos s codec
  refine ⟨fresh s codec blockSize, s, ?_, fun calls hcalls => ?_⟩
  · rw [create_eq hpos hmax, hheader]
  obtain ⟨husable, hsink'⟩ := perform_usable hfresh rfl hs hcalls
  obtain ⟨sent, hsends⟩ := perform_sends hfresh rfl husable
  refine ⟨_, rfl, husable, fun c hc => ?_, fun c hc w'' hcall => ?_⟩
  · exact ⟨_, _, Call.perform_eq c _, (operate_turn hsends.bounded husable hsink' hc).1⟩
  · obtain ⟨last, w₁, hlast, hnil, hw''⟩ := sends_flushes hsends.bounded husable hc hcall
    -- what was pending went out with the last flush
    have hall := hsends.trans hlast
    have hcarried := hall.carried
    rw [hnil, List.append_nil, List.append_nil] at hcarried
    refine ⟨sent ++ last, ?_, hcarried, fun block hmem => ?_⟩
    · rw [hw'', hall.contents, ← List.append_assoc, ← hlist]
      rfl
    · obtain ⟨hone, hsize⟩ := hall.sizes block hmem
      exact ⟨hone, hsize, hall.made block hmem⟩

/-- A codec that fails at every other attempt, half of these times by a size that cannot be. -/
def everyOther : Codec :=
  { Codec.passthrough with
    compress := fun call raw room =>
      if call % 4 = 0 then .error (.codec "passthrough" "not now")
      else if call % 4 = 2 then .ok ⟨room + 1, []⟩
      else Codec.passthrough.compress call raw room }

/-- Five bytes in blocks of two. The first two writes and the second flush fail, each with its
block, and the flush after them finds all that was accepted. -/
theorem failing_codec_keeps_all_everyOther :
    ∃ w start w', create .unlimited everyOther 2 = (.ok w, start) ∧
      (w.perform [.write [1, 2, 3], .write [3, 4], .flush, .writeByte 5, .flush]).2 = w' ∧
      w.accepted [.write [1, 2, 3], .write [3, 4], .flush, .writeByte 5, .flush] =
        [1, 2, 3, 4, 5] ∧
      ∃ w'' sent, Call.flush.operate w' = (.ok (), w'') ∧
        w''.sink.toList = (Header.current 0).encode ++ recordsOf sent ∧
        sent.flatMap Prod.fst = [1, 2, 3, 4, 5] ∧
        ∀ block ∈ sent, 1 ≤ block.1.length ∧ block.1.length ≤ 2 := by
  obtain ⟨w, start, hcreate, h⟩ := failing_codec_keeps_all Sink.neverFails_unlimited everyOther
    (by decide : 0 < 2) (by decide)
  obtain ⟨w', hperform, -, -, hflush⟩ := h
    [.write [1, 2, 3], .write [3, 4], .flush, .writeByte 5, .flush] (by simp [Call.Ends])
  -- this writer is the new one over the sink that holds the header
  obtain ⟨s, hs⟩ : ∃ s, s = (Sink.unlimited.writeAll (Header.current 0).encode).2 := ⟨_, rfl⟩
  have hfresh : create .unlimited everyOther 2 = (.ok (fresh s everyOther 2), s) := by
    rw [hs]
    rfl
  cases hcreate.symm.trans hfresh
  have haccepted : (fresh start everyOther 2).accepted
      [.write [1, 2, 3], .write [3, 4], .flush, .writeByte 5, .flush] = [1, 2, 3, 4, 5] := by
    rw [hs]
    decide +kernel
  have hok : (Call.flush.operate w').1 = .ok () := by
    rw [← hperform, hs]
    decide +kernel
  obtain ⟨sent, hcontents, hcarried, hblocks⟩ := hflush .flush trivial _ (Prod.ext hok rfl)
  exact ⟨_, _, w', hcreate, hperform, haccepted, _, sent, Prod.ext hok rfl, hcontents,
    hcarried.trans haccepted, fun block hmem => ⟨(hblocks block hmem).1, (hblocks block hmem).2.1⟩⟩

end Writer

end FramedStream
