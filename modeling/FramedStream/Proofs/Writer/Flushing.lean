import FramedStream.Proofs.Writer.Books

/-!
# Flushes that succeed

When a flush succeeds, everything is out. It makes no difference what has happened to the writer
before: the codec may have failed and left a block that is complete, a write may have been taken
in part, the sink may have taken its bytes a few at a time or been interrupted.

* `Emptied` is the sink once it has got what was pending, `FlushedOut` what a flush that succeeds
  has done: the record of the pending bytes first, if there are any, and the sink's own flush last;
* `operate_settled`: where nothing is pending, a flush adds no bytes, whether it succeeds or not;
* `flush_leaves_nothing` puts this together with the books for any session.
-/

namespace FramedStream

namespace Writer

variable {w w' w₁ : Writer} {c : Call}

/-- The sink after it got the record of the pending bytes. Without any it was not called. -/
inductive Emptied (w : Writer) : Sink → Prop
  | nothing (pending : w.pending = []) : Emptied w w.sink
  | sent {payload : Bytes} {s : Sink} (pending : w.pending ≠ [])
      (makes : w.codec.Makes w.compressCalls w.pending w.room payload)
      (write : w.sink.writeRecord payload = (.ok (), s)) : Emptied w s

theorem Emptied.flushes {s : Sink} (h : Emptied w s) : s.flushes = w.sink.flushes := by
  cases h with
  | nothing => rfl
  | @sent payload _ _ _ write =>
    have hwrote := w.sink.wrote_writeRecord payload
    rw [write] at hwrote
    cases hwrote with
    | whole _ _ flushes => exact flushes

theorem Emptied.failures {s : Sink} (h : Emptied w s) : s.failures = w.sink.failures := by
  cases h with
  | nothing => rfl
  | sent _ _ write => exact (Sink.writeRecord_ok write).2

/-- What a flush that succeeds has done. After the last byte has arrived, the sink is flushed. -/
structure FlushedOut (w w' : Writer) : Prop where
  pending : w'.pending = []
  last : ∃ s, Emptied w s ∧ s.flush = (.ok (), w'.sink)

theorem FlushedOut.letGo (h : FlushedOut w w') : FlushedOut w w'.letGo :=
  ⟨h.pending, h.last⟩

/-- No bytes come behind the flush of the sink, and it is the only one. -/
theorem FlushedOut.sink (h : FlushedOut w w') :
    ∃ s, Emptied w s ∧ s.flush = (.ok (), w'.sink) ∧ s.toList = w'.sink.toList ∧
      w'.sink.flushes = w.sink.flushes + 1 ∧ w'.sink.failures = w.sink.failures := by
  obtain ⟨s, hemptied, hflush⟩ := h.last
  have hflushed := s.flushed_flush
  rw [hflush] at hflushed
  cases hflushed with
  | done contents failures flushes =>
    exact ⟨s, hemptied, hflush, contents.symm, flushes.trans (by rw [hemptied.flushes]),
      failures.trans hemptied.failures⟩

theorem emptied_of_emit (h : w.emit = (.ok (), w₁)) : Emptied w w₁.sink := by
  have hemits := emits w
  rw [h] at hemits
  cases hemits with
  | nothing pending => exact .nothing pending
  | sent pending pack write => exact .sent pending (makes_of_pack pack) write

theorem flushedOut_of_flush (usable : w.phase = .accepting) (h : w.flush = (.ok (), w')) :
    FlushedOut w w' := by
  have hpending := flush_ok usable h
  simp only [flush, unusable?, usable] at h
  split at h
  · next w₁ hemit =>
    refine ⟨hpending, w₁.sink, emptied_of_emit hemit, ?_⟩
    simp only [flushSink] at h
    split at h
    · next s hflush =>
      cases h
      exact hflush
    · cases h
  · cases h

theorem flushedOut_of_operate (usable : w.phase = .accepting) (hc : c.Flushes)
    (h : c.operate w = (.ok (), w')) : FlushedOut w w' := by
  obtain ⟨w₁, hflush, rfl | rfl⟩ := flush_of_operate usable hc h
  · exact flushedOut_of_flush usable hflush
  · exact (flushedOut_of_flush usable hflush).letGo

/-- The answer to such a call tells whether it has succeeded. -/
theorem operate_of_answer (hc : c.Flushes) (h : c.perform w = (c.answer (.ok ()), w')) :
    c.operate w = (.ok (), w') := by
  rw [Call.perform_eq] at h
  have hanswer : c.answer (c.operate w).1 = c.answer (.ok ()) := congrArg Prod.fst h
  have hstate : (c.operate w).2 = w' := congrArg Prod.snd h
  refine Prod.ext ?_ hstate
  generalize (c.operate w).1 = result at hanswer ⊢
  cases result with
  | ok => rfl
  | error e =>
    cases c with
    | flush | flushIo | close | finish => cases hanswer
    | _ => exact hc.elim

/-! ### Flushes of a writer with nothing pending -/

theorem emit_of_nil (hnil : w.pending = []) : w.emit = (.ok (), w) := by
  rw [emit, if_pos (List.isEmpty_iff.2 hnil)]

/-- All that is left to do is the flush of the sink. If that fails, the writer is over. -/
theorem flush_settled (hnil : w.pending = []) :
    w.flush.2.sink.toList = w.sink.toList ∧
      ∀ e, w.flush.1 = .error e → w.flush.2.phase ≠ .accepting := by
  have hflushed := w.sink.flushed_flush
  unfold flush
  split
  · next e husable =>
    refine ⟨rfl, fun _ _ usable => ?_⟩
    have usable : w.phase = .accepting := usable
    simp [unusable?, usable] at husable
  · rw [emit_of_nil hnil]
    simp only [flushSink]
    generalize w.sink.flush = outcome at hflushed
    cases hflushed with
    | done contents => exact ⟨contents, fun e he => by cases he⟩
    | failed contents => exact ⟨contents, fun _ _ => by simp [breakOff]⟩

/-- A second flush adds nothing to the sink, in whichever way it is made. -/
theorem operate_settled (hnil : w.pending = []) (hc : c.Flushes) :
    (c.operate w).2.sink.toList = w.sink.toList := by
  obtain ⟨hcontents, hover⟩ := flush_settled hnil
  cases c with
  | flush | flushIo => exact hcontents
  | close =>
    simp only [Call.operate, close]
    split
    · rfl
    · rfl
    · exact hcontents
  | finish =>
    simp only [Call.operate, finish]
    split
    · next w₁ hflush =>
      rw [hflush] at hcontents
      exact hcontents
    · next e w₁ hflush =>
      rw [hflush] at hcontents hover
      rw [drop_unusable (hover e rfl)]
      exact hcontents
  | _ => exact hc.elim

/-- What a sink that has not failed holds behind its former contents is counted byte for byte. -/
theorem Audited.length_contents {codec : Codec} {blockSize failures : Nat} {former : Bytes}
    {sent : List (Bytes × Bytes)}
    (h : Audited codec blockSize (former ++ (Header.current codec.id).encode) failures sent w)
    (hfaultless : w.sink.failures = failures) :
    w.sink.toList.length = former.length + w.stats.framedBytes := by
  rw [h.exact hfaultless, h.framedBytes]
  simp only [List.length_append, Header.length_encode]
  omega

/-- When a `flush`, a `close` or a `finish` succeeds on a writer that was open, everything is out:
nothing is pending, and the sink holds as many bytes as are counted, which are the header and
complete records. These carry all that was accepted, of which there are as many bytes as are
counted. The sink was flushed once in that call, after its last byte. This holds after any session,
with any codec and any sink, and another flush right after it adds no byte. -/
theorem flush_leaves_nothing {sink start : Sink} {codec : Codec} {blockSize : Nat} {w₀ : Writer}
    (hcreate : create sink codec blockSize = (.ok w₀, start)) (calls : List Call) {w : Writer}
    (hcalls : (w₀.perform calls).2 = w) (usable : w.phase = .accepting) {c : Call}
    (hc : c.Flushes) {w' : Writer} (hok : c.perform w = (c.answer (.ok ()), w')) :
    w'.buffered = 0 ∧
      w'.sink.toList.length = sink.toList.length + w'.stats.framedBytes ∧
      (w₀.accepted calls).length = w'.stats.rawBytes ∧
      (∃ sent, w'.sink.toList =
          sink.toList ++ ((Header.current codec.id).encode ++ recordsOf sent) ∧
        sent.flatMap Prod.fst = w₀.accepted calls ∧
        ∀ block ∈ sent, 1 ≤ block.1.length ∧ block.1.length ≤ blockSize ∧
          ∃ call, codec.Makes call block.1 (codec.maxCompressedLength blockSize) block.2) ∧
      (∃ s, Emptied w s ∧ s.flush = (.ok (), w'.sink) ∧ s.toList = w'.sink.toList ∧
        w'.sink.flushes = w.sink.flushes + 1 ∧ w'.sink.failures = w.sink.failures) ∧
      ∀ again : Call, again.Flushes → (again.perform w').2.sink.toList = w'.sink.toList := by
  have hoperate := operate_of_answer hc hok
  have hout := flushedOut_of_operate usable hc hoperate
  have hnil := hout.pending
  obtain ⟨s, hemptied, hflush, hcontents, hflushes, hfailures⟩ := hout.sink
  -- the books say how much there is in the sink
  have hnew := create_audited hcreate
  obtain ⟨_, hbooks⟩ := (perform_moves hnew.toBounded calls).audited hnew
  rw [hcalls] at hbooks
  have hmoves := operate_moves hbooks.toBounded c
  rw [hoperate] at hmoves
  obtain ⟨_, hbooks'⟩ := hmoves.audited hbooks
  have hlength := hbooks'.length_contents (hfailures.trans (hbooks.faultless usable))
  -- and what was accepted since the beginning has been sent
  obtain ⟨-, -, rfl, hstart⟩ := create_ok hcreate
  have husable : ((fresh start codec blockSize).perform calls).2.phase = .accepting := by
    rw [hcalls]
    exact usable
  obtain ⟨sent, hsends⟩ := perform_sends hnew.toBounded rfl husable
  rw [hcalls] at hsends
  obtain ⟨w₁, hw₁, hsame⟩ := flush_of_operate usable hc hoperate
  obtain ⟨last, hlast⟩ := sends_of_flush hbooks.toBounded usable hw₁
  have hall := hsends.trans hlast
  rw [List.append_nil] at hall
  obtain ⟨hstats, hsink, hpending⟩ :
      w'.stats = w₁.stats ∧ w'.sink = w₁.sink ∧ w'.pending = w₁.pending := by
    rcases hsame with rfl | rfl
    · exact ⟨rfl, rfl, rfl⟩
    · exact ⟨rfl, rfl, rfl⟩
  have hcarried := hall.carried
  rw [← hpending, hnil, List.append_nil] at hcarried
  refine ⟨by rw [buffered, hnil]; rfl, hlength, ?_,
    ⟨sent ++ last, ?_, hcarried, fun block hmem => ?_⟩,
    ⟨s, hemptied, hflush, hcontents, hflushes, hfailures⟩, fun again hagain => ?_⟩
  · rw [hstats, hall.rawBytes]
    exact (Nat.zero_add _).symm
  · rw [hsink, hall.contents, ← List.append_assoc, ← hstart]
    rfl
  · obtain ⟨hone, hsize⟩ := hall.sizes block hmem
    exact ⟨hone, hsize, hall.made block hmem⟩
  · rw [Call.perform_eq]
    exact operate_settled hnil hagain

/-- Three bytes in blocks of two. The sink takes a few bytes at a time and is interrupted, and the
codec fails twice: first it leaves a block that is complete, of a write that is half taken, then the
flush of the last byte fails. The next flush succeeds. -/
theorem flush_leaves_nothing_everyOther :
    ∃ w₀ start w w', create
        { script := [.takeAtMost 7, .fail ⟨.interrupted, "again"⟩, .takeAtMost 20],
          pieceLimit := some 3 } everyOther 2 = (.ok w₀, start) ∧
      (w₀.perform [.write [1, 2, 3], .writeByte 3, .flush]).2 = w ∧ w.buffered = 1 ∧
      Call.flushIo.perform w = (.io (.ok ()), w') ∧ w'.buffered = 0 ∧
      w'.sink.toList.length = 0 + w'.stats.framedBytes ∧
      w₀.accepted [.write [1, 2, 3], .writeByte 3, .flush] = [1, 2, 3] ∧ w'.stats.rawBytes = 3 ∧
      (∃ sent, w'.sink.toList = [] ++ ((Header.current 0).encode ++ recordsOf sent) ∧
        sent.flatMap Prod.fst = [1, 2, 3]) ∧
      w'.sink.flushes = 1 ∧ (Call.close.perform w').2.sink.toList = w'.sink.toList := by
  obtain ⟨w₀, start, hcreate⟩ : ∃ w₀ start, create
      { script := [.takeAtMost 7, .fail ⟨.interrupted, "again"⟩, .takeAtMost 20],
        pieceLimit := some 3 } everyOther 2 = (.ok w₀, start) := ⟨_, _, rfl⟩
  obtain ⟨w, hw⟩ : ∃ w, (w₀.perform [.write [1, 2, 3], .writeByte 3, .flush]).2 = w := ⟨_, rfl⟩
  have haccepted : w₀.accepted [.write [1, 2, 3], .writeByte 3, .flush] = [1, 2, 3] := by
    cases hcreate
    decide +kernel
  have husable : w.phase = .accepting ∧ w.buffered = 1 ∧ w.sink.flushes = 0 := by
    subst hw
    cases hcreate
    decide +kernel
  have hok : (Call.flushIo.perform w).1 = .io (.ok ()) := by
    subst hw
    cases hcreate
    decide +kernel
  obtain ⟨hnil, hlength, hraw, ⟨sent, hcontents, hcarried, -⟩, ⟨s, -, -, -, hflushes, -⟩, hagain⟩ :=
    flush_leaves_nothing (c := .flushIo) hcreate _ hw husable.1 trivial (Prod.ext hok rfl)
  rw [haccepted] at hraw hcarried
  rw [husable.2.2] at hflushes
  exact ⟨w₀, start, w, _, hcreate, hw, husable.2.1, Prod.ext hok rfl, hnil, hlength, haccepted,
    hraw.symm, ⟨sent, hcontents, hcarried⟩, hflushes, hagain .close trivial⟩

end Writer

end FramedStream
