import FramedStream.Proofs.Writer.Books
import FramedStream.Proofs.Writer.FaultySink

/-!
# Writers that have ended

A writer ends when it is closed and when its sink fails. From then on its sink is left alone,
nothing is counted any more and nothing that is pending is ever sent.

* `Sink.writeAll_ne`, `Sink.flush_ne`: a call on a sink shows, so a sink that is as it was before
  has not been called;
* `Inert` says what is left of a writer that has ended, `inert_of_ended` that it is left of each;
* `Once` bounds what the end of a writer does to its sink, `operate_once` shows the bound for every
  way to end one. To finish is the one to look at: it may try twice to send the pending bytes;
* `Spent`: a sink that has failed is not called again, so it fails once;
* `ended_is_absorbing` states the result for every session with a writer.
-/

namespace FramedStream

namespace Sink

/-- A write of any bytes shows: some have arrived, or there is one more failure. -/
theorem writeAll_ne (s : Sink) {bytes : Bytes} (hne : bytes ≠ []) : (s.writeAll bytes).2 ≠ s := by
  have hwrote := s.wrote_writeAll bytes
  generalize s.writeAll bytes = outcome at hwrote
  intro hsame
  cases hwrote with
  | @whole s' contents =>
    obtain rfl : s' = s := hsame
    exact hne (List.append_right_eq_self.1 contents.symm)
  | @torn s' _ _ _ _ _ failures =>
    obtain rfl : s' = s := hsame
    omega

/-- So does a flush. -/
theorem flush_ne (s : Sink) : s.flush.2 ≠ s := by
  have hflushed := s.flushed_flush
  generalize s.flush = outcome at hflushed
  intro hsame
  cases hflushed with
  | @done s' _ _ flushes =>
    obtain rfl : s' = s := hsame
    omega
  | @failed s' _ _ failures =>
    obtain rfl : s' = s := hsame
    omega

end Sink

namespace Writer

variable {w w₁ w' : Writer}

/-! ### Nothing more happens -/

section Unusable

variable (hw : w.phase ≠ .accepting) (t : Sink)

include hw

/-- What a writer that accepts nothing answers does not depend on its sink. -/
theorem operate_onto_unusable (c : Call) :
    c.operate (w.onto t) = ((c.operate w).1, (c.operate w).2.onto t) := by
  obtain ⟨e, h⟩ := unusable?_of_ne hw
  have hwriteBytes : ∀ buffer offset length, (w.onto t).writeBytes buffer offset length =
      ((w.writeBytes buffer offset length).1, (w.writeBytes buffer offset length).2.onto t) := by
    intro buffer offset length
    simp only [writeBytes, onto_unusable?, h]
  have hwriteElements : ∀ (ty : ElementType) (array : List ty.Word) offset count,
      (w.onto t).writeElements ty array offset count = ((w.writeElements ty array offset count).1,
        (w.writeElements ty array offset count).2.onto t) := by
    intro ty array offset count
    simp only [writeElements]
    split
    · rfl
    · exact hwriteBytes _ _ _
  have hdrop : (w.onto t).drop = w.onto t := drop_unusable hw
  cases c with
  | writeBytes buffer offset length => exact hwriteBytes _ _ _
  | writeByte byte => simp only [Call.operate, writeByte, onto_unusable?, h]
  | writeElements ty array offset count => exact hwriteElements _ _ _ _
  | writeAllElements ty array => exact hwriteElements _ _ _ _
  | write buffer => exact hwriteBytes _ _ _
  | flush | flushIo => simp only [Call.operate, flush, onto_unusable?, h]
  | close =>
    simp only [Call.operate, close, onto_phase]
    cases hphase : w.phase with
    | accepting => exact absurd hphase hw
    | broken | closed => rfl
  | finish =>
    simp only [Call.operate, finish, flush, onto_unusable?, h]
    rw [hdrop, drop_unusable hw]
  | drop =>
    simp only [Call.operate]
    rw [hdrop, drop_unusable hw]

theorem perform_onto_unusable (calls : List Call) :
    (w.onto t).perform calls = ((w.perform calls).1, (w.perform calls).2.onto t) := by
  induction calls generalizing w with
  | nil => rfl
  | cons c calls ih =>
    have hnext : (c.operate w).2.phase ≠ .accepting := by
      rcases operate_unusable hw c with h | h
      · rwa [h]
      · simp [h, letGo]
    rw [perform_cons, perform_cons, operate_onto_unusable hw t c]
    simp only [ih hnext]

end Unusable

/-- What is left of a writer that has ended: whatever is done to it, its sink is not called, and
would not be if it were another one, of which no answer depends. Nothing is counted and nothing
leaves the pending bytes. To close it always succeeds and leaves it without a sink. -/
structure Inert (w : Writer) : Prop where
  spared : ∀ later, (w.perform later).2.sink = w.sink
  blind : ∀ later t, (w.onto t).perform later = ((w.perform later).1, (w.perform later).2.onto t)
  stats : ∀ later, (w.perform later).2.stats = w.stats
  buffered : ∀ later, (w.perform later).2.buffered = w.buffered
  closes : ∀ later, ∃ w', (w.perform later).2.close = (.ok (), w') ∧ w'.sink? = none

theorem close_unusable (hw : w.phase ≠ .accepting) : w.close = (.ok (), w.letGo) := by
  unfold close
  split
  · next h => rw [letGo_of_closed h]
  · rfl
  · next h => exact absurd h hw

theorem inert_of_ended (hw : w.phase ≠ .accepting) : w.Inert where
  spared := sink_perform_unusable hw
  blind later t := perform_onto_unusable hw t later
  stats later := by
    rcases perform_unusable hw later with h | h
    · rw [h]
    · rw [h, letGo]
  buffered later := by
    rcases perform_unusable hw later with h | h
    · rw [h]
    · rw [h, letGo, buffered, buffered]
  closes later := by
    refine ⟨_, close_unusable ?_, rfl⟩
    rcases perform_unusable hw later with h | h
    · rwa [h]
    · simp [h, letGo]

/-- A writer that was ended stays so. -/
theorem ended_perform {calls : List Call} (hcalls : ∃ c ∈ calls, c.Ends) (w : Writer) :
    (w.perform calls).2.phase ≠ .accepting := by
  obtain ⟨c, hmem, hc⟩ := hcalls
  obtain ⟨before, after, rfl⟩ := List.append_of_mem hmem
  rw [perform_append, perform_cons]
  have hended := ended_operate hc (w.perform before).2
  rcases perform_unusable hended after with h | h
  · rwa [h]
  · simp [h, letGo]

/-! ### The end of a writer -/

/-- What arrives while a writer ends: nothing, or what a sink takes of one record, which the codec
has made of the pending bytes. -/
def Residual (w : Writer) (bytes : Bytes) : Prop :=
  bytes = [] ∨ w.pending ≠ [] ∧ ∃ call payload,
    w.codec.Makes call w.pending w.room payload ∧ bytes <+: record payload

/-- From the first of two states to the second one, the pending bytes were sent at most once and the
sink was flushed at most once. A flush that has failed counts as one. -/
structure Once (w w' : Writer) : Prop where
  residual : ∃ bytes, w.Residual bytes ∧ w'.sink.toList = w.sink.toList ++ bytes
  blocks : w'.stats.blocks ≤ w.stats.blocks + 1
  flushed : w'.sink.flushes + w'.sink.failures ≤ w.sink.flushes + w.sink.failures + 1

theorem Once.refl (w : Writer) : Once w w where
  residual := ⟨[], .inl rfl, (List.append_nil _).symm⟩
  blocks := Nat.le_succ _
  flushed := Nat.le_succ _

theorem Once.letGo (h : Once w w') : Once w w'.letGo :=
  { h with }

/-- An attempt of the codec that has failed leaves all to be done. -/
theorem Once.of_tried {scratch : Buffer} (h : Once (w.tried scratch) w') : Once w w' :=
  { h with }

/-- How a flush may end, as far as it concerns the end of a writer. -/
inductive FlushEnds (w : Writer) : Except Error Unit × Writer → Prop
  | done {w' : Writer} (once : Once w w') : FlushEnds w (.ok (), w')
  | lost {e : Error} {w' : Writer} (once : Once w w') (ended : w'.phase ≠ .accepting) :
      FlushEnds w (.error e, w')
  /-- The codec has failed, so the sink was not called. -/
  | refused {e : Error} (scratch : Buffer) : FlushEnds w (.error e, w.tried scratch)

/-- What comes after the pending bytes were sent, or there were none. -/
theorem flushSink_once {bytes : Bytes} (hresidual : w.Residual bytes)
    (hcontents : w₁.sink.toList = w.sink.toList ++ bytes)
    (hblocks : w₁.stats.blocks ≤ w.stats.blocks + 1)
    (hcalls : w₁.sink.flushes + w₁.sink.failures = w.sink.flushes + w.sink.failures) :
    FlushEnds w w₁.flushSink := by
  have hflushed := w₁.sink.flushed_flush
  unfold flushSink
  generalize w₁.sink.flush = outcome at hflushed
  cases hflushed with
  | @done s contents failures flushes =>
    refine .done ⟨⟨bytes, hresidual, contents.trans hcontents⟩, hblocks, ?_⟩
    show s.flushes + s.failures ≤ _
    omega
  | @failed s failure contents failures flushes =>
    refine .lost ⟨⟨bytes, hresidual, contents.trans hcontents⟩, hblocks, ?_⟩ (by simp [breakOff])
    show s.flushes + s.failures ≤ _
    omega

theorem flush_once (usable : w.phase = .accepting) : FlushEnds w w.flush := by
  have hemits := emits w
  simp only [flush, unusable?, usable]
  generalize w.emit = outcome at hemits
  cases hemits with
  | nothing pending =>
    exact flushSink_once (.inl rfl) (List.append_nil _).symm (Nat.le_succ _) rfl
  | refused pending pack =>
    rw [pack_snd]
    exact .refused _
  | @sent payload s pending pack write =>
    have hwrote := w.sink.wrote_writeRecord payload
    rw [write] at hwrote
    cases hwrote with
    | whole contents failures flushes =>
      have hresidual : w.Residual (record payload) :=
        .inr ⟨pending, _, payload, makes_of_pack pack, List.prefix_rfl⟩
      refine flushSink_once hresidual contents ?_ ?_
      · simp [emitted]
      · simp [emitted, flushes, failures]
  | @torn payload failure s pending pack write =>
    have hwrote := w.sink.wrote_writeRecord payload
    rw [write] at hwrote
    cases hwrote with
    | torn part short contents failures flushes =>
      refine .lost ⟨⟨_, .inr ⟨pending, _, payload, makes_of_pack pack, part⟩, contents⟩, ?_, ?_⟩
        (by simp [breakOff])
      · simp [breakOff]
      · simp [breakOff, flushes, failures, Nat.add_assoc]

theorem flushEnds_once {outcome : Except Error Unit × Writer} (h : FlushEnds w outcome) :
    Once w outcome.2 := by
  cases h with
  | done once => exact once
  | lost once => exact once
  | refused scratch => exact .of_tried (.refl _)

theorem close_once (w : Writer) : Once w w.close.2 := by
  unfold close
  split
  · exact .refl w
  · exact (Once.refl w).letGo
  · next usable => exact (flushEnds_once (flush_once usable)).letGo

theorem drop_once (w : Writer) : Once w w.drop := by
  unfold drop
  split
  · exact close_once w
  · exact .refl w

/-- A writer that is finished and whose flush fails is given up. If it was the codec that has
failed, it is asked a second time, but the first time nothing was sent. -/
theorem finish_once (usable : w.phase = .accepting) : Once w w.finish.2 := by
  have hflush := flush_once usable
  unfold finish
  generalize w.flush = outcome at hflush
  cases hflush with
  | done once => exact once.letGo
  | lost once ended =>
    simp only [drop_unusable ended]
    exact once
  | refused scratch => exact .of_tried (drop_once _)

/-- Whichever way a writer is ended. -/
theorem operate_once {ending : Call} (hending : ending.Ends) (w : Writer) :
    Once w (ending.operate w).2 := by
  by_cases usable : w.phase = .accepting
  · cases ending with
    | close => exact close_once w
    | finish => exact finish_once usable
    | drop => exact drop_once w
    | _ => exact hending.elim
  · rcases operate_unusable usable ending with h | h
    · rw [h]
      exact .refl w
    · rw [h]
      exact (Once.refl w).letGo

/-- However many calls follow the first one that ends the writer, and if they all try to end it. -/
theorem perform_once {ending : Call} (hending : ending.Ends) (w : Writer) (later : List Call) :
    Once w (w.perform (ending :: later)).2 := by
  have honce := operate_once hending w
  rw [perform_cons]
  rcases perform_unusable (ended_operate hending w) later with h | h
  · rw [h]
    exact honce
  · rw [h]
    exact honce.letGo

/-! ### Sessions -/

/-- A sink that had failed `failures` times has failed at most once since, and not at all while the
writer accepts. -/
structure Spent (failures : Nat) (w : Writer) : Prop where
  once : w.sink.failures ≤ failures + 1
  faultless : w.phase = .accepting → w.sink.failures = failures

variable {failures : Nat}

/-- Only a writer that accepts calls its sink, which is then about to fail for the first time. -/
theorem Move.spent (hmove : Move w w') (h : Spent failures w) : Spent failures w' := by
  cases hmove with
  | accept => exact ⟨h.once, h.faultless⟩
  | refused => exact ⟨by simpa using h.once, by simpa using h.faultless⟩
  | sent usable _ _ write =>
    have hsame := (Sink.writeRecord_ok write).2.trans (h.faultless usable)
    exact ⟨hsame ▸ Nat.le_succ _, fun _ => hsame⟩
  | torn usable _ _ write =>
    obtain ⟨taken, -, -, -, hfailures⟩ := Sink.writeRecord_error write
    rw [h.faultless usable] at hfailures
    exact ⟨Nat.le_of_eq hfailures, fun hphase => by cases hphase⟩
  | flushed usable flush =>
    have hsame := (Sink.flush_ok flush).2.trans (h.faultless usable)
    exact ⟨hsame ▸ Nat.le_succ _, fun _ => hsame⟩
  | lost usable flush =>
    have hfailures := (Sink.flush_error flush).2
    rw [h.faultless usable] at hfailures
    exact ⟨Nat.le_of_eq hfailures, fun hphase => by cases hphase⟩
  | letGo => exact ⟨h.once, fun hphase => by cases hphase⟩

theorem Reaches.spent (hreach : Reaches w w') (h : Spent failures w) : Spent failures w' := by
  induction hreach with
  | refl => exact h
  | tail _ hmove ih => exact hmove.spent ih

/-- In every session, a writer that was closed, finished or given up, whether that succeeded or not,
and one whose sink has failed, does nothing any more. Its sink fails at most once. Whatever state a
writer is in, the first call that ends it and all that come after it send the pending bytes at most
once and flush the sink at most once. -/
theorem ended_is_absorbing {sink start : Sink} {codec : Codec} {blockSize : Nat} {w : Writer}
    (hcreate : create sink codec blockSize = (.ok w, start)) (calls : List Call) :
    ∃ w', (w.perform calls).2 = w' ∧
      ((∃ c ∈ calls, c.Ends) ∨ w'.sink.failures ≠ sink.failures → w'.Inert) ∧
      w'.sink.failures ≤ sink.failures + 1 ∧
      ∀ ending : Call, ending.Ends → ∀ later, Once w' (w'.perform (ending :: later)).2 := by
  have hnew := create_audited hcreate
  have usable : w.phase = .accepting := by
    obtain ⟨-, -, rfl, -⟩ := create_ok hcreate
    rfl
  have hfresh : Spent sink.failures w :=
    ⟨hnew.faultless usable ▸ Nat.le_succ _, hnew.faultless⟩
  have hspent := Reaches.spent (perform_moves hnew.toBounded calls) hfresh
  refine ⟨_, rfl, ?_, hspent.once, fun ending hending later => perform_once hending _ later⟩
  rintro (hended | hfailed)
  · exact inert_of_ended (ended_perform hended w)
  · exact inert_of_ended fun usable => hfailed (hspent.faultless usable)

/-- Five bytes in blocks of four, over a sink of which the first flush fails. The fifth byte is sent
before that flush; the sixth one, which is given to the writer afterwards, never is. -/
theorem ended_is_absorbing_flush :
    ∃ w start w', create { flushScript := [some ⟨.other, "stop"⟩] } .passthrough 4 =
        (.ok w, start) ∧
      (w.perform [.write [1, 2, 3, 4, 5], .finish]).2 = w' ∧ w'.sink.failures = 1 ∧
      w'.sink.toList.length = 20 + (4 + 8) + (4 + 5) ∧ w'.stats.blocks = 2 ∧
      w'.Inert ∧ Once w' (w'.perform [.close, .write [6], .drop]).2 := by
  obtain ⟨w, start, hcreate⟩ : ∃ w start,
      create { flushScript := [some ⟨.other, "stop"⟩] } .passthrough 4 = (.ok w, start) :=
    ⟨_, _, rfl⟩
  obtain ⟨w', hperform, hinert, -, honce⟩ :=
    ended_is_absorbing hcreate [.write [1, 2, 3, 4, 5], .finish]
  have hended : ∃ c ∈ [Call.write [1, 2, 3, 4, 5], .finish], c.Ends :=
    ⟨.finish, by simp, trivial⟩
  refine ⟨w, start, w', hcreate, hperform, ?_, ?_, ?_, hinert (.inl hended),
    honce .close trivial [.write [6], .drop]⟩
  · rw [← hperform]
    cases hcreate
    decide +kernel
  · rw [← hperform]
    cases hcreate
    decide +kernel
  · rw [← hperform]
    cases hcreate
    decide +kernel

end Writer

end FramedStream
