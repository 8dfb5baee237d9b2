import FramedStream.Codec.Bundled
import FramedStream.Proofs.Writer.Moves

/-!
# Faulty sinks

A writer over any sink beside the same writer over a sink that takes everything (`Writer.onto`).
Until the first failure both do the same. A failure ends the first of them within one record, and
whatever the second one does from then on, it only adds to a stream of which the first one's sink
holds an initial part.

* `Together`: no failure yet, the writers differ only in their sinks and these hold the same;
* `Cut`: the first writer is over, its sink holds whole records and less than one more;
* `Sync` relates how an operation ends in both of them, `Beside` relates the writers at any time.

The codec need not behave. All that counts is that it does the same in both of them.
-/

namespace FramedStream

namespace Writer

/-- The writer with another sink. -/
def onto (w : Writer) (t : Sink) : Writer := { w with sink := t }

section Onto

variable (w : Writer) (t : Sink)

@[simp] theorem onto_sink : (w.onto t).sink = t := rfl

@[simp] theorem onto_pending : (w.onto t).pending = w.pending := rfl

@[simp] theorem onto_phase : (w.onto t).phase = w.phase := rfl

theorem onto_unusable? : (w.onto t).unusable? = w.unusable? := rfl

theorem Bounded.onto {w : Writer} (h : w.Bounded) (t : Sink) : (w.onto t).Bounded :=
  ⟨h.positive, h.pending⟩

/-- The codec knows nothing of the sink. -/
theorem pack_onto : (w.onto t).pack = (w.pack.1, w.pack.2.onto t) := by
  have hcompress : (w.onto t).codec.compress (w.onto t).compressCalls (w.onto t).pending
      (w.onto t).room = w.codec.compress w.compressCalls w.pending w.room := rfl
  simp only [pack, hcompress]
  cases w.codec.compress w.compressCalls w.pending w.room with
  | error e => rfl
  | ok output =>
    have hsize : (w.onto t).oversized output.reported = w.oversized output.reported := rfl
    simp only [hsize]
    split <;> rfl

end Onto

/-- What a sink holds behind whole records, if it failed before `stream` was all out: less than the
next record, and nothing if it was a flush that failed. -/
inductive Remnant (whole stream : Bytes) : Bytes → Prop
  | nothing (arrived : whole <+: stream) : Remnant whole stream []
  | part {payload rest : Bytes} (part : rest <+: record payload)
      (short : rest.length < (record payload).length)
      (arrived : whole ++ record payload <+: stream) : Remnant whole stream rest

theorem Remnant.mono {whole stream stream' rest : Bytes} (h : Remnant whole stream rest)
    (hstream : stream <+: stream') : Remnant whole stream' rest := by
  cases h with
  | nothing arrived => exact .nothing (arrived.trans hstream)
  | part part short arrived => exact .part part short (arrived.trans hstream)

theorem Remnant.arrived {whole stream rest : Bytes} (h : Remnant whole stream rest) :
    whole ++ rest <+: stream := by
  cases h with
  | nothing arrived => rwa [List.append_nil]
  | part part _ arrived => exact ((List.prefix_append_right_inj whole).2 part).trans arrived

variable {front : Bytes} {failures : Nat} {sent : List (Bytes × Bytes)} {w p : Writer} {t : Sink}

/-- A writer whose sink has not failed, and a perfect sink that holds the same. -/
structure Together (front : Bytes) (failures : Nat) (sent : List (Bytes × Bytes)) (w : Writer)
    (t : Sink) : Prop where
  booked : Booked front failures sent w
  whole : w.sink.failures = failures
  bounded : w.Bounded
  perfect : t.NeverFails
  contents : t.toList = w.sink.toList

/-- A writer that its sink has ended, beside one that goes on. -/
structure Cut (front : Bytes) (failures : Nat) (sent : List (Bytes × Bytes)) (w p : Writer) :
    Prop where
  booked : Booked front failures sent w
  ended : w.phase ≠ .accepting
  failed : w.sink.failures ≠ failures
  bounded : p.Bounded
  remnant : ∃ rest, w.sink.toList = front ++ recordsOf sent ++ rest ∧
    Remnant (front ++ recordsOf sent) p.sink.toList rest

/-- The first failure. What the sink has taken since is a remnant of the other stream. -/
theorem Together.breakOff (h : Together front failures sent w t) {s : Sink} {taken : Bytes}
    (hcontents : s.toList = w.sink.toList ++ taken) (hfailures : s.failures = w.sink.failures + 1)
    (hp : p.Bounded) (hremnant : Remnant w.sink.toList p.sink.toList taken) :
    Cut front failures sent (w.breakOff s) p where
  booked := h.booked.breakOff (hcontents ▸ List.prefix_append _ _) hfailures
  ended := by simp [Writer.breakOff]
  failed := by
    show s.failures ≠ failures
    rw [hfailures, h.whole]
    omega
  bounded := hp
  remnant := by
    rw [← h.booked.exact h.whole]
    exact ⟨taken, hcontents, hremnant⟩

theorem Cut.reaches (h : Cut front failures sent w p) {p' : Writer} (hreach : Reaches p p') :
    Cut front failures sent w p' := by
  obtain ⟨rest, hcontents, hremnant⟩ := h.remnant
  exact { h with
    bounded := Reaches.bounded hreach h.bounded
    remnant := ⟨rest, hcontents, hremnant.mono (Reaches.grows hreach)⟩ }

theorem Cut.letGo (h : Cut front failures sent w p) : Cut front failures sent w.letGo p :=
  { h with
    booked := h.booked.letGo
    ended := by simp [Writer.letGo] }

/-! ### Operations -/

/-- How an operation ends in both writers. -/
inductive Sync (front : Bytes) (failures : Nat) :
    Except Error Unit × Writer → Except Error Unit × Writer → Prop
  | together {result : Except Error Unit} {sent : List (Bytes × Bytes)} {w : Writer} {t : Sink}
      (h : Together front failures sent w t) : Sync front failures (result, w) (result, w.onto t)
  | apart {e : Error} {result : Except Error Unit} {sent : List (Bytes × Bytes)} {w p : Writer}
      (h : Cut front failures sent w p) : Sync front failures (.error e, w) (result, p)

/-- Operations in sequence. Where the first writer has ended, the second one may go on. -/
theorem Sync.andThen {x y : Except Error Unit × Writer} (hxy : Sync front failures x y)
    {f : Writer → Except Error Unit × Writer}
    (hf : ∀ {w t sent}, x = (.ok (), w) → Together front failures sent w t →
      Sync front failures (f w) (f (w.onto t)))
    (hp : ∀ {p : Writer}, y = (.ok (), p) → p.Bounded → Reaches p (f p).2) :
    Sync front failures (andThen x f) (andThen y f) := by
  cases hxy with
  | @together result sent w t h =>
    cases result with
    | error e => exact .together h
    | ok => exact hf rfl h
  | @apart e result sent w p h =>
    cases result with
    | error e => exact .apart h
    | ok => exact .apart (h.reaches (hp rfl h.bounded))

theorem together_accept (h : Together front failures sent w t) {bytes : Bytes}
    (room : w.pending.length + bytes.length ≤ w.blockSize) :
    Together front failures sent (w.accept bytes) t :=
  { h with
    booked := h.booked.accept bytes
    bounded := ⟨h.bounded.positive, by simpa [accept] using room⟩ }

theorem emit_of_ne {w : Writer} (hne : w.pending ≠ []) :
    w.emit = match w.pack.1 with
      | .error e => (.error e, w.pack.2)
      | .ok payload => w.pack.2.putRecord payload := by
  rw [emit, if_neg (by simpa using hne)]
  rcases w.pack with ⟨_ | _, w'⟩ <;> rfl

theorem together_tried (h : Together front failures sent w t) (scratch : Buffer) :
    Together front failures sent (w.tried scratch) t :=
  { h with
    booked := h.booked.tried scratch
    bounded := ⟨h.bounded.positive, h.bounded.pending⟩ }

/-- If this is the moment of the first failure, the perfect sink takes the record of which the
other one takes less. -/
theorem putRecord_sync (h : Together front failures sent w t) (usable : w.phase = .accepting)
    (payload : Bytes) :
    Sync front failures (w.putRecord payload) ((w.onto t).putRecord payload) := by
  obtain ⟨t', hwrite, hperfect, hlist, -⟩ := h.perfect.writeRecord payload
  have hright : (w.onto t).putRecord payload = (.ok (), (w.emitted w.sink payload).onto t') := by
    simp only [putRecord, onto_sink, hwrite]
    rfl
  rw [hright, putRecord]
  split
  · next s hok =>
    obtain ⟨hcontents, hfailures⟩ := Sink.writeRecord_ok hok
    exact .together (w := w.emitted s payload)
      { booked := h.booked.emitted usable hcontents hfailures
        whole := hfailures.trans h.whole
        bounded := ⟨h.bounded.positive, Nat.zero_le _⟩
        perfect := hperfect
        contents := by rw [hlist, h.contents, ← hcontents]; rfl }
  · -- the first failure, within this record: the perfect sink has all of it
    next failure s herror =>
    obtain ⟨taken, hpart, hshort, hcontents, hfailures⟩ := Sink.writeRecord_error herror
    have hwhole : t'.toList = w.sink.toList ++ record payload := by rw [hlist, h.contents]
    exact .apart (h.breakOff hcontents hfailures ⟨h.bounded.positive, Nat.zero_le _⟩
      (.part hpart hshort (hwhole ▸ List.prefix_rfl)))

theorem emit_sync (h : Together front failures sent w t) (usable : w.phase = .accepting) :
    Sync front failures w.emit (w.onto t).emit := by
  by_cases hnil : w.pending = []
  · simp only [emit, onto_pending, hnil, List.isEmpty_nil, if_true]
    exact .together h
  rw [emit_of_ne hnil, emit_of_ne (w := w.onto t) hnil, pack_onto, pack_snd]
  have htried := together_tried h w.pack.2.scratch
  cases w.pack.1 with
  | error e => exact .together htried
  | ok payload => exact putRecord_sync htried usable payload

/-- The loop runs in step, round by round, until the first failure. The writers have the same bytes
pending, so both take the same way. -/
theorem append_sync (h : Together front failures sent w t) (usable : w.phase = .accepting)
    (bytes : Bytes) : Sync front failures (w.append bytes) ((w.onto t).append bytes) := by
  refine append_induct
    (motive := fun w bytes => ∀ {sent t}, Together front failures sent w t →
      w.phase = .accepting → Sync front failures (w.append bytes) ((w.onto t).append bytes))
    (fun w _ _ h _ => .together h) ?_ ?_ h.bounded bytes h usable
  · intro w bytes hlt sent t h _
    rw [append_of_lt hlt, append_of_lt (w := w.onto t) hlt]
    exact .together (together_accept h (Nat.le_of_lt hlt))
  · intro w bytes hw hne hle hfill ih sent t h usable
    rw [append_of_le hw hne hle, append_of_le (hw.onto t) hne hle]
    refine (emit_sync (together_accept h (Nat.le_of_eq hfill)) usable).andThen ?_ ?_
    · exact fun hok h₁ => ih _ hok h₁ ((emit_ok hok).2.2.trans usable)
    · exact fun hok hp => append_moves hp ((emit_ok hok).2.2.trans usable) _

theorem writeBytes_sync (h : Together front failures sent w t) (buffer : Bytes)
    (offset length : Nat) :
    Sync front failures (w.writeBytes buffer offset length)
      ((w.onto t).writeBytes buffer offset length) := by
  simp only [writeBytes, onto_unusable?]
  split
  · exact .together h
  next husable =>
  split
  · exact .together h
  · exact append_sync h (accepting_of_usable husable) _

theorem writeByte_sync (h : Together front failures sent w t) (byte : UInt8) :
    Sync front failures (w.writeByte byte) ((w.onto t).writeByte byte) := by
  simp only [writeByte, onto_unusable?]
  split
  · exact .together h
  next husable =>
  have usable := accepting_of_usable husable
  by_cases hfull : w.pending.length = w.blockSize
  · have hfull' : (w.onto t).pending.length = (w.onto t).blockSize := hfull
    rw [if_pos hfull, if_pos hfull']
    refine (emit_sync h usable).andThen (f := fun w₁ => (.ok (), w₁.accept [byte])) ?_ ?_
    · exact fun hok h₁ => .together (together_accept h₁ (room_of_emit_ok h.bounded hok byte))
    · exact fun hok _ => accept_moves ((emit_ok hok).2.2.trans usable)
        (room_of_emit_ok (h.bounded.onto t) hok byte)
  · have hfree' : ¬(w.onto t).pending.length = (w.onto t).blockSize := hfull
    rw [if_neg hfull, if_neg hfree']
    exact .together (together_accept h (room_of_free h.bounded hfull byte))

theorem writeElements_sync (h : Together front failures sent w t) (ty : ElementType)
    (array : List ty.Word) (offset count : Nat) :
    Sync front failures (w.writeElements ty array offset count)
      ((w.onto t).writeElements ty array offset count) := by
  simp only [writeElements]
  split
  · exact .together h
  · exact writeBytes_sync h _ _ _

/-- If it is the flush of the sink that fails first, no record is cut. -/
theorem flushSink_sync (h : Together front failures sent w t) :
    Sync front failures w.flushSink (w.onto t).flushSink := by
  obtain ⟨t', hflush, hperfect, hlist, -⟩ := h.perfect.flush
  have hright : (w.onto t).flushSink = (.ok (), w.onto t') := by
    simp only [flushSink, onto_sink, hflush]
    rfl
  rw [hright, flushSink]
  split
  · next s hok =>
    obtain ⟨hcontents, hfailures⟩ := Sink.flush_ok hok
    exact .together (w := { w with sink := s })
      { booked := h.booked.flushed hcontents hfailures
        whole := hfailures.trans h.whole
        bounded := ⟨h.bounded.positive, h.bounded.pending⟩
        perfect := hperfect
        contents := by rw [hlist, h.contents, ← hcontents] }
  · next failure s herror =>
    obtain ⟨hcontents, hfailures⟩ := Sink.flush_error herror
    have hnothing : s.toList = w.sink.toList ++ [] := by rw [List.append_nil, hcontents]
    have hsame : t'.toList = w.sink.toList := by rw [hlist, h.contents]
    exact .apart (h.breakOff hnothing hfailures (h.bounded.onto t')
      (.nothing (hsame ▸ List.prefix_rfl)))

theorem flush_sync (h : Together front failures sent w t) :
    Sync front failures w.flush (w.onto t).flush := by
  simp only [flush, onto_unusable?]
  split
  · exact .together h
  next husable =>
  have usable := accepting_of_usable husable
  refine (emit_sync h usable).andThen (f := flushSink) ?_ ?_
  · exact fun _ h₁ => flushSink_sync h₁
  · exact fun hok _ => flushSink_moves ((emit_ok hok).2.2.trans usable)

/-! ### Calls -/

/-- The two writers at any time. -/
inductive Beside (front : Bytes) (failures : Nat) : Writer → Writer → Prop
  | together {sent : List (Bytes × Bytes)} {w : Writer} {t : Sink}
      (h : Together front failures sent w t) : Beside front failures w (w.onto t)
  | apart {sent : List (Bytes × Bytes)} {w p : Writer} (h : Cut front failures sent w p) :
      Beside front failures w p

theorem Beside.whole_or_ended (h : Beside front failures w p) :
    w.sink.failures = failures ∨ w.phase ≠ .accepting := by
  cases h with
  | together h => exact .inl h.whole
  | apart h => exact .inr h.ended

/-- Two calls that end alike: the writers stay beside each other, and both callers are told the
same, unless the first sink has failed. -/
structure Agrees (front : Bytes) (failures : Nat) (x y : Except Error Unit × Writer) : Prop where
  beside : Beside front failures x.2 y.2
  same : x.2.sink.failures = failures → x.1 = y.1

theorem Sync.agrees {x y : Except Error Unit × Writer} (h : Sync front failures x y) :
    Agrees front failures x y := by
  cases h with
  | together h => exact ⟨.together h, fun _ => rfl⟩
  | apart h => exact ⟨.apart h, fun hwhole => absurd hwhole h.failed⟩

theorem together_letGo (h : Together front failures sent w t) :
    Together front failures sent w.letGo t :=
  { h with
    booked := h.booked.letGo
    bounded := ⟨h.bounded.positive, h.bounded.pending⟩ }

theorem Sync.letGo {x y : Except Error Unit × Writer} (h : Sync front failures x y) :
    Sync front failures (x.1, x.2.letGo) (y.1, y.2.letGo) := by
  cases h with
  | together h => exact .together (together_letGo h)
  | apart h => exact .apart (h.letGo.reaches (.single .letGo))

theorem close_sync (h : Together front failures sent w t) :
    Sync front failures w.close (w.onto t).close := by
  simp only [close, onto_phase]
  cases w.phase with
  | accepting => exact (flush_sync h).letGo
  | broken => exact .together (together_letGo h)
  | closed => exact .together h

theorem drop_beside (h : Together front failures sent w t) :
    Beside front failures w.drop (w.onto t).drop := by
  by_cases hphase : w.phase = .accepting
  · have hphase' : (w.onto t).phase = .accepting := hphase
    rw [drop, drop, if_pos hphase, if_pos hphase']
    exact (close_sync h).agrees.beside
  · have hphase' : (w.onto t).phase ≠ .accepting := hphase
    rw [drop_unusable hphase, drop_unusable hphase']
    exact .together h

/-- After a flush that fails the writer is given up, which for the second writer may mean to try
once more. -/
theorem finish_agrees (h : Together front failures sent w t) :
    Agrees front failures w.finish (w.onto t).finish := by
  have hflush := flush_sync h
  unfold finish
  generalize w.flush = x at hflush
  generalize (w.onto t).flush = y at hflush
  cases hflush with
  | @together result sent w t h =>
    cases result with
    | error e => exact ⟨drop_beside h, fun _ => rfl⟩
    | ok => exact ⟨.together (together_letGo h), fun _ => rfl⟩
  | @apart e result sent w p h =>
    -- the first writer has ended already, so giving it up does nothing
    have hdrop : w.drop = w := drop_unusable h.ended
    cases result with
    | error e' => exact ⟨.apart (hdrop.symm ▸ h.reaches (drop_moves p)),
        fun hwhole => absurd (hdrop ▸ hwhole) h.failed⟩
    | ok => exact ⟨.apart (hdrop.symm ▸ h.reaches (.single .letGo)),
        fun hwhole => absurd (hdrop ▸ hwhole) h.failed⟩

theorem operate_together (h : Together front failures sent w t) (c : Call) :
    Agrees front failures (c.operate w) (c.operate (w.onto t)) := by
  cases c with
  | writeBytes buffer offset length => exact (writeBytes_sync h _ _ _).agrees
  | writeByte byte => exact (writeByte_sync h byte).agrees
  | writeElements ty array offset count => exact (writeElements_sync h ty _ _ _).agrees
  | writeAllElements ty array => exact (writeElements_sync h ty _ _ _).agrees
  | write buffer => exact (writeBytes_sync h _ _ _).agrees
  | flush | flushIo => exact (flush_sync h).agrees
  | close => exact (close_sync h).agrees
  | finish => exact finish_agrees h
  | drop => exact ⟨drop_beside h, fun _ => rfl⟩

/-- A writer that has ended stays as it is, whatever the other one does. -/
theorem operate_cut (h : Cut front failures sent w p) (c : Call) :
    Cut front failures sent (c.operate w).2 (c.operate p).2 := by
  have hgoes := h.reaches (operate_moves h.bounded c)
  rcases operate_unusable h.ended c with heq | heq
  · rw [heq]
    exact hgoes
  · rw [heq]
    exact hgoes.letGo

theorem operate_agrees (h : Beside front failures w p) (c : Call) :
    Agrees front failures (c.operate w) (c.operate p) := by
  cases h with
  | together h => exact operate_together h c
  | apart h =>
    have hcut := operate_cut h c
    exact ⟨.apart hcut, fun hwhole => absurd hwhole hcut.failed⟩

/-- The sinks fail no less often in the course of time, so what is told at the end was told all
along. -/
theorem perform_agrees (h : Beside front failures w p) (calls : List Call) :
    Beside front failures (w.perform calls).2 (p.perform calls).2 ∧
      ((w.perform calls).2.sink.failures = failures →
        (w.perform calls).1 = (p.perform calls).1) := by
  induction calls generalizing w p with
  | nil => exact ⟨h, fun _ => rfl⟩
  | cons c calls ih =>
    have hcall := operate_agrees h c
    obtain ⟨hbeside, hsame⟩ := ih hcall.beside
    simp only [perform_cons]
    refine ⟨hbeside, fun hwhole => ?_⟩
    rw [hsame hwhole, hcall.same ?_]
    rcases hcall.beside.whole_or_ended with h₁ | h₁
    · exact h₁
    · rwa [sink_perform_unusable h₁] at hwhole

/-! ### Sessions -/

/-- How calls over a sink that was `s` stand to the same calls over a perfect sink: what arrived is
an initial part, and the same is told as long as no failure. After a failure these are whole
records, as many bytes as the books say, and less than the one that was being sent, for good. -/
structure CutShort (s : Sink) (codec : Codec) (x y : List Answer × Writer) : Prop where
  initial : x.2.sink.toList <+: y.2.sink.toList
  same : x.2.sink.failures = s.failures →
    x.1 = y.1 ∧ x.2.stats = y.2.stats ∧ x.2.sink.toList = y.2.sink.toList
  cut : x.2.sink.failures ≠ s.failures → ∃ (payloads : List Bytes) (whole rest : Bytes),
    whole = s.toList ++ (Header.current codec.id).encode ++ payloads.flatMap record ∧
    payloads.length = x.2.stats.blocks ∧ whole.length = s.toList.length + x.2.stats.framedBytes ∧
    x.2.sink.toList = whole ++ rest ∧ Remnant whole y.2.sink.toList rest ∧
    ∀ later, (x.2.perform later).2.sink = x.2.sink

theorem cutShort_of_beside {s : Sink} {codec : Codec} {x y : List Answer × Writer}
    (h : Beside (s.toList ++ (Header.current codec.id).encode) s.failures x.2 y.2)
    (hsame : x.2.sink.failures = s.failures → x.1 = y.1) : CutShort s codec x y := by
  obtain ⟨answers, w⟩ := x
  obtain ⟨answers', p⟩ := y
  simp only at h hsame
  cases h with
  | @together sent w t h =>
    exact
      { initial := h.contents ▸ List.prefix_rfl
        same := fun hwhole => ⟨hsame hwhole, rfl, h.contents.symm⟩
        cut := fun hfailed => absurd h.whole hfailed }
  | @apart sent w p h =>
    obtain ⟨rest, hcontents, hremnant⟩ := h.remnant
    have hrecords : recordsOf sent = (sent.map Prod.snd).flatMap record := by
      rw [List.flatMap_map, recordsOf]
    refine
      { initial := hcontents ▸ hremnant.arrived
        same := fun hwhole => absurd hwhole h.failed
        cut := fun _ => ⟨sent.map Prod.snd, _, rest, by rw [hrecords], ?_, ?_, hcontents, hremnant,
          sink_perform_unusable h.ended⟩ }
    · rw [List.length_map, h.booked.blocks]
    · rw [h.booked.framedBytes, List.length_append, List.length_append, Header.length_encode,
        Nat.add_assoc]

/-- A new writer has nothing on its books but the header. -/
theorem together_fresh {s s₁ t₁ : Sink} {codec : Codec} {blockSize : Nat} (hpos : 0 < blockSize)
    (hcontents : s₁.toList = s.toList ++ (Header.current codec.id).encode)
    (hfailures : s₁.failures = s.failures) (ht : t₁.NeverFails) (hst : t₁.toList = s₁.toList) :
    Together (s.toList ++ (Header.current codec.id).encode) s.failures []
      (fresh s₁ codec blockSize) t₁ where
  booked :=
    { blocks := rfl
      rawBytes := rfl
      framedBytes := rfl
      arrived := by simp [recordsOf, fresh, hcontents]
      exact := fun _ => by simp [recordsOf, fresh, hcontents]
      faultless := fun _ => hfailures
      counted := Nat.le_of_eq hfailures.symm }
  whole := hfailures
  bounded := ⟨hpos, Nat.zero_le _⟩
  perfect := ht
  contents := hst

/-- A faulty sink only ever cuts the stream short. -/
theorem faulty_sink_cuts_short {s t : Sink} (ht : t.NeverFails) (hst : t.toList = s.toList)
    (codec : Codec) (blockSize : Nat) :
    (∃ e, create s codec blockSize = (.error e, s) ∧ create t codec blockSize = (.error e, t)) ∨
    ∃ p t', create t codec blockSize = (.ok p, t') ∧
      ((∃ failure s' rest, create s codec blockSize = (.error (.io failure), s') ∧
          s'.failures = s.failures + 1 ∧ s'.toList = s.toList ++ rest ∧
          rest <+: (Header.current codec.id).encode ∧ rest.length < headerSize ∧
          ∀ calls, s'.toList <+: (p.perform calls).2.sink.toList) ∨
        ∃ w s', create s codec blockSize = (.ok w, s') ∧ s'.failures = s.failures ∧
          ∀ calls, CutShort s codec (w.perform calls) (p.perform calls)) := by
  by_cases hsize : blockSize = 0 ∨ maxBlockSize < blockSize
  · exact .inl ⟨_, by rw [create, if_pos hsize], by rw [create, if_pos hsize]⟩
  obtain ⟨hpos, hmax⟩ := not_or.1 hsize
  obtain ⟨t₁, hwrite, ht₁, hlist, -⟩ := ht.writeAll (Header.current codec.id).encode
  rw [hst] at hlist
  simp only [create_eq (Nat.pos_of_ne_zero hpos) (Nat.not_lt.1 hmax), hwrite]
  refine .inr ⟨_, _, rfl, ?_⟩
  have hwrote := s.wrote_writeAll (Header.current codec.id).encode
  generalize s.writeAll (Header.current codec.id).encode = outcome at hwrote
  cases hwrote with
  | @torn s₁ failure taken part short contents failures =>
    -- the header was cut, so there is no writer and nothing more arrives
    refine .inl ⟨failure, s₁, taken, rfl, failures, contents, part, by simpa using short, ?_⟩
    intro calls
    have hbounded : (fresh t₁ codec blockSize).Bounded :=
      ⟨Nat.pos_of_ne_zero hpos, Nat.zero_le _⟩
    have hgrows : t₁.toList <+: _ := Reaches.grows (perform_moves hbounded calls)
    rw [hlist] at hgrows
    rw [contents]
    exact ((List.prefix_append_right_inj _).2 part).trans hgrows
  | @whole s₁ contents failures =>
    refine .inr ⟨fresh s₁ codec blockSize, s₁, rfl, failures, fun calls => ?_⟩
    -- whatever part of the header each write took, all of it has arrived
    have htogether := together_fresh (Nat.pos_of_ne_zero hpos) contents failures ht₁
      (hlist.trans contents.symm)
    obtain ⟨hbeside, hsame⟩ := perform_agrees (.together htogether) calls
    exact cutShort_of_beside hbeside hsame

/-- A sink with room for 31 bytes gets the header, the first record, and one byte of the second. -/
theorem faulty_sink_cuts_short_capacity :
    ∃ w s' p t', create { capacity := some 31 } .passthrough 2 = (.ok w, s') ∧
      create .unlimited .passthrough 2 = (.ok p, t') ∧
      (w.perform [.writeBytes [1, 2, 3, 4] 0 4, .finish]).2.stats.framedBytes = 30 ∧
      (w.perform [.writeBytes [1, 2, 3, 4] 0 4, .finish]).2.sink.toList.length = 31 ∧
      CutShort { capacity := some 31 } .passthrough
        (w.perform [.writeBytes [1, 2, 3, 4] 0 4, .finish])
        (p.perform [.writeBytes [1, 2, 3, 4] 0 4, .finish]) := by
  have hok : (create { capacity := some 31 } .passthrough 2).1.isOk = true := by decide
  rcases faulty_sink_cuts_short (s := { capacity := some 31 }) Sink.neverFails_unlimited rfl
    .passthrough 2 with ⟨e, h, -⟩ | ⟨p, t', hp, ⟨failure, s', rest, h, -⟩ | ⟨w, s', hw, -, hcut⟩⟩
  · rw [h] at hok
    cases hok
  · rw [h] at hok
    cases hok
  · refine ⟨w, s', p, t', hw, hp, ?_, ?_, hcut _⟩
    · obtain rfl := Except.ok.inj (congrArg Prod.fst hw)
      decide +kernel
    · obtain rfl := Except.ok.inj (congrArg Prod.fst hw)
      decide +kernel

end Writer

end FramedStream
