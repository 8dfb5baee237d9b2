import FramedStream.Proofs.Reader.Acceptance
import FramedStream.Proofs.Reader.Delivery

/-!
# Headers and their bytes

A header and its bytes determine each other, the reserved bytes apart, which are written as zero and
may be anything where they are read.

* `headerOf_encode` and `encode_headerOf` are the two directions for the fields alone, whatever they
  say. Both `decode_encode` and `decode_eq_ok_iff` are these two behind the checks of `decode`;
* `Put` says what a sink holds after a header was written to it, `Taken` what a source has lost to
  one that was read, for all sinks and all sources;
* `exact_in_both_directions` puts it together.
-/

namespace FramedStream

namespace Source

/-- How the filling of a buffer stops: with all that was asked for, or with less where the input
ends or a read of the script fails for good. -/
inductive Stops (script : List ReadStep) (count : Nat) : Filled → Prop
  | full {bytes : Bytes} {s' : Source} (length : bytes.length = count) :
      Stops script count ⟨bytes, .full, s'⟩
  | ended {bytes : Bytes} {s' : Source} (length : bytes.length < count) :
      Stops script count ⟨bytes, .ended, s'⟩
  | failed {bytes : Bytes} {s' : Source} {failure : IoFailure} (length : bytes.length < count)
      (fails : .fail failure ∈ script) (final : failure.kind ≠ .interrupted) :
      Stops script count ⟨bytes, .failed failure, s'⟩

variable {script : List ReadStep} {count : Nat} {filled : Filled}

theorem Stops.later (step : ReadStep) (h : Stops script count filled) :
    Stops (step :: script) count filled := by
  cases h with
  | full length => exact .full length
  | ended length => exact .ended length
  | failed length fails final => exact .failed length (List.mem_cons_of_mem _ fails) final

/-- A piece is counted with what arrives behind it. -/
theorem Stops.after_piece {piece : Bytes} (hpiece : piece.length ≤ count)
    (h : Stops script (count - piece.length) filled) :
    Stops script count { filled with bytes := piece ++ filled.bytes } := by
  cases h with
  | full length =>
    refine .full ?_
    simp only [List.length_append]
    omega
  | ended length =>
    refine .ended ?_
    simp only [List.length_append]
    omega
  | failed length fails final =>
    refine .failed ?_ fails final
    simp only [List.length_append]
    omega

theorem stops_pull (s : Source) (script : List ReadStep) (count : Nat) :
    Stops script count (s.pull count) := by
  unfold pull
  by_cases hzero : count = 0
  · rw [if_pos hzero]
    exact .full hzero.symm
  rw [if_neg hzero]
  split
  · exact .ended (Nat.pos_of_ne_zero hzero)
  by_cases hlong : (s.rest.take count).length = count
  · simp only [if_pos hlong]
    exact .full hlong
  · simp only [if_neg hlong]
    have hle := List.length_take_le count s.rest
    exact .ended (by omega)

theorem stops_fill (s : Source) (count : Nat) : Stops s.script count (s.fill count) := by
  unfold fill
  generalize s.script = script
  induction script generalizing s count with
  | nil => exact stops_pull _ [] count
  | cons step script ih =>
    simp only [fillAlong]
    by_cases hzero : count = 0
    · rw [if_pos hzero]
      exact .full hzero.symm
    have hpos : 0 < count := Nat.pos_of_ne_zero hzero
    rw [if_neg hzero]
    cases step with
    | deliverAtMost most =>
      simp only
      split
      · exact .ended hpos
      · refine .later _ (.after_piece ?_ (ih _ _))
        rw [List.length_take]
        omega
    | fail failure =>
      by_cases hkind : failure.kind = .interrupted
      · simp only [if_pos hkind]
        exact .later _ (ih s count)
      · simp only [if_neg hkind]
        exact .failed hpos List.mem_cons_self hkind

/-- No more arrives than was asked for. -/
theorem length_fill_le (s : Source) (count : Nat) : (s.fill count).bytes.length ≤ count := by
  have hstops := s.stops_fill count
  generalize s.fill count = filled at hstops
  cases hstops with
  | full length => exact Nat.le_of_eq length
  | ended length => exact Nat.le_of_lt length
  | failed length => exact Nat.le_of_lt length

end Source

namespace Header

open Reader (headerOf codecIdOf)

variable {h h' : Header} {bytes : Bytes}

/-! ### The fields -/

/-- The fields of a header stand where they are looked for. -/
theorem headerOf_encode (h : Header) : headerOf h.encode = h := by
  have hparts : h.encode =
      magic ++ (Bytes.ofNatBE 4 h.version.toNat ++ (Bytes.ofNatBE 4 h.minCompatible.toNat ++
        (Bytes.ofNatBE 2 h.codecId.toNat ++ [0, 0]))) := by
    simp only [encode, List.append_assoc]
  have hversion : (h.encode.drop 8).take 4 = Bytes.ofNatBE 4 h.version.toNat := by
    rw [hparts, List.drop_left' (by decide), List.take_left' (Bytes.length_ofNatBE _ _)]
  have hcompatible : (h.encode.drop 12).take 4 = Bytes.ofNatBE 4 h.minCompatible.toNat := by
    rw [hparts, ← List.append_assoc, List.drop_left' (by simp [magic]),
      List.take_left' (Bytes.length_ofNatBE _ _)]
  have hcodec : (h.encode.drop 16).take 2 = Bytes.ofNatBE 2 h.codecId.toNat := by
    rw [hparts, ← List.append_assoc, ← List.append_assoc, List.drop_left' (by simp [magic]),
      List.take_left' (Bytes.length_ofNatBE _ _)]
  have h₁ : h.version.toNat % 256 ^ 4 = h.version.toNat := Nat.mod_eq_of_lt h.version.toNat_lt
  have h₂ : h.minCompatible.toNat % 256 ^ 4 = h.minCompatible.toNat :=
    Nat.mod_eq_of_lt h.minCompatible.toNat_lt
  have h₃ : h.codecId.toNat % 256 ^ 2 = h.codecId.toNat := Nat.mod_eq_of_lt h.codecId.toNat_lt
  simp only [headerOf, codecIdOf, hversion, hcompatible, hcodec, Bytes.toNatBE_ofNatBE, h₁, h₂, h₃,
    UInt32.ofNat_toNat, UInt16.ofNat_toNat]

theorem take_encode (h : Header) : h.encode.take 8 = magic := by
  simp only [encode, List.append_assoc]
  exact List.take_left' rfl

/-- No two headers are written alike. -/
theorem encode_injective : Function.Injective encode := by
  intro h h' heq
  have hfields := congrArg headerOf heq
  rwa [headerOf_encode, headerOf_encode] at hfields

/-- A field is written as it was read. -/
theorem ofNatBE_field {start width : Nat} (hlong : start + width ≤ bytes.length) :
    Bytes.ofNatBE width (Bytes.toNatBE ((bytes.drop start).take width)) =
      (bytes.drop start).take width := by
  have hlength : ((bytes.drop start).take width).length = width := by
    rw [List.length_take, List.length_drop]
    omega
  have hback := Bytes.ofNatBE_toNatBE ((bytes.drop start).take width)
  rwa [hlength] at hback

theorem toNatBE_field_lt (bytes : Bytes) (start width : Nat) :
    Bytes.toNatBE ((bytes.drop start).take width) < 256 ^ width := by
  have hlt := Bytes.toNatBE_lt ((bytes.drop start).take width)
  have hpow : 256 ^ ((bytes.drop start).take width).length ≤ 256 ^ width :=
    Nat.pow_le_pow_right (by decide) (List.length_take_le _ _)
  omega

/-- The bytes of a header are written as they were read, but for the reserved ones. -/
theorem encode_headerOf (hlong : 18 ≤ bytes.length) (hmagic : bytes.take 8 = magic) :
    (headerOf bytes).encode = bytes.take 18 ++ [0, 0] := by
  have hversion : (headerOf bytes).version.toNat = Bytes.toNatBE ((bytes.drop 8).take 4) := by
    rw [headerOf, UInt32.toNat_ofNat']
    exact Nat.mod_eq_of_lt (toNatBE_field_lt bytes 8 4)
  have hcompatible :
      (headerOf bytes).minCompatible.toNat = Bytes.toNatBE ((bytes.drop 12).take 4) := by
    rw [headerOf, UInt32.toNat_ofNat']
    exact Nat.mod_eq_of_lt (toNatBE_field_lt bytes 12 4)
  have hcodec : (headerOf bytes).codecId.toNat = Bytes.toNatBE ((bytes.drop 16).take 2) :=
    Reader.toNat_codecIdOf bytes
  rw [encode, hversion, hcompatible, hcodec, ofNatBE_field (by omega), ofNatBE_field (by omega),
    ofNatBE_field (by omega), ← hmagic]
  -- the fields follow one another
  rw [← List.take_add (i := 8) (j := 4), ← List.take_add (i := 12) (j := 4),
    ← List.take_add (i := 16) (j := 2)]

/-! ### The checks -/

/-- A header is read as it was written, unless it asks for a newer reader. -/
theorem decode_encode (h : Header) :
    decode h.encode =
      if formatVersion < h.minCompatible then .error (.tooNew h.version h.minCompatible)
      else .ok h := by
  have hall : h.encode.take 20 = h.encode :=
    List.take_of_length_le (Nat.le_of_eq h.length_encode)
  have hdecode := Reader.decode_take h.encode
  rwa [hall, if_neg (not_not_intro h.take_encode), headerOf_encode] at hdecode

/-- What is read is what the fields say, if they say it behind the magic and to this reader. -/
theorem decode_eq_ok_iff (hlength : bytes.length = headerSize) :
    decode bytes = .ok h ↔ bytes.take 8 = magic ∧
      Bytes.toNatBE ((bytes.drop 12).take 4) ≤ formatVersion.toNat ∧ headerOf bytes = h := by
  have hall : bytes.take 20 = bytes := List.take_of_length_le (Nat.le_of_eq hlength)
  have hdecode := Reader.decode_take bytes
  rw [hall] at hdecode
  rw [hdecode]
  by_cases hmagic : bytes.take 8 = magic
  · rw [if_neg (not_not_intro hmagic)]
    by_cases hnew : formatVersion < (headerOf bytes).minCompatible
    · rw [if_pos hnew]
      rw [Reader.tooNew_iff] at hnew
      constructor
      · exact nofun
      · rintro ⟨-, hle, -⟩
        omega
    · rw [if_neg hnew]
      rw [Reader.tooNew_iff] at hnew
      simp only [Except.ok.injEq, hmagic, true_and, Nat.not_lt.1 hnew]
  · rw [if_pos hmagic]
    constructor
    · exact nofun
    · exact fun hall => absurd hall.1 hmagic

/-! ### Sinks and sources -/

/-- How the writing of a header ends: all its bytes arrive, or the sink fails while some are
left. -/
inductive Put (h : Header) (sink : Sink) : Except Error Unit × Sink → Prop
  | whole {sink' : Sink} (contents : sink'.toList = sink.toList ++ h.encode)
      (failures : sink'.failures = sink.failures) (flushes : sink'.flushes = sink.flushes) :
      Put h sink (.ok (), sink')
  | torn {sink' : Sink} {failure : IoFailure} {part : Bytes} (front : part <+: h.encode)
      (short : part.length < headerSize) (contents : sink'.toList = sink.toList ++ part)
      (failures : sink'.failures = sink.failures + 1) :
      Put h sink (.error (.io failure), sink')

theorem put_writeTo (h : Header) (sink : Sink) : Put h sink (h.writeTo sink) := by
  have hwrote := sink.wrote_writeAll h.encode
  unfold writeTo
  generalize sink.writeAll h.encode = outcome at hwrote
  cases hwrote with
  | whole contents failures flushes => exact .whole contents failures flushes
  | torn part short contents failures =>
    rw [length_encode] at short
    exact .torn part short contents failures

/-- How the reading of a header ends, with what the source has lost to it. -/
inductive Taken (s : Source) : Except Error Header × Source → Prop
  | whole {bytes : Bytes} {s' : Source} (split : s.rest = bytes ++ s'.rest)
      (length : bytes.length = headerSize) : Taken s ((decode bytes).mapError .format, s')
  | short {bytes : Bytes} {s' : Source} (split : s.rest = bytes ++ s'.rest)
      (length : bytes.length < headerSize) : Taken s (.error (.format .shortHeader), s')
  | failed {bytes : Bytes} {s' : Source} {failure : IoFailure} (split : s.rest = bytes ++ s'.rest)
      (length : bytes.length < headerSize) (fails : .fail failure ∈ s.script)
      (final : failure.kind ≠ .interrupted) (other : failure.kind ≠ .unexpectedEof) :
      Taken s (.error (.io failure), s')

theorem taken_readFrom (s : Source) : Taken s (readFrom s) := by
  have hsplit := (s.fill_split headerSize).symm
  have hstops := s.stops_fill headerSize
  unfold readFrom
  generalize s.fill headerSize = filled at hsplit hstops
  cases hstops with
  | full length => exact .whole hsplit length
  | ended length => exact .short hsplit length
  | @failed bytes s' failure length fails final =>
    by_cases heof : failure.kind = .unexpectedEof
    · simp only [if_pos heof]
      exact .short hsplit length
    · simp only [if_neg heof]
      exact .failed hsplit length fails final heof

/-- A source that only takes its time gives the bytes of a header if it has them. -/
theorem readFrom_steady {s : Source} (hs : s.Steady) :
    ∃ s', readFrom s =
        (if headerSize ≤ s.rest.length then (decode (s.rest.take headerSize)).mapError .format
          else .error (.format .shortHeader), s') ∧
      s'.Steady ∧ s'.rest = s.rest.drop headerSize := by
  obtain ⟨hbytes, hstop, hsteady, hrest⟩ := hs.fill headerSize
  refine ⟨(s.fill headerSize).source, ?_, hsteady, hrest⟩
  rw [readFrom, hstop, hbytes]
  by_cases hlong : headerSize ≤ s.rest.length
  · simp only [if_pos hlong]
  · simp only [if_neg hlong]

/-- The bytes of a header are exact in both directions. A header is read back from its bytes unless
it asks for a newer reader, which is the only reason why it is refused then. Bytes are read as a
header if they start with the magic and ask for no newer reader, and such a header is written as
these bytes with the two reserved ones zero; so no two headers are written alike. A sink that does
not fail holds exactly these bytes more, and a source loses exactly as many, of which `decode` makes
what there is to be made, unless it ends or fails before. -/
theorem exact_in_both_directions :
    (∀ h : Header, h.encode.length = headerSize ∧
      (decode h.encode = .ok h ↔ h.minCompatible ≤ formatVersion) ∧
      (¬h.minCompatible ≤ formatVersion →
        decode h.encode = .error (.tooNew h.version h.minCompatible))) ∧
    (∀ bytes : Bytes, bytes.length = headerSize →
      ((∃ h, decode bytes = .ok h) ↔ bytes.take 8 = magic ∧
        Bytes.toNatBE ((bytes.drop 12).take 4) ≤ formatVersion.toNat) ∧
      ∀ h, decode bytes = .ok h → h.encode = bytes.take 18 ++ [0, 0]) ∧
    (∀ h h' : Header, h.encode = h'.encode → h = h') ∧
    (∀ (h : Header) (sink : Sink), Put h sink (h.writeTo sink) ∧
      (sink.NeverFails → ∃ sink', h.writeTo sink = (.ok (), sink') ∧ sink'.NeverFails ∧
        sink'.toList = sink.toList ++ h.encode)) ∧
    ∀ s : Source, Taken s (readFrom s) ∧
      (s.Steady → ∃ s', readFrom s =
          (if headerSize ≤ s.rest.length then (decode (s.rest.take headerSize)).mapError .format
            else .error (.format .shortHeader), s') ∧
        s'.Steady ∧ s'.rest = s.rest.drop headerSize) := by
  refine ⟨fun h => ⟨h.length_encode, ?_, fun hnew => ?_⟩, fun bytes hlength => ⟨?_, ?_⟩,
    fun h h' heq => encode_injective heq, fun h sink => ⟨put_writeTo h sink, fun hsink => ?_⟩,
    fun s => ⟨taken_readFrom s, readFrom_steady⟩⟩
  · rw [decode_encode]
    by_cases hnew : formatVersion < h.minCompatible
    · simp [if_pos hnew, UInt32.not_le.2 hnew]
    · simp [if_neg hnew, UInt32.not_lt.1 hnew]
  · rw [decode_encode, if_pos (UInt32.not_le.1 hnew)]
  · constructor
    · rintro ⟨h, hdecode⟩
      obtain ⟨hmagic, hle, -⟩ := (decode_eq_ok_iff hlength).1 hdecode
      exact ⟨hmagic, hle⟩
    · rintro ⟨hmagic, hle⟩
      exact ⟨_, (decode_eq_ok_iff hlength).2 ⟨hmagic, hle, rfl⟩⟩
  · intro h hdecode
    obtain ⟨hmagic, -, rfl⟩ := (decode_eq_ok_iff hlength).1 hdecode
    exact encode_headerOf (by rw [hlength]; decide) hmagic
  · obtain ⟨sink', hwrite, hnever, hcontents, -⟩ := hsink.writeAll h.encode
    exact ⟨sink', by rw [writeTo, hwrite], hnever, hcontents⟩

/-- A header with a strange version and something in its reserved bytes, from a source and to a sink
that take their time, and one that asks for the next version. -/
theorem exact_in_both_directions_reserved :
    let bytes := magic ++ [9, 8, 7, 6, 0, 0, 0, 1, 0, 2, 0xAB, 0xCD]
    let sink : Sink :=
      { script := [.takeAtMost 3, .fail ⟨.interrupted, "again"⟩], pieceLimit := some 5 }
    let source : Source :=
      { rest := bytes ++ [1, 2, 3], script := [.deliverAtMost 7, .fail ⟨.interrupted, "again"⟩],
        pieceLimit := some 4 }
    bytes.length = headerSize ∧ sink.NeverFails ∧ source.Steady ∧
      decode bytes = .ok ⟨0x09080706, 1, 2⟩ ∧
      (⟨0x09080706, 1, 2⟩ : Header).encode = bytes.take 18 ++ [0, 0] ∧
      (∃ sink', (⟨0x09080706, 1, 2⟩ : Header).writeTo sink = (.ok (), sink') ∧
        sink'.toList = bytes.take 18 ++ [0, 0]) ∧
      (∃ s', readFrom source = (.ok ⟨0x09080706, 1, 2⟩, s') ∧ s'.rest = [1, 2, 3]) ∧
      ¬(2 : UInt32) ≤ formatVersion ∧
      decode (⟨1, 2, 0⟩ : Header).encode = .error (.tooNew 1 2) := by
  intro bytes sink source
  obtain ⟨hthere, hback, -, hput, htaken⟩ := exact_in_both_directions
  have hlength : bytes.length = headerSize := rfl
  have hsink : sink.NeverFails := ⟨by decide, by decide, rfl, by decide⟩
  have hsource : source.Steady := ⟨by decide, by decide⟩
  have hdecode : decode bytes = .ok ⟨0x09080706, 1, 2⟩ :=
    (decode_eq_ok_iff hlength).2 ⟨rfl, by decide, by decide⟩
  have hencode := (hback bytes hlength).2 _ hdecode
  obtain ⟨sink', hwrite, -, hcontents⟩ := (hput ⟨0x09080706, 1, 2⟩ sink).2 hsink
  obtain ⟨s', hread, -, hrest⟩ := (htaken source).2 hsource
  have hnew : ¬(2 : UInt32) ≤ formatVersion := by decide
  have hlong : headerSize ≤ source.rest.length := by decide
  have hfront : source.rest.take headerSize = bytes := rfl
  rw [if_pos hlong, hfront, hdecode] at hread
  rw [hencode] at hcontents
  exact ⟨hlength, hsink, hsource, hdecode, hencode, ⟨sink', hwrite, hcontents⟩, ⟨s', hread, hrest⟩,
    hnew, (hthere ⟨1, 2, 0⟩).2.2 hnew⟩

end Header

end FramedStream
