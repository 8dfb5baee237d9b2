import FramedStream.Proofs.Reader.Carried
import FramedStream.Proofs.Reader.Requests
import FramedStream.Proofs.Reader.Streams

/-!
# Faulty sources

A source that delivers its bytes in pieces of any size and with any interruptions, until one of its
reads fails. How many bytes have come out of it by then depends on the sizes of the reads, so it is
told by what the source still holds.

* `Source.Faulty` is such a source, `Source.Faulty.fill` says how a buffer is filled from it;
* `Doomed` is a reader on it between two records, `Fallen` one for which it has failed;
* `nextBlock_doomed` and `nextBlock_doomed_over` are the step, `nextBlocks_doomed` is the run;
* `Fares` says how a reader fares on a whole stream;
* `delivery_is_immaterial` puts the steady and the faulty sources together.
-/

namespace FramedStream

namespace Source

/-- A source that delivers as a steady one does until it fails, for a reason for which no read is
tried again. What it would do `later` is not looked at. -/
structure Faulty (failure : IoFailure) (later : List ReadStep) (s : Source) : Prop where
  script : ∃ front, s.script = front ++ .fail failure :: later ∧ ∀ step ∈ front, step.goesOn
  final : failure.kind ≠ .interrupted

/-- How a buffer is filled from a faulty source: as from a steady one, or in part only. -/
inductive Meets (failure : IoFailure) (later : List ReadStep) (s : Source) (count : Nat) :
    Filled → Prop
  | fills {s' : Source} (faulty : s'.Faulty failure later) (rest : s'.rest = s.rest.drop count) :
      Meets failure later s count
        ⟨s.rest.take count, if count ≤ s.rest.length then .full else .ended, s'⟩
  | fails {got : Nat} {s' : Source} (short : got < count) (held : got ≤ s.rest.length)
      (script : s'.script = later) (rest : s'.rest = s.rest.drop got) :
      Meets failure later s count ⟨s.rest.take got, .failed failure, s'⟩

variable {failure : IoFailure} {later : List ReadStep}

/-- A piece that has arrived leaves the rest to be delivered. -/
theorem Meets.after_piece {s : Source} {size count : Nat} {filled : Filled} (hsize : size ≤ count)
    (hheld : size ≤ s.rest.length)
    (h : Meets failure later { s with rest := s.rest.drop size } (count - size) filled) :
    Meets failure later s count { filled with bytes := s.rest.take size ++ filled.bytes } := by
  have hlength : (s.rest.drop size).length = s.rest.length - size := List.length_drop
  cases h with
  | @fills s' faulty rest =>
    have hbytes : s.rest.take size ++ (s.rest.drop size).take (count - size) =
        s.rest.take count := by
      rw [← List.take_add, Nat.add_sub_cancel' hsize]
    have hstop : (if count - size ≤ (s.rest.drop size).length then Stop.full else .ended) =
        if count ≤ s.rest.length then .full else .ended := by
      by_cases hle : count ≤ s.rest.length
      · rw [if_pos hle, if_pos (by omega)]
      · rw [if_neg hle, if_neg (by omega)]
    simp only [hbytes, hstop]
    refine .fills faulty ?_
    rw [rest, List.drop_drop, Nat.add_sub_cancel' hsize]
  | @fails got s' short held script rest =>
    have hbytes : s.rest.take size ++ (s.rest.drop size).take got = s.rest.take (size + got) :=
      List.take_add.symm
    have held : got ≤ (s.rest.drop size).length := held
    simp only [hbytes]
    refine .fails (by omega) (by omega) script ?_
    rw [rest, List.drop_drop]

theorem meets_fillAlong (hfinal : failure.kind ≠ .interrupted) (front : List ReadStep)
    (hfront : ∀ step ∈ front, step.goesOn) (s : Source) (count : Nat) :
    Meets failure later s count (fillAlong (front ++ .fail failure :: later) s count) := by
  have hnone : ∀ {s : Source} (script : List ReadStep),
      ({ s with script } : Source).Faulty failure later →
      Meets failure later s 0 ⟨[], .full, { s with script }⟩ := by
    intro s script hfaulty
    exact .fills hfaulty rfl
  induction front generalizing s count with
  | nil =>
    simp only [List.nil_append, fillAlong]
    split
    · next hzero =>
      subst hzero
      exact hnone _ ⟨⟨[], rfl, List.forall_mem_nil _⟩, hfinal⟩
    next hzero =>
    have hshort : 0 < count := Nat.pos_of_ne_zero hzero
    exact @Meets.fails failure later s count 0 _ hshort (Nat.zero_le _) rfl rfl
  | cons step front ih =>
    obtain ⟨hstep, hrest⟩ := List.forall_mem_cons.1 hfront
    simp only [List.cons_append, fillAlong]
    split
    · next hzero =>
      subst hzero
      exact hnone _ ⟨⟨step :: front, rfl, hfront⟩, hfinal⟩
    next hzero =>
    cases step with
    | fail again =>
      have hagain : again.kind = .interrupted := by simpa [ReadStep.goesOn] using hstep
      simp only [if_pos hagain]
      exact ih hrest s count
    | deliverAtMost most =>
      have hmost : most ≠ 0 := by simpa [ReadStep.goesOn] using hstep
      -- as many bytes arrive as the source holds, if these are fewer
      have htake : s.rest.take (min most count) =
          s.rest.take (min (min most count) s.rest.length) := List.take_eq_take_min
      have hdrop : s.rest.drop (min most count) =
          s.rest.drop (min (min most count) s.rest.length) := List.drop_eq_drop_min
      have hlength : (s.rest.take (min most count)).length =
          min (min most count) s.rest.length := List.length_take
      simp only
      split
      · next hempty =>
        have hnil : s.rest = [] := by
          rcases List.take_eq_nil_iff.1 (List.isEmpty_iff.1 hempty) with h | h
          · omega
          · exact h
        have hfaulty : ({ s with script := front ++ .fail failure :: later } : Source).Faulty
            failure later := ⟨⟨front, rfl, hrest⟩, hfinal⟩
        have hnothing : s.rest.take count = [] := by rw [hnil, List.take_nil]
        have hshort : ¬count ≤ s.rest.length := by rwa [hnil, List.length_nil, Nat.le_zero]
        have hleft : s.rest = s.rest.drop count := by rw [hnil, List.drop_nil]
        have h := Meets.fills hfaulty hleft
        rwa [hnothing, if_neg hshort] at h
      · rw [hlength, htake, hdrop]
        exact Meets.after_piece (by omega) (Nat.min_le_right _ _) (ih hrest _ _)

/-- As much arrives as from a steady source, unless the source fails on the way. -/
theorem Faulty.fill {s : Source} (hs : s.Faulty failure later) (count : Nat) :
    Meets failure later s count (s.fill count) := by
  obtain ⟨⟨front, hscript, hfront⟩, hfinal⟩ := hs
  rw [Source.fill, hscript]
  exact meets_fillAlong hfinal front hfront s count

end Source

namespace Reader

/-- A reader of a codec with some bytes before it, of which a faulty source will deliver all or some
only. -/
structure Doomed (c : Codec) (failure : IoFailure) (later : List ReadStep) (bytes : Bytes)
    (r : Reader) : Prop where
  faulty : r.source.Faulty failure later
  rest : r.source.rest = bytes
  codec : r.codec = c
  unbroken : r.isBroken = false

/-- A source that has failed after it delivered `got` of the bytes that it held. -/
structure FailedAt (later : List ReadStep) (bytes : Bytes) (got : Nat) (s : Source) : Prop where
  rest : s.rest = bytes.drop got
  script : s.script = later

/-- A reader whose source has failed. -/
structure Fallen (later : List ReadStep) (bytes : Bytes) (got : Nat) (r : Reader) : Prop where
  failed : FailedAt later bytes got r.source
  broken : r.isBroken = true

variable {c : Codec} {failure : IoFailure} {later : List ReadStep}
  {bytes rest payload block : Bytes} {r : Reader}

/-! ### One record -/

/-- The length of a record arrives, or the source fails. -/
theorem fetchLength_doomed (h : Doomed c failure later (record payload ++ rest) r)
    (hfield : payload.length < 2 ^ 32) :
    (∃ r', r.fetchLength = (.ok (some payload.length), r') ∧
      Doomed c failure later (payload ++ rest) r') ∨
    ∃ got r', got < blockLengthSize ∧ r.fetchLength = (.error (.io failure), r') ∧
      FailedAt later (record payload ++ rest) got r'.source := by
  have hlength : (Bytes.ofNatBE blockLengthSize payload.length).length = blockLengthSize :=
    Bytes.length_ofNatBE _ _
  have hrecord : r.source.rest =
      Bytes.ofNatBE blockLengthSize payload.length ++ (payload ++ rest) := by
    rw [h.rest, record, List.append_assoc]
  have hfill := h.faulty.fill blockLengthSize
  unfold fetchLength
  generalize r.source.fill blockLengthSize = filled at hfill
  cases hfill with
  | @fills s' faulty left =>
    have hlong : blockLengthSize ≤ r.source.rest.length := by
      rw [hrecord, List.length_append]
      omega
    have hnumber : Bytes.toNatBE (r.source.rest.take blockLengthSize) = payload.length := by
      rw [hrecord, List.take_left' hlength, Bytes.toNatBE_ofNatBE]
      exact Nat.mod_eq_of_lt hfield
    rw [hrecord, List.drop_left' hlength] at left
    refine .inl ⟨{ r with source := s' }, ?_, ⟨faulty, left, h.codec, h.unbroken⟩⟩
    simp only [if_pos hlong, hnumber]
  | @fails got s' short held script left =>
    rw [h.rest] at left
    exact .inr ⟨got, { r with source := s' }, short, rfl, left, script⟩

/-- A payload arrives, or the source fails. -/
theorem fetchPayload_doomed (heof : failure.kind ≠ .unexpectedEof)
    (h : Doomed c failure later (payload ++ rest) r) (hpositive : 1 ≤ payload.length)
    (hbounded : payload.length ≤ c.maxCompressedLength maxBlockSize) :
    (∃ r', r.fetchPayload payload.length = (.ok (), r') ∧ Doomed c failure later rest r' ∧
      r'.payload = payload) ∨
    ∃ got r', got < payload.length ∧ r.fetchPayload payload.length = (.error (.io failure), r') ∧
      FailedAt later (payload ++ rest) got r'.source := by
  have hzero : ¬payload.length = 0 := by omega
  have hlimit : ¬r.maxPayload < payload.length := by
    rw [maxPayload, h.codec]
    omega
  have hfill := h.faulty.fill payload.length
  unfold fetchPayload
  rw [if_neg hzero, if_neg hlimit]
  generalize r.source.fill payload.length = filled at hfill
  cases hfill with
  | @fills s' faulty left =>
    rw [h.rest, List.drop_left] at left
    have hlong : payload.length ≤ r.source.rest.length := by
      rw [h.rest, List.length_append]
      omega
    have htake : r.source.rest.take payload.length = payload := by rw [h.rest, List.take_left]
    have hheld : (r.buffer.refill payload.length payload).toList = payload :=
      r.buffer.toList_refill_full rfl
    simp only [if_pos hlong, htake, r.source.front_of_length rfl]
    exact .inl ⟨_, rfl, ⟨faulty, left, h.codec, h.unbroken⟩, hheld⟩
  | @fails got s' short held script left =>
    rw [h.rest] at left
    simp only [if_neg heof]
    exact .inr ⟨got, _, short, rfl, left, script⟩

theorem doomed_unpack (h : Doomed c failure later bytes r) :
    Doomed c failure later bytes r.unpack.2 := by
  rcases r.unpack_snd with heq | ⟨unpacked, heq⟩
  · rw [heq]
    exact ⟨h.faulty, h.rest, h.codec, h.unbroken⟩
  · rw [heq]
    exact ⟨h.faulty, h.rest, h.codec, h.unbroken⟩

/-- A record gives its block, or the source fails before all of the record has arrived. -/
theorem nextBlock_doomed (heof : failure.kind ≠ .unexpectedEof)
    (h : Doomed c failure later (record payload ++ rest) r)
    (hdecodes : c.Decodes payload block) :
    (∃ r', r.nextBlock = (.ok (some block), r') ∧ Doomed c failure later rest r') ∨
    ∃ got r', got < (record payload).length ∧ r.nextBlock = (.error (.io failure), r') ∧
      Fallen later (record payload ++ rest) got r' := by
  have hcleared : Doomed c failure later (record payload ++ rest) r.cleared :=
    ⟨h.faulty, h.rest, h.codec, h.unbroken⟩
  have hsize : (record payload).length = blockLengthSize + payload.length := length_record payload
  rw [nextBlock_of_unbroken h.unbroken]
  rcases fetchLength_doomed hcleared hdecodes.field with ⟨r₁, hlength, h₁⟩ |
    ⟨got, r₁, hshort, hlength, hfailed⟩
  case inr =>
    simp only [fetch, hlength]
    exact .inr ⟨got, _, by omega, rfl, hfailed, rfl⟩
  rcases fetchPayload_doomed heof h₁ hdecodes.positive hdecodes.bounded with
    ⟨r₂, hpayload, h₂, hheld⟩ | ⟨got, r₂, hshort, hpayload, hfailed⟩
  case inr =>
    -- the length field had been delivered before
    have hbefore : payload ++ rest = (record payload ++ rest).drop blockLengthSize := by
      rw [record, List.append_assoc, List.drop_left' (Bytes.length_ofNatBE _ _)]
    simp only [fetch, hlength, hpayload]
    refine .inr ⟨blockLengthSize + got, _, by omega, rfl, ⟨?_, hfailed.script⟩, rfl⟩
    rw [← List.drop_drop, ← hbefore]
    exact hfailed.rest
  have hunpack : r₂.unpack.1 = .ok block := unpack_decodes (by rw [hheld, h₂.codec]; exact hdecodes)
  have h₃ := doomed_unpack h₂
  simp only [fetch, hlength, hpayload]
  generalize r₂.unpack = outcome at hunpack h₃
  obtain ⟨result, r₃⟩ := outcome
  cases hunpack
  exact .inl ⟨_, rfl, h₃.faulty, h₃.rest, h₃.codec, h₃.unbroken⟩

/-- Where nothing is left the stream ends, or the source fails in place of its end. -/
theorem nextBlock_doomed_over (h : Doomed c failure later [] r) :
    (∃ r', r.nextBlock = (.ok none, r') ∧ Doomed c failure later [] r') ∨
    ∃ r', r.nextBlock = (.error (.io failure), r') ∧ Fallen later [] 0 r' := by
  have hsource : r.cleared.source = r.source := rfl
  have hfill := h.faulty.fill blockLengthSize
  rw [nextBlock_of_unbroken h.unbroken]
  simp only [fetch, fetchLength, hsource]
  generalize r.source.fill blockLengthSize = filled at hfill
  cases hfill with
  | @fills s' faulty left =>
    rw [h.rest, List.drop_nil] at left
    simp only [h.rest, List.length_nil, List.take_nil]
    exact .inl ⟨_, rfl, faulty, left, h.codec, h.unbroken⟩
  | @fails got s' short held script left =>
    rw [h.rest, List.drop_nil] at left
    exact .inr ⟨_, rfl, ⟨left, script⟩, rfl⟩

/-! ### Many records -/

/-- The blocks come out one after the other, and then the stream ends. If the source fails before,
these are the blocks of the records that have arrived as a whole, and then the failure. -/
theorem nextBlocks_doomed (heof : failure.kind ≠ .unexpectedEof) {payloads blocks : List Bytes}
    (hdecodes : List.Forall₂ c.Decodes payloads blocks)
    (h : Doomed c failure later (payloads.flatMap record) r) :
    (∃ r', r.nextBlocks (blocks.length + 1) =
        (blocks.map (fun block => .ok (some block)) ++ [.ok none], r') ∧
      Doomed c failure later [] r') ∨
    ∃ count got r', count ≤ blocks.length ∧
      ((payloads.take count).flatMap record).length ≤ got ∧
      got ≤ (payloads.flatMap record).length ∧
      (count < blocks.length → got < ((payloads.take (count + 1)).flatMap record).length) ∧
      r.nextBlocks (count + 1) =
        ((blocks.take count).map (fun block => .ok (some block)) ++ [.error (.io failure)], r') ∧
      Fallen later (payloads.flatMap record) got r' := by
  -- each record is one call, and the source may fail in any of them
  induction hdecodes generalizing r with
  | nil =>
    rcases nextBlock_doomed_over h with ⟨r', hnext, h'⟩ | ⟨r', hnext, hfallen⟩
    · exact .inl ⟨r', by rw [nextBlocks_succ, hnext]; rfl, h'⟩
    · refine .inr ⟨0, 0, r', Nat.le_refl _, Nat.le_refl _, Nat.le_refl _, fun hlt => ?_, ?_,
        hfallen⟩
      · exact absurd hlt (Nat.lt_irrefl _)
      · rw [nextBlocks_succ, hnext]
        rfl
  | @cons payload block payloads blocks hblock _ ih =>
    rw [List.flatMap_cons] at h ⊢
    rcases nextBlock_doomed heof h hblock with ⟨r₁, hnext, h₁⟩ | ⟨got, r₁, hshort, hnext, hfallen⟩
    case inr =>
      refine .inr ⟨0, got, r₁, Nat.zero_le _, Nat.zero_le _, ?_, fun _ => ?_, ?_, hfallen⟩
      · rw [List.length_append]
        omega
      · simpa using hshort
      · rw [nextBlocks_succ, hnext]
        rfl
    rcases ih h₁ with ⟨r', hrun, h'⟩ | ⟨count, got, r', hcount, hwhole, hgot, hpart, hrun, hfallen⟩
    · refine .inl ⟨r', ?_, h'⟩
      rw [nextBlocks_succ, hnext, List.length_cons, hrun]
      rfl
    · refine .inr ⟨count + 1, (record payload).length + got, r', Nat.succ_le_succ hcount, ?_, ?_,
        fun hlt => ?_, ?_, ⟨⟨?_, hfallen.failed.script⟩, hfallen.broken⟩⟩
      · rw [List.take_succ_cons, List.flatMap_cons, List.length_append]
        omega
      · rw [List.length_append]
        omega
      · have hpart := hpart (Nat.lt_of_succ_lt_succ hlt)
        rw [List.take_succ_cons, List.flatMap_cons, List.length_append]
        omega
      · rw [nextBlocks_succ, hnext, hrun]
        rfl
      · rw [← List.drop_drop, List.drop_left]
        exact hfallen.failed.rest

/-! ### Whole streams -/

/-- The header is read, or the source fails before all of it has arrived. -/
theorem readFrom_faulty (heof : failure.kind ≠ .unexpectedEof) {source : Source}
    (hfaulty : source.Faulty failure later) {stream : Bytes} (hrest : source.rest = stream)
    {header : Header} (hlong : headerSize ≤ stream.length)
    (hdecode : Header.decode (stream.take headerSize) = .ok header) :
    (∃ s, Header.readFrom source = (.ok header, s) ∧ s.Faulty failure later ∧
      s.rest = stream.drop headerSize) ∨
    ∃ got s, got < headerSize ∧ Header.readFrom source = (.error (.io failure), s) ∧
      FailedAt later stream got s := by
  have hfill := hfaulty.fill headerSize
  subst hrest
  unfold Header.readFrom
  generalize source.fill headerSize = filled at hfill
  cases hfill with
  | @fills s faulty rest =>
    simp only [if_pos hlong, hdecode]
    exact .inl ⟨s, rfl, faulty, rest⟩
  | @fails got s short held script rest =>
    simp only [if_neg heof]
    exact .inr ⟨got, s, short, rfl, rest, script⟩

/-- How a reader fares on a stream from a faulty source, where `place` is the count of the bytes of
the stream that were delivered before the failure. -/
inductive Fares (c : Codec) (stream : Bytes) (payloads blocks : List Bytes) (failure : IoFailure)
    (later : List ReadStep) (source : Source) : Prop
  /-- The source fails within the header, so the stream is not opened. -/
  | unopened {place : Nat} (inside : place < headerSize)
      (failed : FailedAt later stream place (Header.readFrom source).2)
      (create : create source c = .error (.io failure))
      (openBundled : ∀ libs, openBundled source libs = .error (.io failure))
  /-- It fails behind the header, which may be within a record or in place of the end. The blocks
  whose records were delivered as a whole come out, then the failure, and then the reader is broken
  for ever. -/
  | broke {place count : Nat} {r r' : Reader} (create : create source c = .ok r)
      (openBundled : ∀ libs, Codec.ofId c.id libs = .ok c → openBundled source libs = .ok r)
      (behind : headerSize ≤ place) (inside : place ≤ stream.length)
      (counted : count ≤ blocks.length) (whole : recordStart payloads count ≤ place)
      (part : count < blocks.length → place < recordStart payloads (count + 1))
      (failed : FailedAt later stream place r'.source)
      (gives : ∀ more, r.nextBlocks (count + 1 + more) =
        ((blocks.take count).map (fun block => .ok (some block)) ++
          .error (.io failure) :: List.replicate more (.error .broken), r'))
  /-- It delivers all of the stream and reports its end, and has yet to fail. -/
  | ended {r r' : Reader} (create : create source c = .ok r)
      (openBundled : ∀ libs, Codec.ofId c.id libs = .ok c → openBundled source libs = .ok r)
      (pending : r'.source.Faulty failure later) (nothing : r'.source.rest = [])
      (gives : r.nextBlocks (blocks.length + 1) =
        (blocks.map (fun block => .ok (some block)) ++ [.ok none], r'))

/-- A broken reader stays as it is. -/
theorem nextBlocks_broken_snd (hr : r.isBroken = true) (count : Nat) :
    (r.nextBlocks count).2 = r := by
  have hnext : r.nextBlock = (.error .broken, r) := by rw [nextBlock, if_pos hr]
  induction count with
  | zero => rfl
  | succ count ih => rw [nextBlocks_succ, hnext, ih]

/-- A stream of records that all decode, from a faulty source. -/
theorem fares_of_faulty (heof : failure.kind ≠ .unexpectedEof) {source : Source}
    (hfaulty : source.Faulty failure later) {stream : Bytes} (hrest : source.rest = stream)
    (hheads : c.Heads stream) {payloads blocks : List Bytes}
    (hdecodes : List.Forall₂ c.Decodes payloads blocks)
    (hrecords : stream.drop headerSize = payloads.flatMap record) :
    Fares c stream payloads blocks failure later source := by
  obtain ⟨hlong, header, hdecode, hid⟩ := hheads
  rcases readFrom_faulty heof hfaulty hrest hlong hdecode with ⟨s, hread, hs, hleft⟩ |
    ⟨place, s, hinside, hread, hfailed⟩
  case inr =>
    refine .unopened hinside (hread ▸ hfailed) ?_ fun libs => ?_
    · simp only [create, hread]
    · simp only [openBundled, hread]
  obtain ⟨r, hparts, hdoomed⟩ : ∃ r, ofParts s header c = .ok r ∧
      Doomed c failure later (payloads.flatMap record) r := by
    rw [ofParts, if_neg (not_not_intro hid)]
    exact ⟨_, rfl, hs, hleft.trans hrecords, rfl, rfl⟩
  have hcreate : create source c = .ok r := by simp only [create, hread, hparts]
  have hbundled : ∀ libs, Codec.ofId c.id libs = .ok c → openBundled source libs = .ok r := by
    intro libs hof
    simp only [openBundled, hread, hid, hof, hparts]
  have hlength : stream.length = headerSize + (payloads.flatMap record).length := by
    rw [← hrecords, List.length_drop]
    omega
  rcases nextBlocks_doomed heof hdecodes hdoomed with ⟨r', hrun, h'⟩ |
    ⟨count, got, r', hcount, hwhole, hgot, hpart, hrun, hfallen⟩
  · exact .ended hcreate hbundled h'.faulty h'.rest hrun
  · have hfailed : FailedAt later stream (headerSize + got) r'.source := by
      refine ⟨?_, hfallen.failed.script⟩
      rw [← List.drop_drop, hrecords]
      exact hfallen.failed.rest
    refine .broke hcreate hbundled (Nat.le_add_right _ _) (by omega) hcount
      (Nat.add_le_add_left hwhole _) (fun hlt => Nat.add_lt_add_left (hpart hlt) _) hfailed ?_
    intro more
    rw [nextBlocks_add, hrun, nextBlocks_broken hfallen.broken,
      nextBlocks_broken_snd hfallen.broken, List.append_assoc]
    rfl

/-- What is made of a stream does not depend on how its source delivers it. If the source delivers
all of it, in whichever pieces and with whichever interruptions, opening it and every sequence of
requests give what they give with the stream in memory. If the source fails on the way, the stream
is not opened or gives the blocks that have arrived as a whole, then that failure. -/
theorem delivery_is_immaterial {source : Source} {stream : Bytes} (hrest : source.rest = stream) :
    (source.Steady →
      (∀ codec, OpenedAlike (create (.ofBytes stream) codec) (create source codec)) ∧
      (∀ libs, OpenedAlike (openBundled (.ofBytes stream) libs) (openBundled source libs)) ∧
      ∀ header codec,
        OpenedAlike (ofParts (.ofBytes stream) header codec) (ofParts source header codec)) ∧
    ∀ (failure : IoFailure) (later : List ReadStep), source.Faulty failure later →
      failure.kind ≠ .unexpectedEof →
      ∀ (codec : Codec) (payloads blocks : List Bytes), codec.Heads stream →
        List.Forall₂ codec.Decodes payloads blocks →
        stream.drop headerSize = payloads.flatMap record →
        Fares codec stream payloads blocks failure later source := by
  refine ⟨fun hsteady => ?_, ?_⟩
  · have hsame : (Source.ofBytes stream).Same source :=
      ⟨hrest, Source.steady_ofBytes stream, hsteady⟩
    exact ⟨create_alike hsame, openBundled_alike hsame, ofParts_alike hsame⟩
  · intro failure later hfaulty heof codec payloads blocks hheads hdecodes hrecords
    exact fares_of_faulty heof hfaulty hrest hheads hdecodes hrecords

/-- Two bytes and one more, once from a source that takes its time and once from one that fails
within the length of the second record. -/
theorem delivery_is_immaterial_timedOut :
    let payloads := [Payload.encode 2 [1, 2], Payload.encode 1 [3]]
    let stream := (Header.current 0).encode ++ payloads.flatMap record
    let again := ReadStep.fail ⟨.interrupted, "again"⟩
    OpenedAlike (create (.ofBytes stream) .passthrough)
        (create { rest := stream, script := [.deliverAtMost 3, again], pieceLimit := some 7 }
          .passthrough) ∧
      Fares .passthrough stream payloads [[1, 2], [3]] ⟨.timedOut, "slow"⟩ []
        { rest := stream, script := [.deliverAtMost 20, again, .deliverAtMost 9, .deliverAtMost 6,
            .deliverAtMost 3, .fail ⟨.timedOut, "slow"⟩] } := by
  intro payloads stream again
  have hpayloads : List.Forall₂ Codec.passthrough.Decodes payloads [[1, 2], [3]] := by
    refine .cons ?_ (.cons ?_ .nil)
    · exact @Codec.decodes_passthrough [1, 2] (by simp) (by decide)
    · exact @Codec.decodes_passthrough [3] (by simp) (by decide)
  have hheads : Codec.passthrough.Heads stream := ⟨by decide, Header.current 0, by decide, rfl⟩
  have hsteady : Source.Steady
      { rest := stream, script := [.deliverAtMost 3, again], pieceLimit := some 7 } :=
    ⟨by simp [again, ReadStep.goesOn], by simp⟩
  have hfaulty : Source.Faulty ⟨.timedOut, "slow"⟩ []
      { rest := stream, script := [.deliverAtMost 20, again, .deliverAtMost 9, .deliverAtMost 6,
          .deliverAtMost 3, .fail ⟨.timedOut, "slow"⟩] } := by
    refine ⟨⟨[.deliverAtMost 20, again, .deliverAtMost 9, .deliverAtMost 6, .deliverAtMost 3], rfl,
      ?_⟩, by simp⟩
    simp [again, ReadStep.goesOn]
  refine ⟨((delivery_is_immaterial rfl).1 hsteady).1 .passthrough, ?_⟩
  exact (delivery_is_immaterial rfl).2 _ _ hfaulty (by simp) .passthrough payloads [[1, 2], [3]]
    hheads hpayloads (by decide)

end Reader

end FramedStream
