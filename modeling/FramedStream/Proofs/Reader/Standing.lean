import FramedStream.Proofs.Reader.Pulls
import FramedStream.Proofs.Reader.Streams

/-!
# Where a source stands

A reader takes a record off its source to decode it, and nothing else. So between any two calls its
source stands behind the records that were decoded, and can be handed on.

* `TookRecord` is what the source has lost to a block (`tookRecord_nextBlock`), whatever it does;
* `Standing` is a reader whose source stands where it should. A block that comes out of it is the
  next one (`standing_got`), every call keeps it (`invariant_standing`), and all that it is going to
  give are the blocks that are left (`outlook_standing`);
* `Succeed` are calls of which none fails. They leave a reader unbroken (`unbroken_of_succeed`);
* `source_stands_behind_decoded_records` puts it together with what a read takes off the source.
-/

namespace FramedStream

/-- What has arrived in full is the front of what there was. -/
theorem Source.rest_fill_full {s : Source} {count : Nat} (h : (s.fill count).stop = .full) :
    (s.fill count).source.rest = s.rest.drop count := by
  rw [← s.fill_split count, List.drop_left' (s.length_fill_full count h)]

namespace Reader

variable {c : Codec} {payloads blocks : List Bytes} {block : Bytes} {r r' : Reader}

/-! ### One record -/

/-- A length that was taken is the field in front of what is left. -/
theorem rest_fetchLength_some {size : Nat} (h : r.fetchLength.1 = .ok (some size)) :
    size < 2 ^ 32 ∧ r.source.rest =
      Bytes.ofNatBE blockLengthSize size ++ r.fetchLength.2.source.rest := by
  simp only [fetchLength] at h
  split at h
  · next hfull =>
    cases h
    have hlength := r.source.length_fill_full blockLengthSize hfull
    have hlt := Bytes.toNatBE_lt (r.source.fill blockLengthSize).bytes
    have hfield := Bytes.ofNatBE_toNatBE (r.source.fill blockLengthSize).bytes
    rw [hlength] at hlt hfield
    rw [hfield]
    exact ⟨hlt, (r.source.fill_split blockLengthSize).symm⟩
  · split at h <;> cases h
  · cases h

/-- Where a source has ended, it has given nothing. -/
theorem rest_fetchLength_none (h : r.fetchLength.1 = .ok none) :
    r.fetchLength.2.source.rest = r.source.rest := by
  simp only [fetchLength] at h
  split at h
  · cases h
  · split at h
    · next hempty =>
      have hsplit := r.source.fill_split blockLengthSize
      rwa [List.isEmpty_iff.1 hempty, List.nil_append] at hsplit
    · cases h
  · cases h

/-- A payload that was taken is held, and was in front of what is left. -/
theorem rest_fetchPayload_ok {size : Nat} (h : (r.fetchPayload size).1 = .ok ()) :
    (r.fetchPayload size).2.payload.length = size ∧
      r.source.rest = (r.fetchPayload size).2.payload ++ (r.fetchPayload size).2.source.rest := by
  unfold fetchPayload at h ⊢
  split at h
  · cases h
  next hzero =>
  split at h
  · cases h
  next hlimit =>
  simp only at h
  split at h
  · next hfull =>
    have hlength := r.source.length_fill_full size hfull
    have hheld : (r.buffer.refill size (r.source.fill size).bytes).toList =
        (r.source.fill size).bytes := r.buffer.toList_refill_full hlength
    rw [if_neg hzero, if_neg hlimit]
    simp only [payload, r.source.front_of_length hlength, hheld]
    exact ⟨hlength, (r.source.fill_split size).symm⟩
  · cases h
  · split at h <;> cases h

/-- What the source has lost to a block: the record of the payload that is held then. If the codec
decodes that payload at all, it gives this block. -/
structure TookRecord (r : Reader) (block : Bytes) (r' : Reader) : Prop where
  field : r'.payload.length < 2 ^ 32
  rest : r.source.rest = record r'.payload ++ r'.source.rest
  decoded : ∀ block', r.codec.Decodes r'.payload block' → block = block'

theorem tookRecord_fetch (h : r.fetch = (.ok (some block), r')) : TookRecord r block r' := by
  have hsteps := fetchSteps r
  rw [h] at hsteps
  cases hsteps with
  | @got size _ length payload unpack =>
    obtain ⟨hlt, hlength⟩ := rest_fetchLength_some length
    obtain ⟨hsize, hpayload⟩ : (r.loaded size).payload.length = size ∧ r.fetchLength.2.source.rest =
        (r.loaded size).payload ++ (r.loaded size).source.rest := rest_fetchPayload_ok payload
    have hheld : (r.loaded size).unpack.2.payload = (r.loaded size).payload :=
      congrArg Buffer.toList (buffer_unpack _)
    refine ⟨?_, ?_, fun block' hdecodes => ?_⟩
    · show (r.loaded size).unpack.2.payload.length < 2 ^ 32
      rw [hheld, hsize]
      exact hlt
    · show r.source.rest = record (r.loaded size).unpack.2.payload ++
        (r.loaded size).unpack.2.source.rest
      rw [hheld, source_unpack, record, hsize, List.append_assoc, hlength, hpayload]
    · have hdecodes : (r.loaded size).codec.Decodes (r.loaded size).payload block' := by
        rw [(holds_loaded r size).codec, ← hheld]
        exact hdecodes
      exact Except.ok.inj (unpack.symm.trans (unpack_decodes hdecodes))

theorem tookRecord_nextBlock (h : r.nextBlock = (.ok (some block), r')) :
    TookRecord r block r' := by
  have hsteps := nextSteps r
  rw [h] at hsteps
  cases hsteps with
  | got _ fetch =>
    obtain ⟨field, rest, decoded⟩ := tookRecord_fetch fetch
    exact ⟨field, rest, decoded⟩

/-- A stream that ends loses nothing. -/
theorem rest_nextBlock_none (h : r.nextBlock = (.ok none, r')) :
    r'.source.rest = r.source.rest := by
  have hsteps := nextSteps r
  rw [h] at hsteps
  cases hsteps with
  | ended _ fetch =>
    have hsteps := fetchSteps r.cleared
    rw [fetch] at hsteps
    cases hsteps with
    | ended length => exact rest_fetchLength_none length

/-! ### Between two records -/

/-- A reader of the records of some payloads that has taken as many of them off its source as it has
decoded, unless it is broken. -/
structure Standing (c : Codec) (payloads : List Bytes) (r : Reader) : Prop where
  codec : r.codec = c
  count : r.blocksRead ≤ payloads.length
  rest : r.isBroken = false → r.source.rest = (payloads.drop r.blocksRead).flatMap record

/-- A record in front of some bytes that are records is the first of them. -/
theorem forall₂_of_front (hdecodes : List.Forall₂ c.Decodes payloads blocks) {payload rest : Bytes}
    (hfield : payload.length < 2 ^ 32) (h : payloads.flatMap record = record payload ++ rest) :
    ∃ block payloads' blocks', payloads = payload :: payloads' ∧ blocks = block :: blocks' ∧
      c.Decodes payload block ∧ payloads'.flatMap record = rest := by
  cases hdecodes with
  | nil =>
    -- a record is not nothing
    have hlength := congrArg List.length h
    rw [List.flatMap_nil, List.length_nil, List.length_append, length_record,
      blockLengthSize] at hlength
    omega
  | @cons payload' block payloads' blocks' hblock =>
    rw [List.flatMap_cons] at h
    obtain ⟨rfl, hrest⟩ := record_append_inj hblock.field hfield h
    exact ⟨block, payloads', blocks', rfl, rfl, hblock, hrest⟩

/-- A block that is given is the next one, and then the source stands behind its record. -/
theorem standing_got (hdecodes : List.Forall₂ c.Decodes payloads blocks)
    (h : Standing c payloads r) (hnext : r.nextBlock = (.ok (some block), r')) :
    Standing c payloads r' ∧ blocks.drop r.blocksRead = block :: blocks.drop r'.blocksRead := by
  have htook := tookRecord_nextBlock hnext
  have hcodec : r'.codec = r.codec := by
    have hstream := (stream_nextBlock r).2
    rwa [hnext] at hstream
  have hcount : r'.blocksRead = r.blocksRead + 1 := by
    have hcount := blocksRead_nextBlock r
    rwa [hnext] at hcount
  have hfront : (payloads.drop r.blocksRead).flatMap record =
      record r'.payload ++ r'.source.rest := by
    have hnexts := nexts r
    rw [hnext] at hnexts
    cases hnexts with
    | got unbroken => rw [← h.rest unbroken, htook.rest]
  obtain ⟨block', payloads', blocks', hpayloads, hblocks, hblock, hrest⟩ :=
    forall₂_of_front (List.forall₂_drop r.blocksRead hdecodes) htook.field hfront
  obtain rfl : block = block' := htook.decoded block' (h.codec.symm ▸ hblock)
  have hlater : payloads.drop r'.blocksRead = payloads' := by
    rw [hcount, ← List.tail_drop, hpayloads, List.tail_cons]
  have hlater' : blocks.drop r'.blocksRead = blocks' := by
    rw [hcount, ← List.tail_drop, hblocks, List.tail_cons]
  refine ⟨⟨hcodec.trans h.codec, ?_, fun _ => ?_⟩, ?_⟩
  · have hlength := congrArg List.length hpayloads
    rw [List.length_drop, List.length_cons] at hlength
    omega
  · rw [hlater, hrest]
  · rw [hlater', hblocks]

/-- Every call leaves the source behind the records that were decoded. -/
theorem invariant_standing (hdecodes : List.Forall₂ c.Decodes payloads blocks) :
    Invariant (Standing c payloads) where
  nextBlock := by
    intro r h
    have hgot : ∀ block r', r.nextBlock = (.ok (some block), r') → Standing c payloads r' :=
      fun _ _ hnext => (standing_got hdecodes h hnext).1
    have hended : ∀ r', r.nextBlock = (.ok none, r') → r'.source.rest = r.source.rest :=
      fun _ => rest_nextBlock_none
    have hstream := (stream_nextBlock r).2
    have hcount := blocksRead_nextBlock r
    have hnexts := nexts r
    generalize r.nextBlock = outcome at hgot hended hstream hcount hnexts
    cases hnexts with
    | refused => exact h
    | @got block r' => exact hgot block r' rfl
    | @ended r' unbroken =>
      have hcount : r'.blocksRead = r.blocksRead := hcount
      refine ⟨hstream.trans h.codec, hcount ▸ h.count, fun _ => ?_⟩
      rw [hended r' rfl, h.rest unbroken, hcount]
    | @failed e r' _ _ _ broken =>
      have hcount : r'.blocksRead = r.blocksRead := hcount
      refine ⟨hstream.trans h.codec, hcount ▸ h.count, fun hunbroken => ?_⟩
      rw [broken] at hunbroken
      cases hunbroken
  moved h _ := ⟨h.codec, h.count, h.rest⟩

/-- Whatever the source does, the blocks that come are the next ones. -/
theorem outlook_standing (hdecodes : List.Forall₂ c.Decodes payloads blocks)
    (h : Standing c payloads r) : r.outlook.blocks <+: blocks.drop r.blocksRead := by
  fun_induction outlook r with
  | case1 => exact List.nil_prefix
  | case2 => exact List.nil_prefix
  | case3 r block r' hnext hless ih =>
    obtain ⟨hstanding, hahead⟩ := standing_got hdecodes h hnext
    rw [hahead]
    exact (List.prefix_cons_inj block).2 (ih hstanding)

/-! ### Calls that succeed -/

/-- Calls of which none fails when its turn comes. -/
def Succeed (r : Reader) : List Call → Prop
  | [] => True
  | call :: calls => ¬call.Fails r ∧ (call.perform r).2.Succeed calls

/-- A read fails if the loop below it does. -/
theorem fails_of_draw {call : Call} {count : Nat} (hcall : call.Asks count) {e : Error}
    (h : (r.draw count).result = .error e) : call.Fails r := by
  cases call with
  | read wanted =>
    cases hcall
    exact ⟨e.toIo, by simp only [read, h]⟩
  | readBytes buffer offset length =>
    obtain ⟨hrange, rfl⟩ := hcall
    refine ⟨hrange, e, ?_⟩
    simp only [readBytes, if_neg (Nat.not_lt.2 hrange), h]
    rfl
  | readElements t array offset elements =>
    obtain ⟨hrange, rfl⟩ := hcall
    refine ⟨hrange, e, ?_⟩
    simp only [readElements_eq r t hrange, readBytes,
      if_neg (Nat.not_lt.2 (byteRange_fits t hrange)), h]
    rfl
  | _ => exact hcall.elim

/-- A read that does not fail leaves the reader unbroken. -/
theorem unbroken_of_asks (hr : r.Sound) (hunbroken : r.isBroken = false) {call : Call} {count : Nat}
    (hcall : call.Asks count) (hsucceeds : ¬call.Fails r) :
    (call.perform r).2.isBroken = false := by
  obtain ⟨reply, hreply⟩ := perform_of_asks hcall
  rw [hreply]
  cases hresult : (r.draw count).result with
  | error e => exact absurd (fails_of_draw hcall hresult) hsucceeds
  | ok => exact unbroken_of_drawOnto hr (fun _ => hunbroken) hresult

theorem unbroken_of_call (hr : r.Sound) (hunbroken : r.isBroken = false) {call : Call}
    (hsucceeds : ¬call.Fails r) : (call.perform r).2.isBroken = false := by
  cases call with
  | nextBlock =>
    have hnexts := nexts r
    show r.nextBlock.2.isBroken = false
    cases hresult : r.nextBlock.1 with
    | error e => exact absurd ⟨e, hresult⟩ hsucceeds
    | ok =>
      generalize r.nextBlock = outcome at hnexts hresult
      cases hnexts with
      | refused | failed => cases hresult
      | got _ _ _ still | ended _ _ _ still => exact still
  | readBytes buffer offset length =>
    by_cases hrange : offset + length ≤ buffer.length
    · exact unbroken_of_asks hr hunbroken ⟨hrange, rfl⟩ hsucceeds
    · simpa only [Call.perform, readBytes, if_pos (Nat.not_le.1 hrange)] using hunbroken
  | readElements t array offset count =>
    by_cases hrange : offset + count ≤ array.length
    · exact unbroken_of_asks hr hunbroken ⟨hrange, rfl⟩ hsucceeds
    · simpa only [Call.perform, readElements, ElementType.byteRange?, if_neg hrange] using hunbroken
  | read count =>
    have hasks : (Call.read count).Asks count := rfl
    exact unbroken_of_asks hr hunbroken hasks hsucceeds
  | fillBuf =>
    show r.fillBuf.2.isBroken = false
    rw [fillBuf_snd]
    rcases hview : r.available with ⟨e | chunk, r'⟩
    · exact absurd ⟨e.toIo, by simp only [fillBuf, hview]⟩ hsucceeds
    · exact unbroken_of_available hr hview
  | consume count => exact hunbroken

/-- Calls that succeed leave a reader that goes on. -/
theorem unbroken_of_succeed (hr : r.Sound) (hunbroken : r.isBroken = false) {calls : List Call}
    (hcalls : r.Succeed calls) : (r.perform calls).2.isBroken = false := by
  induction calls generalizing r with
  | nil => exact hunbroken
  | cons call calls ih =>
    obtain ⟨hcall, hlater⟩ := hcalls
    exact ih (invariant_sound.perform hr call) (unbroken_of_call hr hunbroken hcall) hlater

/-! ### Opening -/

/-- A reader that was just opened stands behind the header. -/
theorem standing_create {source : Source} (hcreate : create source c = .ok r)
    (hrecords : source.rest.drop headerSize = payloads.flatMap record) :
    Standing c payloads r ∧ r.Placed ∧ r.isBroken = false ∧ r.header.codecId = c.id := by
  unfold create at hcreate
  split at hcreate
  · cases hcreate
  next header s hread =>
  have hplaced := placed_ofParts hcreate
  have hrest : s.rest = source.rest.drop headerSize := by
    simp only [Header.readFrom] at hread
    obtain ⟨hresult, rfl⟩ := Prod.mk.inj hread
    split at hresult
    · next hfull => exact Source.rest_fill_full hfull
    · cases hresult
    · split at hresult <;> cases hresult
  unfold ofParts at hcreate
  split at hcreate
  · cases hcreate
  next hid =>
  cases hcreate
  refine ⟨⟨rfl, Nat.zero_le _, fun _ => ?_⟩, hplaced, rfl, not_not.1 hid⟩
  rw [List.drop_zero, ← hrecords]
  exact hrest

/-- The records behind the first ones start where these end. -/
theorem drop_recordStart {stream : Bytes}
    (hrecords : stream.drop headerSize = payloads.flatMap record) (count : Nat) :
    stream.drop (recordStart payloads count) = (payloads.drop count).flatMap record := by
  have hsplit : payloads.flatMap record =
      (payloads.take count).flatMap record ++ (payloads.drop count).flatMap record := by
    rw [← List.flatMap_append, List.take_append_drop]
  rw [recordStart, ← List.drop_drop, hrecords, hsplit, List.drop_left]

/-- What a call takes off the source that asks for `count` bytes, where these blocks are still to
come. -/
structure Frugal (blocks : List Bytes) (r : Reader) (count : Nat) (call : Call) : Prop where
  /-- If the current block suffices it takes nothing: over any other source it would do the same. -/
  held : count ≤ r.undrained.length → ∀ source, call.perform { r with source } =
    ((call.perform r).1, { r with source, position := r.position + count })
  /-- Else it decodes one record after the other, and no more of them than suffice. -/
  pulled : ∃ pulls position, (call.perform r).2 = { (r.nextBlocks pulls).2 with position } ∧
    ∀ enough, count ≤ r.undrained.length + (blocks.take enough).flatten.length → pulls ≤ enough

theorem frugal_standing (hdecodes : List.Forall₂ c.Decodes payloads blocks)
    (hstanding : Standing c payloads r) (hplaced : r.Placed) {call : Call} {count : Nat}
    (hcall : call.Asks count) : Frugal (blocks.drop r.blocksRead) r count call where
  held hcount source := perform_held hplaced hcall hcount source
  pulled := by
    obtain ⟨pulls, ⟨position, hreader⟩, hmost, hlacking⟩ := perform_pulls hplaced hcall
    refine ⟨pulls, position, hreader, fun enough hcount => ?_⟩
    by_contra hmore
    have hlack := hlacking enough (Nat.not_le.1 hmore)
    -- the blocks before the last one pulled are all among those that the reader is going to give
    obtain ⟨later, hlater⟩ := outlook_standing hdecodes hstanding
    have hfound : enough ≤ r.outlook.blocks.length := by
      rw [Outlook.blocks, List.length_map]
      omega
    rw [← hlater, List.take_append_of_le_length hfound] at hcount
    omega

/-- A new reader on the source of one that stands between two records. It gives the blocks that are
left, whatever the source does, and all of them if the source delivers them. -/
theorem ofParts_standing (hdecodes : List.Forall₂ c.Decodes payloads blocks)
    (h : Standing c payloads r) (hunbroken : r.isBroken = false)
    (hid : r.header.codecId = c.id) :
    ∃ r', ofParts r.source r.header c = .ok r' ∧
      r'.outlook.blocks <+: blocks.drop r.blocksRead ∧
      (r.source.Steady → ∃ r'', r'.nextBlocks ((blocks.drop r.blocksRead).length + 1) =
        ((blocks.drop r.blocksRead).map (fun block => .ok (some block)) ++ [.ok none], r'')) := by
  have hahead := List.forall₂_drop r.blocksRead hdecodes
  have hrest := h.rest hunbroken
  obtain ⟨r', hparts, hstanding, hzero, hbefore⟩ : ∃ r', ofParts r.source r.header c = .ok r' ∧
      Standing c (payloads.drop r.blocksRead) r' ∧ r'.blocksRead = 0 ∧
      (r.source.Steady → Before c ((payloads.drop r.blocksRead).flatMap record ++ []) r') := by
    rw [ofParts, if_neg (not_not_intro hid), List.append_nil]
    exact ⟨_, rfl, ⟨rfl, Nat.zero_le _, fun _ => hrest⟩, rfl,
      fun hsteady => ⟨hsteady, hrest, rfl, rfl⟩⟩
  refine ⟨r', hparts, ?_, fun hsteady => ?_⟩
  · have hgives := outlook_standing hahead hstanding
    rwa [hzero, List.drop_zero] at hgives
  · obtain ⟨r₁, hbefore₁, -, hrun⟩ := nextBlocks_decodes hahead (hbefore hsteady)
    obtain ⟨r₂, hover, -⟩ := nextBlock_over hbefore₁
    refine ⟨r₂, ?_⟩
    rw [hrun, nextBlocks_succ, hover]
    rfl

/-- A source that delivers all of its bytes goes on doing so. -/
theorem invariant_steady : Invariant fun r => r.source.Steady :=
  invariant_source (Q := Source.Steady) fun count h => (h.fill count).2.2.1

/-- A reader takes exactly the records that it has decoded off its source. After any calls that
succeed, on a stream from any source, the source stands behind the header and as many records as
blocks were read: at the length of the next record. A read takes records off it only where the
current block does not suffice, and then no more than suffice. A new reader on that source goes on
with the next block. -/
theorem source_stands_behind_decoded_records {c : Codec} {stream : Bytes}
    {payloads blocks : List Bytes} (hrecords : stream.drop headerSize = payloads.flatMap record)
    (hdecodes : List.Forall₂ c.Decodes payloads blocks) {source : Source}
    (hrest : source.rest = stream) {r₀ : Reader} (hcreate : create source c = .ok r₀)
    {calls : List Call} (hcalls : r₀.Succeed calls) :
    ∃ r, (r₀.perform calls).2 = r ∧ r.blocksRead ≤ blocks.length ∧
      r.source.rest = stream.drop (recordStart payloads r.blocksRead) ∧
      (∀ (call : Call) (count : Nat), call.Asks count →
        Frugal (blocks.drop r.blocksRead) r count call) ∧
      ∃ r', ofParts r.source r.header c = .ok r' ∧
        r'.outlook.blocks <+: blocks.drop r.blocksRead ∧
        (r.source.Steady → ∃ r'', r'.nextBlocks ((blocks.drop r.blocksRead).length + 1) =
          ((blocks.drop r.blocksRead).map (fun block => .ok (some block)) ++ [.ok none], r'')) := by
  subst hrest
  obtain ⟨hstart, hplaced₀, hunbroken₀, hid₀⟩ := standing_create hcreate hrecords
  have hstanding := (invariant_standing hdecodes).run hstart calls
  have hplaced := invariant_placed.run hplaced₀ calls
  have hunbroken := unbroken_of_succeed hplaced₀.sound hunbroken₀ hcalls
  have hheader := ((invariant_stream r₀.header r₀.codec).run ⟨rfl, rfl⟩ calls).1
  have hid : (r₀.perform calls).2.header.codecId = c.id := by rw [hheader, hid₀]
  refine ⟨_, rfl, ?_, ?_, fun call count hcall => ?_, ?_⟩
  · rw [← hdecodes.length_eq]
    exact hstanding.count
  · rw [drop_recordStart hrecords]
    exact hstanding.rest hunbroken
  · exact frugal_standing hdecodes hstanding hplaced hcall
  · exact ofParts_standing hdecodes hstanding hunbroken hid

/-- Two bytes and one more. After a read of one byte the source stands at the second record. Another
read of one byte ends with the first block and leaves it there, and a new reader gives the second
block. -/
theorem source_stands_behind_decoded_records_hesitant :
    let stream := (Header.current 0).encode ++
      [Payload.encode 2 [1, 2], Payload.encode 1 [3]].flatMap record
    ∃ r₀ r r' r'', create (hesitant stream) .passthrough = .ok r₀ ∧
      (r₀.perform [.read 1]).2 = r ∧ r.source.rest = record (Payload.encode 1 [3]) ∧
      r.undrained = [2] ∧
      (∀ source, (Call.read 1).perform { r with source } =
        (((Call.read 1).perform r).1, { r with source, position := r.position + 1 })) ∧
      ofParts r.source r.header .passthrough = .ok r' ∧
      r'.nextBlocks 2 = ([.ok (some [3]), .ok none], r'') := by
  intro stream
  have hdecodes : List.Forall₂ Codec.passthrough.Decodes
      [Payload.encode 2 [1, 2], Payload.encode 1 [3]] [[1, 2], [3]] := by
    refine .cons ?_ (.cons ?_ .nil)
    · exact @Codec.decodes_passthrough [1, 2] (by simp) (by decide)
    · exact @Codec.decodes_passthrough [3] (by simp) (by decide)
  have hheads : Codec.passthrough.Heads stream := ⟨by decide, Header.current 0, by decide, rfl⟩
  obtain ⟨r₀, hcreate, hbefore, -⟩ := create_before hheads (steady_hesitant stream) rfl
  have hread : (r₀.read 1).1 = .ok [1] := by
    cases hcreate
    decide +kernel
  have hcalls : r₀.Succeed [.read 1] := by
    refine ⟨fun ⟨failure, hfails⟩ => ?_, trivial⟩
    cases hread.symm.trans hfails
  obtain ⟨r, hr, -, hrest, hfrugal, r', hparts, -, hrun⟩ :=
    source_stands_behind_decoded_records (by decide) hdecodes rfl hcreate hcalls
  have hone : r.blocksRead = 1 := by
    rw [← hr]
    cases hcreate
    decide +kernel
  have hleft : r.undrained = [2] := by
    rw [← hr]
    cases hcreate
    decide +kernel
  have hheld := (hfrugal (.read 1) 1 rfl).held (by rw [hleft]; exact Nat.le_refl 1)
  have hsteady : r.source.Steady := hr ▸ invariant_steady.run hbefore.steady [.read 1]
  obtain ⟨r'', hblocks⟩ := hrun hsteady
  rw [hone] at hrest hblocks
  exact ⟨r₀, r, r', r'', hcreate, hr, hrest, hleft, hheld, hparts, hblocks⟩

end Reader

end FramedStream
