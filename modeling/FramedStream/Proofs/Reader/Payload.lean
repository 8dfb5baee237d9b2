import FramedStream.Proofs.Header
import FramedStream.Proofs.Reader.Standing

/-!
# The payload of the last block

A reader shows the payload of the block that it has decoded last. The buffer behind it is also where
the payload of the next block is put before anybody knows whether there is a block in it, so it
shows that payload only until the next one is asked for. What it shows after a failure depends on
how far the reader got, and on what the source does with a buffer that it cannot fill.

* `Codec.Gives` is how a block comes out of a payload (`gives_nextBlock`);
* `Leaves` says what the next block leaves in the buffer: its payload, what was there before, or,
  once a length was accepted and no block came of it, `overwritten`;
* `Remembers` ties the buffer to the records that a session has decoded. Every call keeps it
  (`invariant_remembers`), and `payload_of_last_block` is what it comes to;
* `failure_overwrites_payload` is a failure after which the payload is none of a decoded block.
-/

namespace FramedStream

/-- How a block comes out of a payload, in calls of the codec that are told by their numbers. The
codec declares its size, which is not zero and not too large, and reports that it has made as many
bytes. -/
structure Codec.Gives (c : Codec) (lengthCall call : Nat) (payload block : Bytes) : Prop where
  declared : c.declaredLength lengthCall payload = .ok block.length
  positive : 1 ≤ block.length
  bounded : block.length ≤ maxBlockSize
  produced : ∃ output, c.decompress call payload block.length = .ok output ∧
    output.reported = block.length

namespace Reader

variable {r r' : Reader} {e : Error} {block : Bytes}

/-! ### The next block -/

theorem gives_unpack (h : r.unpack.1 = .ok block) :
    r.codec.Gives r.lengthCalls r.decompressCalls r.payload block := by
  revert h
  unfold unpack
  split
  · exact nofun
  next size hdeclared =>
  split
  · exact nofun
  next hsize =>
  split
  · exact nofun
  next output houtput =>
  simp only
  split
  · exact nofun
  next hreported =>
  intro h
  cases h
  have hlength := output.length_take_into r.unpacked (Nat.le_max_left size r.unpacked.size)
    (Nat.le_max_left size r.unpacked.size)
  constructor
  · rw [hlength]
    exact hdeclared
  · rw [hlength]
    omega
  · rw [hlength]
    omega
  · rw [hlength]
    exact ⟨output, houtput, by simpa using hreported⟩

/-- A reader asks its codec only about payloads, and only once it has taken one. -/
structure Asks (r r' : Reader) : Prop where
  codec : r'.codec = r.codec
  lengthCalls : r'.lengthCalls = r.lengthCalls
  decompressCalls : r'.decompressCalls = r.decompressCalls

theorem asks_loaded (r : Reader) (size : Nat) : Asks r (r.loaded size) := by
  unfold loaded fetchPayload
  split
  · exact ⟨rfl, rfl, rfl⟩
  split
  · exact ⟨rfl, rfl, rfl⟩
  · exact ⟨rfl, rfl, rfl⟩

/-- A block that is given is one of the payload that is held then. -/
theorem gives_nextBlock (h : r.nextBlock = (.ok (some block), r')) :
    r.codec.Gives r.lengthCalls r.decompressCalls r'.payload block := by
  have hsteps := nextSteps r
  rw [h] at hsteps
  cases hsteps with
  | got _ fetch =>
    have hsteps := fetchSteps r.cleared
    rw [fetch] at hsteps
    cases hsteps with
    | @got size _ _ _ unpack =>
      have hgives := gives_unpack unpack
      obtain ⟨hcodec, hlength, hdecompress⟩ := asks_loaded r.cleared size
      have hheld : (r.cleared.loaded size).unpack.2.payload = (r.cleared.loaded size).payload :=
        congrArg Buffer.toList (buffer_unpack _)
      rw [hcodec, hlength, hdecompress, ← hheld] at hgives
      exact hgives

/-- A buffer that held some bytes and was resized, after others were put at its front. -/
def overwritten (old : Bytes) (size : Nat) (front : Bytes) : Bytes :=
  front ++ ((old ++ List.replicate size 0).take size).drop front.length

/-- What the next block leaves in the payload buffer, with what the source has lost to it: a record
for a block, no length that could be accepted where the buffer is as before, and otherwise a length
and what has arrived behind it. The source says what it has put into the buffer then, which is the
payload if all of it has arrived. -/
inductive Leaves (r : Reader) : Except Error (Option Bytes) × Reader → Prop
  | decoded {block : Bytes} {r' : Reader} (field : r'.payload.length < 2 ^ 32)
      (lost : r.source.rest = record r'.payload ++ r'.source.rest)
      (count : r'.blocksRead = r.blocksRead + 1) (unbroken : r.isBroken = false)
      (still : r'.isBroken = false)
      (gives : r.codec.Gives r.lengthCalls r.decompressCalls r'.payload block) :
      Leaves r (.ok (some block), r')
  | ended {r' : Reader} (lost : r'.source.rest = r.source.rest)
      (count : r'.blocksRead = r.blocksRead) (unbroken : r.isBroken = false)
      (still : r'.isBroken = false) (held : r'.payload = r.payload) : Leaves r (.ok none, r')
  | kept {e : Error} {r' : Reader} {field : Bytes} (lost : r.source.rest = field ++ r'.source.rest)
      (early : field.length < blockLengthSize ∨ ∃ size,
        field = Bytes.ofNatBE blockLengthSize size ∧ (size = 0 ∨ r.maxPayload < size))
      (count : r'.blocksRead = r.blocksRead) (broken : r'.isBroken = true)
      (held : r'.payload = r.payload) : Leaves r (.error e, r')
  | spoilt {e : Error} {r' : Reader} {size : Nat} {arrived : Bytes}
      (lost : r.source.rest =
        Bytes.ofNatBE blockLengthSize size ++ (arrived ++ r'.source.rest))
      (positive : 1 ≤ size) (bounded : size ≤ r.maxPayload) (part : arrived.length ≤ size)
      (count : r'.blocksRead = r.blocksRead) (unbroken : r.isBroken = false)
      (broken : r'.isBroken = true)
      (held : r'.payload = overwritten r.payload size (r.source.front size arrived)) :
      Leaves r (.error e, r')

/-- A length that does not come has cost less than a length. -/
theorem fetchLength_lost (h : ∀ size, r.fetchLength.1 ≠ .ok (some size)) :
    ∃ field, field.length < blockLengthSize ∧
      r.source.rest = field ++ r.fetchLength.2.source.rest := by
  refine ⟨_, ?_, (r.source.fill_split blockLengthSize).symm⟩
  have hstops := r.source.stops_fill blockLengthSize
  simp only [fetchLength] at h
  generalize r.source.fill blockLengthSize = filled at hstops h
  cases hstops with
  | full => exact absurd rfl (h _)
  | ended length => exact length
  | failed length => exact length

/-- How a payload is taken, whether or not all of it arrives: not at all, or onto what the buffer
held. -/
theorem fetchPayload_buffer (r : Reader) (size : Nat) :
    ((size = 0 ∨ r.maxPayload < size) ∧ (r.fetchPayload size).2 = r) ∨
    1 ≤ size ∧ size ≤ r.maxPayload ∧ ∃ arrived, arrived.length ≤ size ∧
      r.source.rest = arrived ++ (r.fetchPayload size).2.source.rest ∧
      (r.fetchPayload size).2.payload =
        overwritten r.payload size (r.source.front size arrived) := by
  unfold fetchPayload
  by_cases hzero : size = 0
  · rw [if_pos hzero]
    exact .inl ⟨.inl hzero, rfl⟩
  rw [if_neg hzero]
  by_cases hlong : r.maxPayload < size
  · rw [if_pos hlong]
    exact .inl ⟨.inr hlong, rfl⟩
  rw [if_neg hlong]
  have hpart := r.source.length_fill_le size
  refine .inr ⟨by omega, by omega, _, hpart, (r.source.fill_split size).symm, ?_⟩
  exact r.buffer.toList_refill (r.source.length_front_le size _)

/-- A failure behind a length leaves what the taking of the payload has left. -/
theorem leaves_behind_length {size : Nat} (unbroken : r.isBroken = false)
    (length : r.cleared.fetchLength.1 = .ok (some size))
    (lost : r'.source.rest = (r.cleared.loaded size).source.rest)
    (held : r'.payload = (r.cleared.loaded size).payload) (count : r'.blocksRead = r.blocksRead)
    (broken : r'.isBroken = true) : Leaves r (.error e, r') := by
  obtain ⟨-, hlength⟩ := rest_fetchLength_some length
  rcases fetchPayload_buffer r.cleared.fetchLength.2 size with
    ⟨hrefused, hsame⟩ | ⟨hpositive, hbounded, arrived, hpart, htaken, hheld⟩
  · rw [loaded, hsame] at lost held
    rw [← lost] at hlength
    exact .kept hlength (.inr ⟨size, rfl, hrefused⟩) count broken held
  · have hfront : r.cleared.fetchLength.2.source.front = r.source.front := r.source.front_fill _
    rw [htaken] at hlength
    rw [loaded] at lost held
    rw [← lost] at hlength
    rw [hfront] at hheld
    exact .spoilt hlength hpositive hbounded hpart count unbroken broken (held.trans hheld)

theorem leaves_failed (unbroken : r.isBroken = false) (fetch : r.cleared.fetch = (.error e, r')) :
    Leaves r (.error e, { r' with isBroken := true }) := by
  have hcount : r'.blocksRead = r.blocksRead := by
    have hcount := blocksRead_fetch r.cleared
    rwa [fetch] at hcount
  have hsteps := fetchSteps r.cleared
  rw [fetch] at hsteps
  cases hsteps with
  | noLength length =>
    obtain ⟨field, hshort, hlost⟩ := fetchLength_lost (r := r.cleared) fun size h => by
      rw [length] at h
      cases h
    exact .kept hlost (.inl hshort) hcount rfl rfl
  | noPayload length => exact leaves_behind_length unbroken length rfl rfl hcount rfl
  | @noBlock size _ length =>
    have hlost : (r.cleared.loaded size).unpack.2.source.rest =
        (r.cleared.loaded size).source.rest := by rw [source_unpack]
    have hheld : (r.cleared.loaded size).unpack.2.payload = (r.cleared.loaded size).payload :=
      congrArg Buffer.toList (buffer_unpack _)
    exact leaves_behind_length unbroken length hlost hheld hcount rfl

theorem payload_of_ended (fetch : r.cleared.fetch = (.ok none, r')) : r'.payload = r.payload := by
  have hsteps := fetchSteps r.cleared
  rw [fetch] at hsteps
  cases hsteps with
  | ended => rfl

theorem leaves_nextBlock (r : Reader) : Leaves r r.nextBlock := by
  have hcount := blocksRead_nextBlock r
  have hnexts := nexts r
  have hsteps := nextSteps r
  generalize hnext : r.nextBlock = outcome at hcount hnexts hsteps
  cases hsteps with
  | refused broken => exact .kept (List.nil_append _).symm (.inl (by decide)) rfl broken rfl
  | failed unbroken fetch => exact leaves_failed unbroken fetch
  | ended unbroken fetch =>
    cases hnexts with
    | ended _ _ _ still =>
      exact .ended (rest_nextBlock_none hnext) hcount unbroken still (payload_of_ended fetch)
  | got unbroken =>
    have htook := tookRecord_nextBlock hnext
    cases hnexts with
    | got _ _ _ still =>
      exact .decoded htook.field htook.rest hcount unbroken still (gives_nextBlock hnext)

/-! ### Sessions -/

/-- Where a reader of a source stands that has decoded some payloads, and what it shows. The records
of these are off the source. Unless it is broken there is nothing more off it, and the last of the
payloads is shown. A failure leaves that as it is where no length was accepted, and otherwise what
the source has put into the buffer instead. -/
inductive Remembers (source : Source) (payloads : List Bytes) (r : Reader) : Prop
  | whole (lost : source.rest = payloads.flatMap record ++ r.source.rest)
      (unbroken : r.isBroken = false) (held : r.payload = payloads.getLastD [])
  | kept {field : Bytes}
      (lost : source.rest = payloads.flatMap record ++ (field ++ r.source.rest))
      (early : field.length < blockLengthSize ∨ ∃ size,
        field = Bytes.ofNatBE blockLengthSize size ∧ (size = 0 ∨ r.maxPayload < size))
      (broken : r.isBroken = true) (held : r.payload = payloads.getLastD [])
  | spoilt {size : Nat} {arrived : Bytes}
      (lost : source.rest = payloads.flatMap record ++
        (Bytes.ofNatBE blockLengthSize size ++ (arrived ++ r.source.rest)))
      (positive : 1 ≤ size) (bounded : size ≤ r.maxPayload) (part : arrived.length ≤ size)
      (broken : r.isBroken = true)
      (held : r.payload = overwritten (payloads.getLastD []) size (source.front size arrived))

/-- Payloads that a codec gives blocks for, each as long as a length field can say. -/
def AllGive (c : Codec) (payloads : List Bytes) : Prop :=
  ∀ payload ∈ payloads, payload.length < 2 ^ 32 ∧
    ∃ lengthCall call block, c.Gives lengthCall call payload block

variable {c : Codec} {source : Source} {payloads : List Bytes}

/-- A broken reader asks for nothing any more. -/
theorem nextBlock_of_broken (h : r.isBroken = true) : r.nextBlock = (.error .broken, r) := by
  rw [nextBlock, if_pos h]

theorem remembers_nextBlock (hcodec : r.codec = c) (hfront : r.source.front = source.front)
    (hgive : AllGive c payloads) (hcount : r.blocksRead = payloads.length)
    (h : Remembers source payloads r) :
    ∃ payloads', AllGive c payloads' ∧ r.nextBlock.2.blocksRead = payloads'.length ∧
      Remembers source payloads' r.nextBlock.2 := by
  cases h with
  | kept lost early broken held =>
    rw [nextBlock_of_broken broken]
    exact ⟨payloads, hgive, hcount, .kept lost early broken held⟩
  | spoilt lost positive bounded part broken held =>
    rw [nextBlock_of_broken broken]
    exact ⟨payloads, hgive, hcount, .spoilt lost positive bounded part broken held⟩
  | whole lost unbroken held =>
    have hleaves := leaves_nextBlock r
    have hlimit : r.nextBlock.2.maxPayload = r.maxPayload := by
      rw [maxPayload, maxPayload, (stream_nextBlock r).2]
    generalize r.nextBlock = outcome at hleaves hlimit
    cases hleaves with
    | @decoded block r' field taken more _ still gives =>
      rw [hcodec] at gives
      refine ⟨payloads ++ [r'.payload], ?_, ?_, .whole ?_ still ?_⟩
      · intro payload hmem
        rcases List.mem_append.1 hmem with hbefore | hlast
        · exact hgive payload hbefore
        · rw [List.mem_singleton.1 hlast]
          exact ⟨field, _, _, block, gives⟩
      · rw [more, hcount, List.length_append, List.length_singleton]
      · rw [lost, taken, List.flatMap_append, List.flatMap_singleton, List.append_assoc]
      · rw [List.getLastD_concat]
    | ended taken same _ still shown =>
      rw [← taken] at lost
      exact ⟨payloads, hgive, same.trans hcount, .whole lost still (shown.trans held)⟩
    | kept taken early same broken shown =>
      rw [taken] at lost
      rw [← hlimit] at early
      exact ⟨payloads, hgive, same.trans hcount, .kept lost early broken (shown.trans held)⟩
    | spoilt taken positive bounded part same _ broken shown =>
      rw [taken] at lost
      rw [← hlimit] at bounded
      rw [held, hfront] at shown
      exact ⟨payloads, hgive, same.trans hcount, .spoilt lost positive bounded part broken shown⟩

/-- Every call leaves the buffer with what was decoded last, or has failed. -/
theorem invariant_remembers (c : Codec) (source : Source) :
    Invariant fun r => r.codec = c ∧ r.source.front = source.front ∧ ∃ payloads,
      AllGive c payloads ∧ r.blocksRead = payloads.length ∧ Remembers source payloads r where
  nextBlock := by
    rintro r ⟨hcodec, hfront, payloads, hgive, hcount, h⟩
    refine ⟨(stream_nextBlock r).2.trans hcodec, ?_,
      remembers_nextBlock hcodec hfront hgive hcount h⟩
    exact source_nextBlock_of_fill (Q := fun s => s.front = source.front)
      (fun count h => (Source.front_fill _ count).trans h) hfront
  moved := by
    rintro r position ⟨hcodec, hfront, payloads, hgive, hcount, h⟩ -
    refine ⟨hcodec, hfront, payloads, hgive, hcount, ?_⟩
    cases h with
    | whole lost unbroken held => exact .whole lost unbroken held
    | kept lost early broken held => exact .kept lost early broken held
    | spoilt lost positive bounded part broken held =>
      exact .spoilt lost positive bounded part broken held

theorem remembers_ofParts {header : Header} (h : ofParts source header c = .ok r) :
    r.codec = c ∧ r.source.front = source.front ∧ r.blocksRead = 0 ∧ Remembers source [] r := by
  unfold ofParts at h
  split at h
  · cases h
  · cases h
    exact ⟨rfl, rfl, rfl, .whole rfl rfl rfl⟩

/-- Over any source and with any codec, whatever was asked of a reader: it counts the payloads that
it has decoded, whose records are the front of what the source held, and shows the last of them, or
nothing, as long as it is not broken. What the next block changes is told by `Leaves`: the count and
the payload go on together where there is a block, nothing changes at an end, and a failure leaves
the count as it is and the payload too unless a length was accepted. After that the payload shown is
another one on top of it if that has arrived as a whole, and else what the source has made of the
buffer. -/
theorem payload_of_last_block {source : Source} {header : Header} {codec : Codec} {start : Reader}
    (hopen : ofParts source header codec = .ok start) (calls : List Call) :
    ∃ r payloads, (start.perform calls).2 = r ∧ AllGive codec payloads ∧
      r.blocksRead = payloads.length ∧ Remembers source payloads r ∧
      (r.isBroken = false → r.payload = payloads.getLastD []) ∧
      Leaves r r.nextBlock := by
  obtain ⟨hcodec, hfront, hcount, hstart⟩ := remembers_ofParts hopen
  obtain ⟨-, -, payloads, hgive, hcount, h⟩ := (invariant_remembers codec source).run
    ⟨hcodec, hfront, [], List.forall_mem_nil _, hcount, hstart⟩ calls
  refine ⟨_, payloads, rfl, hgive, hcount, h, fun hunbroken => ?_, leaves_nextBlock _⟩
  cases h with
  | whole _ _ held => exact held
  | kept _ _ broken =>
    rw [hunbroken] at broken
    cases broken
  | spoilt _ _ _ _ broken =>
    rw [hunbroken] at broken
    cases broken

/-- Three bytes in a block, and a second payload of which two of six bytes are there. Memory puts
nothing into the buffer then, so the first payload is shown, cut to six bytes. A source that is read
a piece at a time would have left the two bytes on top of it. -/
theorem payload_of_last_block_torn :
    let stream := record (Payload.encode 3 [1, 2, 3]) ++ [0, 0, 0, 6, 9, 9]
    ∃ start r payloads,
      ofParts (.ofBytes stream) (.current 0) .passthrough = .ok start ∧
      (start.perform [.read 2, .nextBlock]).2 = r ∧ AllGive .passthrough payloads ∧
      r.blocksRead = payloads.length ∧ Remembers (.ofBytes stream) payloads r ∧
      r.blocksRead = 1 ∧ r.isBroken = true ∧ r.payload = [3, 0, 0, 0, 1, 2] ∧
      overwritten (Payload.encode 3 [1, 2, 3]) 6 ((Source.ofBytes stream).front 6 [9, 9]) =
        [3, 0, 0, 0, 1, 2] ∧
      overwritten (Payload.encode 3 [1, 2, 3]) 6 (Source.front { rest := stream } 6 [9, 9]) =
        [9, 9, 0, 0, 1, 2] := by
  intro stream
  obtain ⟨start, hopen⟩ : ∃ start,
      ofParts (.ofBytes stream) (.current 0) .passthrough = .ok start := ⟨_, rfl⟩
  obtain ⟨r, payloads, hr, hgive, hcount, h, -⟩ :=
    payload_of_last_block hopen [.read 2, .nextBlock]
  refine ⟨start, r, payloads, hopen, hr, hgive, hcount, h, ?_, ?_, ?_, by decide, by decide⟩
  · rw [← hr]
    cases hopen
    decide +kernel
  · rw [← hr]
    cases hopen
    decide +kernel
  · rw [← hr]
    cases hopen
    decide +kernel

/-- A block of three bytes, and behind it a record that declares none. The failure leaves the count
at one, and still the payload shown is no longer that of the block but the one that was refused. -/
theorem failure_overwrites_payload :
    ∃ r r₁ r₂ e, create (.ofBytes ((Header.current 0).encode ++
        (record (Payload.encode 3 [1, 2, 3]) ++ record [0, 0, 0, 0]))) .passthrough = .ok r ∧
      r.nextBlock = (.ok (some [1, 2, 3]), r₁) ∧ r₁.payload = Payload.encode 3 [1, 2, 3] ∧
      r₁.nextBlock = (.error e, r₂) ∧ r₂.blocksRead = 1 ∧ r₁.blocksRead = 1 ∧
      r₂.payload = [0, 0, 0, 0] ∧ r₂.payload ≠ r₁.payload := by
  refine ⟨_, _, _, .format (.declaredSize 1 0), rfl, rfl, ?_, rfl, ?_, ?_, ?_, ?_⟩
  all_goals decide +kernel

end Reader

end FramedStream
