import FramedStream.Proofs.Header
import FramedStream.Proofs.Reader.Call
import FramedStream.Proofs.Reader.Delivery
import Mathlib.Data.List.Forall2

/-!
# Streams that carry blocks

A stream of any codec, bundled or not. Nothing is known of the codec but what it makes of the
payloads of this stream (`Codec.Decodes`), and nothing of the source but that it delivers all of its
bytes.

* `Codec.Heads` is a stream whose header names the codec, `Codec.Carries` one whose records decode
  to some blocks;
* `Before` is a reader at any point between two records, `create_before` one that was just opened;
* `nextBlock_decodes`, `nextBlock_over` and `nextBlock_zeroLength` are ways to go on, and
  `nextBlocks_decodes` is the run over many records.
-/

namespace FramedStream

namespace Codec

/-- A payload that is decoded to a block, however often the codec was called before. The sizes of
both are as the format has them. -/
structure Decodes (c : Codec) (payload block : Bytes) : Prop where
  positive : 1 ≤ payload.length
  bounded : payload.length ≤ c.maxCompressedLength maxBlockSize
  field : payload.length < 2 ^ 32
  nonempty : block ≠ []
  small : block.length ≤ maxBlockSize
  declared : ∀ call, c.declaredLength call payload = .ok block.length
  restored : ∀ call, ∃ more,
    c.decompress call payload block.length = .ok ⟨block.length, block ++ more⟩

/-- A codec decodes the payloads of which it knows the block, if they are of a size that a stream
may have. -/
theorem Implements.decodes {c : Codec} {block? : Bytes → Option Bytes} (h : c.Implements block?)
    {payload block : Bytes} (hpositive : 1 ≤ payload.length)
    (hbounded : payload.length ≤ c.maxCompressedLength maxBlockSize)
    (hfield : payload.length < 2 ^ 32) (hblock : block? payload = some block) :
    c.Decodes payload block := by
  obtain ⟨hne, hmax, hdeclared, hdecompress⟩ := h.accepts _ _ hblock
  exact ⟨hpositive, hbounded, hfield, hne, hmax, hdeclared, hdecompress⟩

/-- Blocks that are kept verbatim. -/
theorem decodes_passthrough {block : Bytes} (hne : block ≠ [])
    (hsmall : block.length ≤ maxBlockSize) :
    passthrough.Decodes (Payload.encode block.length block) block := by
  have hlength := Payload.length_encode block.length block
  have hsize : Payload.rawLengthSize = 4 := rfl
  have hmax : maxBlockSize = 2 ^ 26 := rfl
  have hdecode := Payload.decode_encode "passthrough" block.length block (by omega)
  refine ⟨by omega, ?_, by omega, hne, hsmall, fun call => ?_, fun call => ⟨[], ?_⟩⟩
  · rw [hlength]
    exact Nat.add_le_add_left hsmall _
  · simp only [passthrough, Payload.declaredLength, hdecode]
    rfl
  · simp [passthrough, hdecode, Output.ofBytes]

/-- A stream with a header that a reader takes and that names the codec. -/
structure Heads (c : Codec) (stream : Bytes) : Prop where
  long : headerSize ≤ stream.length
  header : ∃ h, Header.decode (stream.take headerSize) = .ok h ∧ h.codecId = c.id

/-- A stream with such a header and records of which the payloads decode to the blocks. -/
structure Carries (c : Codec) (stream : Bytes) (blocks : List Bytes) : Prop extends
    Heads c stream where
  records : ∃ payloads, List.Forall₂ c.Decodes payloads blocks ∧
    stream.drop headerSize = payloads.flatMap record

end Codec

namespace Reader

/-- A reader of a codec with some bytes before it, which a steady source delivers. -/
structure Before (c : Codec) (bytes : Bytes) (r : Reader) : Prop where
  steady : r.source.Steady
  rest : r.source.rest = bytes
  codec : r.codec = c
  unbroken : r.isBroken = false

variable {c : Codec} {payload block bytes rest : Bytes} {r : Reader}

/-! ### One record -/

theorem unpack_decodes (h : r.codec.Decodes r.payload block) : r.unpack.1 = .ok block :=
  unpack_restored h.nonempty h.small h.declared h.restored

theorem before_unpack (h : Before c bytes r) :
    Before c bytes r.unpack.2 ∧ r.unpack.2.blocksRead = r.blocksRead := by
  rcases r.unpack_snd with heq | ⟨unpacked, heq⟩
  · rw [heq]
    exact ⟨⟨h.steady, h.rest, h.codec, h.unbroken⟩, rfl⟩
  · rw [heq]
    exact ⟨⟨h.steady, h.rest, h.codec, h.unbroken⟩, rfl⟩

theorem Before.inMemory (h : Before c bytes r) : r.inMemory.source = .ofBytes bytes :=
  congrArg Source.ofBytes h.rest

/-- What a reader of the bytes in memory gives, this one gives too. -/
theorem Before.nextBlock (h : Before c bytes r) {result : Except Error (Option Bytes)} {r₁ : Reader}
    (hmemory : r.inMemory.nextBlock = (result, r₁)) (hbefore : Before c rest r₁) :
    ∃ r', r.nextBlock = (result, r') ∧ Before c rest r' ∧ r'.blocksRead = r₁.blocksRead := by
  have hagrees := nextBlock_twin (twin_inMemory h.steady)
  rw [hmemory] at hagrees
  generalize r.nextBlock = outcome at hagrees
  obtain @⟨_, _, r', twin⟩ := hagrees
  obtain ⟨same⟩ := twin
  exact ⟨_, rfl, ⟨same.steady', same.rest.trans hbefore.rest, hbefore.codec, hbefore.unbroken⟩, rfl⟩

/-- A record is taken off the source, and its block is held then. -/
theorem nextBlock_decodes (h : Before c (record payload ++ rest) r)
    (hdecodes : c.Decodes payload block) :
    ∃ r', r.nextBlock = (.ok (some block), r') ∧ Before c rest r' ∧
      r'.blocksRead = r.blocksRead + 1 := by
  have hpositive := hdecodes.positive
  have hbounded : payload.length ≤ r.codec.maxCompressedLength maxBlockSize := by
    rw [h.codec]
    exact hdecodes.bounded
  have htook : Before c rest (r.inMemory.cleared.took payload rest) :=
    ⟨Source.steady_ofBytes _, rfl, h.codec, h.unbroken⟩
  have hunpack : (r.inMemory.cleared.took payload rest).unpack.1 = .ok block := by
    refine unpack_decodes ?_
    rw [payload_took]
    exact h.codec.symm ▸ hdecodes
  obtain ⟨hbefore, hblocks⟩ := before_unpack htook
  have hmemory := nextBlock_took (r := r.inMemory) h.unbroken h.inMemory (by omega) hbounded
    hdecodes.field hunpack
  obtain ⟨r', hnext, hbefore', hblocks'⟩ := h.nextBlock hmemory
    ⟨hbefore.steady, hbefore.rest, hbefore.codec, hbefore.unbroken⟩
  exact ⟨r', hnext, hbefore', hblocks'.trans (congrArg (· + 1) hblocks)⟩

/-- Where nothing is left the stream ends. -/
theorem nextBlock_over (h : Before c [] r) :
    ∃ r', r.nextBlock = (.ok none, r') ∧ Before c [] r' ∧ r'.blocksRead = r.blocksRead := by
  have hlength := fetchLength_ofBytes (r := r.inMemory.cleared) h.inMemory
  obtain ⟨r₁, hmemory, hbefore, hblocks⟩ : ∃ r₁, r.inMemory.nextBlock = (.ok none, r₁) ∧
      Before c [] r₁ ∧ r₁.blocksRead = r.blocksRead := by
    rw [nextBlock_of_unbroken (r := r.inMemory) h.unbroken]
    simp only [fetch, hlength]
    exact ⟨_, rfl, ⟨Source.steady_ofBytes _, rfl, h.codec, h.unbroken⟩, rfl⟩
  obtain ⟨r', hnext, hbefore', hblocks'⟩ := h.nextBlock hmemory hbefore
  exact ⟨r', hnext, hbefore', hblocks'.trans hblocks⟩

/-- A record of no payload is refused, whatever the codec would make of it. -/
theorem nextBlock_zeroLength (h : Before c (record [] ++ rest) r) :
    r.nextBlock.1 = .error (.format (.zeroLength r.blocksRead)) := by
  have hlength := fetchLength_ofBytes (r := r.inMemory.cleared) h.inMemory
  have hmemory : r.inMemory.nextBlock.1 = .error (.format (.zeroLength r.blocksRead)) := by
    rw [nextBlock_of_unbroken (r := r.inMemory) h.unbroken]
    simp only [fetch, hlength]
    rfl
  have hagrees := nextBlock_twin (twin_inMemory h.steady)
  generalize r.nextBlock = outcome at hagrees
  generalize r.inMemory.nextBlock = outcome' at hagrees hmemory
  cases hagrees
  exact hmemory

/-! ### Many records -/

/-- The blocks come out one after the other, and then the reader is before the rest. -/
theorem nextBlocks_decodes {payloads blocks : List Bytes}
    (hdecodes : List.Forall₂ c.Decodes payloads blocks)
    (h : Before c (payloads.flatMap record ++ rest) r) :
    ∃ r', Before c rest r' ∧ r'.blocksRead = r.blocksRead + blocks.length ∧
      ∀ count, r.nextBlocks (blocks.length + count) =
        (blocks.map (fun block => .ok (some block)) ++ (r'.nextBlocks count).1,
          (r'.nextBlocks count).2) := by
  -- each record is one call
  induction hdecodes generalizing r with
  | nil => exact ⟨r, h, rfl, fun count => by simp⟩
  | @cons payload block payloads blocks hblock _ ih =>
    rw [List.flatMap_cons, List.append_assoc] at h
    obtain ⟨r₁, hnext, h₁, hblocks₁⟩ := nextBlock_decodes h hblock
    obtain ⟨r', hbefore, hblocks, hrun⟩ := ih h₁
    refine ⟨r', hbefore, ?_, fun count => ?_⟩
    · rw [hblocks, hblocks₁, List.length_cons]
      omega
    · rw [List.length_cons, Nat.add_right_comm, nextBlocks_succ, hnext, hrun]
      rfl

/-! ### Opening -/

/-- A stream is opened for the codec that its header names, and then what follows the header is
before the reader. -/
theorem create_before {stream : Bytes} (hheads : c.Heads stream) {source : Source}
    (hsteady : source.Steady) (hrest : source.rest = stream) :
    ∃ r, create source c = .ok r ∧ Before c (stream.drop headerSize) r ∧ r.blocksRead = 0 ∧
      r.block = [] ∧ r.position = 0 := by
  obtain ⟨hlong, header, hdecode, hid⟩ := hheads
  obtain ⟨hbytes, hstop, hsteady', hrest'⟩ := hsteady.fill headerSize
  rw [hrest] at hbytes hstop hrest'
  rw [if_pos hlong] at hstop
  have hread : Header.readFrom source = (.ok header, (source.fill headerSize).source) := by
    simp only [Header.readFrom, hstop, hbytes, hdecode]
    rfl
  simp only [create, hread, ofParts, hid, ne_eq, not_true_eq_false, if_false]
  exact ⟨_, rfl, ⟨hsteady', hrest', rfl, rfl⟩, rfl, rfl, rfl⟩

end Reader

end FramedStream
