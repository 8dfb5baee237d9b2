import FramedStream.Proofs.Codec.Decoding
import FramedStream.Proofs.Reader.Grammar

/-!
# Reading block by block

A reader of bytes in memory, at any point between two records. What the next call of `nextBlock`
gives depends on these bytes alone and not on what the reader's buffers hold.

* `Ready` is a reader that has a codec and some bytes before it;
* `nextBlock_record`, `nextBlock_end` and `nextBlock_stuck` are the three ways to go on;
* `nextBlocks_parses`: the blocks of all records that can be parsed come out one after the other,
  then the end or the damage.
-/

namespace FramedStream

namespace Reader

/-- A reader with `bytes` before it, whose codec knows the block of a payload by `block?`. -/
structure Ready (limit : Nat) (block? : Bytes → Option Bytes) (r : Reader) (bytes : Bytes) :
    Prop where
  source : r.source = .ofBytes bytes
  implements : r.codec.Implements block?
  limit : r.maxPayload = limit
  unbroken : r.isBroken = false

variable {limit : Nat} {block? : Bytes → Option Bytes} {r : Reader} {bytes payload rest : Bytes}

/-! ### Payloads -/

/-- A payload is unpacked to the block that its codec restores, whatever the room for raw blocks
held before. -/
theorem unpack_restored {block : Bytes} (hne : block ≠ []) (hmax : block.length ≤ maxBlockSize)
    (hdeclared : ∀ call, r.codec.declaredLength call r.payload = .ok block.length)
    (hdecompress : ∀ call, ∃ more,
      r.codec.decompress call r.payload block.length = .ok ⟨block.length, block ++ more⟩) :
    r.unpack.1 = .ok block := by
  obtain ⟨more, houtput⟩ := hdecompress r.decompressCalls
  have hpos := List.length_pos_iff.2 hne
  have hsize : ¬(block.length = 0 ∨ maxBlockSize < block.length) := by omega
  have htake := Output.take_into r.unpacked more (Nat.le_refl block.length)
    (Nat.le_max_left block.length r.unpacked.size)
  simp only [unpack, hdeclared, if_neg hsize, houtput, ne_eq, not_true_eq_false, if_false]
  rw [htake]

theorem unpack_some (h : r.codec.Implements block?) {block : Bytes}
    (hblock : block? r.payload = some block) : r.unpack.1 = .ok block := by
  obtain ⟨hne, hmax, hdeclared, hdecompress⟩ := h.accepts _ _ hblock
  exact unpack_restored hne hmax hdeclared hdecompress

theorem unpack_none (h : r.codec.Implements block?) (hblock : block? r.payload = none) :
    ∃ damage, r.unpack.1 = .error (.format damage) := by
  rcases h.refuses _ hblock r.lengthCalls r.decompressCalls with ⟨damage, hdeclared⟩ |
    ⟨size, hdeclared, hrefused⟩
  · exact ⟨damage, by simp only [unpack, hdeclared]⟩
  by_cases hsize : size = 0 ∨ maxBlockSize < size
  · exact ⟨_, by simp only [unpack, hdeclared, if_pos hsize]; rfl⟩
  rcases hrefused with hbad | ⟨damage, hdecompress⟩ | ⟨output, hdecompress, hreported⟩
  · exact absurd hbad hsize
  · exact ⟨damage, by simp only [unpack, hdeclared, if_neg hsize, hdecompress]⟩
  · exact ⟨_, by simp only [unpack, hdeclared, if_neg hsize, hdecompress, if_pos hreported]; rfl⟩

/-! ### Records -/

theorem fetchLength_ofBytes (h : r.source = .ofBytes bytes) :
    r.fetchLength =
      (if 4 ≤ bytes.length then .ok (some (Bytes.toNatBE (bytes.take 4)))
        else if bytes = [] then .ok none
        else .error (.format (.tornLength bytes.length)),
        { r with source := .ofBytes (bytes.drop 4) }) := by
  simp only [fetchLength, h, Source.fill_ofBytes, blockLengthSize, Prod.mk.injEq, and_true]
  by_cases hlong : 4 ≤ bytes.length
  · simp only [if_pos hlong]
  · have htake : bytes.take 4 = bytes := List.take_of_length_le (by omega)
    simp only [if_neg hlong, htake, List.isEmpty_iff]

theorem fetchPayload_long {length : Nat} (hpos : length ≠ 0) (hlimit : r.maxPayload < length) :
    r.fetchPayload length =
      (.error (.format (.longPayload r.blocksRead length r.maxPayload)), r) := by
  rw [fetchPayload, if_neg hpos, if_pos hlimit]

theorem fetchPayload_ofBytes (h : r.source = .ofBytes bytes) {length : Nat} (hpos : length ≠ 0)
    (hlimit : length ≤ r.maxPayload) :
    r.fetchPayload length =
      (if length ≤ bytes.length then .ok ()
        else .error (.format (.tornPayload r.blocksRead length)),
        { r with source := .ofBytes (bytes.drop length)
                 buffer := r.buffer.refill length
                   (if length ≤ bytes.length then bytes.take length else []) }) := by
  simp only [fetchPayload, if_neg hpos, if_neg (Nat.not_lt.2 hlimit), h, Source.fill_ofBytes,
    Source.front_ofBytes]
  by_cases hlong : length ≤ bytes.length
  · simp only [if_pos hlong]
  · simp only [if_neg hlong]

/-- The reader after it took a whole record. -/
def took (r : Reader) (payload rest : Bytes) : Reader :=
  { r with source := .ofBytes rest, buffer := r.buffer.refill payload.length payload }

@[simp] theorem payload_took (r : Reader) (payload rest : Bytes) :
    (r.took payload rest).payload = payload :=
  Buffer.toList_refill_full _ rfl

/-- A record is taken off the source before its payload is looked at. -/
theorem fetch_took (h : r.source = .ofBytes (record payload ++ rest)) (hne : payload.length ≠ 0)
    (hlimit : payload.length ≤ r.maxPayload) (hlt : payload.length < 2 ^ 32) :
    r.fetch =
      match (r.took payload rest).unpack with
      | (.error e, r) => (.error e, r)
      | (.ok block, r) => (.ok (some block), { r with blocksRead := r.blocksRead + 1, block }) := by
  have hfield : (Bytes.ofNatBE 4 payload.length).length = 4 := Bytes.length_ofNatBE _ _
  have hlong : 4 ≤ (record payload ++ rest).length := by
    rw [List.length_append, length_record, blockLengthSize]
    omega
  have hrecord : record payload ++ rest = Bytes.ofNatBE 4 payload.length ++ (payload ++ rest) := by
    rw [record, List.append_assoc]
    rfl
  have hlength : Bytes.toNatBE ((record payload ++ rest).take 4) = payload.length := by
    rw [hrecord, List.take_left' hfield, Bytes.toNatBE_ofNatBE]
    exact Nat.mod_eq_of_lt hlt
  have hdrop : (record payload ++ rest).drop 4 = payload ++ rest := by
    rw [hrecord, List.drop_left' hfield]
  simp only [fetch, fetchLength_ofBytes h, if_pos hlong, hlength, hdrop]
  rw [fetchPayload_ofBytes (r := { r with source := .ofBytes (payload ++ rest) }) rfl hne hlimit]
  have hwhole : payload.length ≤ (payload ++ rest).length := by
    rw [List.length_append]
    omega
  rw [if_pos hwhole, if_pos hwhole, List.take_left, List.drop_left]
  rfl

theorem ready_unpack (h : Ready limit block? r bytes) :
    Ready limit block? r.unpack.2 bytes ∧ r.unpack.2.blocksRead = r.blocksRead := by
  rcases r.unpack_snd with heq | ⟨unpacked, heq⟩
  · rw [heq]
    exact ⟨⟨h.source, h.implements, h.limit, h.unbroken⟩, rfl⟩
  · rw [heq]
    exact ⟨⟨h.source, h.implements, h.limit, h.unbroken⟩, rfl⟩

theorem ready_took (h : Ready limit block? r bytes) (payload rest : Bytes) :
    Ready limit block? (r.took payload rest) rest :=
  ⟨rfl, h.implements, h.limit, h.unbroken⟩

/-- A whole record is damage if the codec knows no block for its payload. -/
theorem fetch_refused (h : Ready limit block? r (record payload ++ rest))
    (hne : payload.length ≠ 0) (hlimit : payload.length ≤ limit) (hfield : limit < 2 ^ 32)
    (hnone : block? payload = none) : ∃ damage, r.fetch.1 = .error (.format damage) := by
  have hready := ready_took h payload rest
  obtain ⟨damage, hunpack⟩ := unpack_none hready.implements (by rw [payload_took]; exact hnone)
  refine ⟨damage, ?_⟩
  rw [fetch_took h.source hne (by rw [h.limit]; exact hlimit) (by omega)]
  generalize (r.took payload rest).unpack = outcome at hunpack
  obtain ⟨result, r'⟩ := outcome
  cases hunpack
  rfl

/-- Bytes from which no record can be parsed are damage, unless there are none. -/
theorem fetch_stuck (h : Ready limit block? r bytes) (hfield : limit < 2 ^ 32) (hne : bytes ≠ [])
    (hstuck : Stuck limit block? bytes) : ∃ damage, r.fetch.1 = .error (.format damage) := by
  by_cases hlong : 4 ≤ bytes.length
  case neg =>
    refine ⟨.tornLength bytes.length, ?_⟩
    simp only [fetch, fetchLength_ofBytes h.source, if_neg hlong, if_neg hne]
  obtain ⟨length, hlength⟩ : ∃ length, length = Bytes.toNatBE (bytes.take 4) := ⟨_, rfl⟩
  have hfetch : r.fetchLength =
      (.ok (some length), { r with source := .ofBytes (bytes.drop 4) }) := by
    rw [fetchLength_ofBytes h.source, if_pos hlong, hlength]
  by_cases hzero : length = 0
  · refine ⟨.zeroLength r.blocksRead, ?_⟩
    simp only [fetch, hfetch, fetchPayload, if_pos hzero]
  by_cases hlimit : r.maxPayload < length
  · refine ⟨.longPayload r.blocksRead length r.maxPayload, ?_⟩
    simp only [fetch, hfetch]
    rw [fetchPayload_long (r := { r with source := .ofBytes (bytes.drop 4) }) hzero hlimit]
    rfl
  have hlimit := Nat.not_lt.1 hlimit
  by_cases htorn : length ≤ (bytes.drop 4).length
  case neg =>
    refine ⟨.tornPayload r.blocksRead length, ?_⟩
    simp only [fetch, hfetch]
    rw [fetchPayload_ofBytes (r := { r with source := .ofBytes (bytes.drop 4) }) rfl hzero hlimit,
      if_neg htorn]
  -- a whole record, so it is the codec that refuses the payload
  have hrecord := eq_record_append hlong hlength htorn
  have hpayload : ((bytes.drop 4).take length).length = length := by
    rw [List.length_take, Nat.min_eq_left htorn]
  generalize (bytes.drop 4).take length = payload at hrecord hpayload
  generalize (bytes.drop 4).drop length = rest at hrecord
  subst hrecord
  rw [h.limit, ← hpayload] at hlimit
  rw [← hpayload] at hzero
  exact fetch_refused h hzero hlimit hfield
    (hstuck.block?_eq_none (Nat.pos_of_ne_zero hzero) hlimit)

/-! ### Blocks -/

theorem ready_cleared (h : Ready limit block? r bytes) : Ready limit block? r.cleared bytes :=
  ⟨h.source, h.implements, h.limit, h.unbroken⟩

theorem nextBlock_of_unbroken (h : r.isBroken = false) :
    r.nextBlock =
      match r.cleared.fetch with
      | (.error e, r) => (.error e, { r with isBroken := true })
      | (result, r) => (result, r) := by
  rw [nextBlock, h]
  rfl

/-- A record gives the block that its payload is unpacked to. -/
theorem nextBlock_took (hunbroken : r.isBroken = false)
    (h : r.source = .ofBytes (record payload ++ rest)) (hne : payload.length ≠ 0)
    (hlimit : payload.length ≤ r.maxPayload) (hlt : payload.length < 2 ^ 32) {block : Bytes}
    (hunpack : (r.cleared.took payload rest).unpack.1 = .ok block) :
    r.nextBlock = (.ok (some block),
      let r' := (r.cleared.took payload rest).unpack.2
      { r' with blocksRead := r'.blocksRead + 1, block }) := by
  have hfetch := fetch_took (r := r.cleared) h hne hlimit hlt
  generalize (r.cleared.took payload rest).unpack = outcome at hunpack hfetch ⊢
  obtain ⟨result, r'⟩ := outcome
  cases hunpack
  rw [nextBlock_of_unbroken hunbroken, hfetch]

/-- A record that can be parsed gives its block. -/
theorem nextBlock_record (h : Ready limit block? r (record payload ++ rest))
    (hfield : limit < 2 ^ 32) (hadmits : Admits limit block? payload) :
    ∃ r', r.nextBlock = (.ok (block? payload), r') ∧ Ready limit block? r' rest ∧
      r'.blocksRead = r.blocksRead + 1 := by
  -- the length checks never fire on an admitted payload
  obtain ⟨block, hblock⟩ := Option.isSome_iff_exists.1 hadmits.decodes
  have hpositive := hadmits.positive
  have hbounded := hadmits.bounded
  have htook := ready_took (ready_cleared h) payload rest
  have hunpack := unpack_some htook.implements (by rw [payload_took]; exact hblock)
  obtain ⟨hready, hblocks⟩ := ready_unpack htook
  have hnext := nextBlock_took h.unbroken h.source (by omega) (by rw [h.limit]; exact hbounded)
    (by omega) hunpack
  rw [hblock]
  exact ⟨_, hnext, ⟨hready.source, hready.implements, hready.limit, hready.unbroken⟩,
    congrArg (· + 1) hblocks⟩

/-- The stream ends where nothing is left. -/
theorem nextBlock_end (h : Ready limit block? r []) :
    ∃ r', r.nextBlock = (.ok none, r') ∧ Ready limit block? r' [] ∧
      r'.blocksRead = r.blocksRead := by
  have hlength := fetchLength_ofBytes (ready_cleared h).source
  have hfetch : r.cleared.fetch = (.ok none, { r.cleared with source := .ofBytes [] }) := by
    simp only [fetch, hlength]
    rfl
  rw [nextBlock_of_unbroken h.unbroken, hfetch]
  exact ⟨_, rfl, ⟨rfl, h.implements, h.limit, h.unbroken⟩, rfl⟩

/-- Where no record can be parsed and something is left, the reader says that it is damaged. -/
theorem nextBlock_stuck (h : Ready limit block? r bytes) (hfield : limit < 2 ^ 32)
    (hne : bytes ≠ []) (hstuck : Stuck limit block? bytes) :
    ∃ damage, r.nextBlock.1 = .error (.format damage) := by
  obtain ⟨damage, hfetch⟩ := fetch_stuck (ready_cleared h) hfield hne hstuck
  refine ⟨damage, ?_⟩
  rw [nextBlock_of_unbroken h.unbroken]
  generalize r.cleared.fetch = outcome at hfetch
  obtain ⟨result, r'⟩ := outcome
  cases hfetch
  rfl

/-- The results of successive calls of `nextBlock`. -/
def nextBlocks : (count : Nat) → Reader → List (Except Error (Option Bytes)) × Reader
  | 0, r => ([], r)
  | count + 1, r =>
      let (result, r) := r.nextBlock
      let (results, r) := nextBlocks count r
      (result :: results, r)

theorem nextBlocks_succ (count : Nat) (r : Reader) :
    nextBlocks (count + 1) r =
      (r.nextBlock.1 :: (nextBlocks count r.nextBlock.2).1, (nextBlocks count r.nextBlock.2).2) :=
  rfl

/-- The blocks of records that can be parsed come out in their order, and then the reader is where
they end. -/
theorem nextBlocks_parses {payloads : List Bytes} (hfield : limit < 2 ^ 32)
    (hparses : Parses limit block? bytes payloads rest) (h : Ready limit block? r bytes) :
    ∃ r', Ready limit block? r' rest ∧ r'.blocksRead = r.blocksRead + payloads.length ∧
      ∀ count, r.nextBlocks (payloads.length + count) =
        (payloads.map (fun payload => .ok (block? payload)) ++ (r'.nextBlocks count).1,
          (r'.nextBlocks count).2) := by
  -- each step of the derivation is one call
  induction hparses generalizing r with
  | done rest => exact ⟨r, h, rfl, fun count => by simp⟩
  | @record payload bytes rest payloads hadmits _ ih =>
    obtain ⟨r₁, hnext, h₁, hblocks₁⟩ := nextBlock_record h hfield hadmits
    obtain ⟨r', hready, hblocks, hrun⟩ := ih h₁
    refine ⟨r', hready, ?_, fun count => ?_⟩
    · rw [hblocks, hblocks₁, List.length_cons]
      omega
    · rw [List.length_cons, Nat.add_right_comm, nextBlocks_succ, hnext, hrun]
      rfl

end Reader

end FramedStream
