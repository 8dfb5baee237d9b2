import FramedStream.Proofs.Codec.Packing
import FramedStream.Proofs.Reader.Acceptance
import FramedStream.Proofs.Writer.Reference

/-!
# Reading the streams of writers

A stream of the current version whose records carry blocks that a reader gets back (`Readable`), and
whatever bytes behind them. The reader is opened, gives the blocks (`nextBlocks_records`), and is
then before the rest.

* `Reads` is a stream that is read to its end, `reads_framed` the case of nothing behind the
  records;
* `FailsAfter` is one that is damaged behind some blocks, `failsAfter_of_stuck` the case of bytes
  that start no record. A reader that has failed never comes to an end of the stream
  (`FailsAfter.never_ends`).
-/

namespace FramedStream

/-- A block that a reader gets back from its payload. -/
structure Readable (limit : Nat) (block? : Bytes → Option Bytes) (pack : Bytes → Bytes)
    (block : Bytes) : Prop where
  positive : 1 ≤ (pack block).length
  bounded : (pack block).length ≤ limit
  restored : block? (pack block) = some block

theorem Readable.admits {limit : Nat} {block? : Bytes → Option Bytes} {pack : Bytes → Bytes}
    {block : Bytes} (h : Readable limit block? pack block) : Admits limit block? (pack block) :=
  ⟨h.positive, h.bounded, by rw [h.restored]; rfl⟩

theorem Codec.Restores.readable {c : Codec} {blockSize limit : Nat} {pack : Bytes → Bytes}
    {block? : Bytes → Option Bytes} (h : c.Restores blockSize pack limit block?)
    {blocks : List Bytes} (hblocks : ∀ block ∈ blocks, block ≠ [] ∧ block.length ≤ blockSize) :
    ∀ block ∈ blocks, Readable limit block? pack block := by
  intro block hmem
  obtain ⟨hne, hlength⟩ := hblocks block hmem
  exact ⟨h.positive block hne hlength, h.bounded block hne hlength, h.restored block hne hlength⟩

/-- Where the record of a block starts in a stream, the blocks counted from 0. -/
def recordStart (payloads : List Bytes) (block : Nat) : Nat :=
  headerSize + ((payloads.take block).flatMap record).length

theorem recordStart_map (pack : Bytes → Bytes) (front back : List Bytes) :
    recordStart ((front ++ back).map pack) front.length =
      headerSize + (records pack front).length := by
  have hfront : (front.map pack).length = front.length := List.length_map _
  rw [recordStart, List.map_append, List.take_left' hfront, records_eq]

/-- The next record starts where this one ends. -/
theorem recordStart_map_succ (pack : Bytes → Bytes) (front : List Bytes) (block : Bytes)
    (back : List Bytes) :
    recordStart ((front ++ block :: back).map pack) (front.length + 1) =
      headerSize + (records pack front).length + (record (pack block)).length := by
  have h := recordStart_map pack (front ++ [block]) back
  have hone : records pack [block] = record (pack block) := by simp [records]
  rwa [List.append_assoc, List.singleton_append, List.length_append, List.length_singleton,
    records_append, List.length_append, hone, ← Nat.add_assoc] at h

namespace Reader

/-- Bytes that start with the current header of a bundled codec are opened for this codec. -/
theorem opens_current {id : UInt16} (hid : id.toNat ≤ 2) (rest : Bytes) :
    Opens ((Header.current id).encode ++ rest) ∧
      codecIdOf ((Header.current id).encode ++ rest) = id ∧
      ((Header.current id).encode ++ rest).drop 20 = rest := by
  have hlength : (Header.current id).encode.length = 20 := Header.length_encode _
  have hlt : id.toNat < 256 ^ 2 := by omega
  have hparts : (Header.current id).encode ++ rest =
      magic ++ (Bytes.ofNatBE 4 1 ++ (Bytes.ofNatBE 4 1 ++
        (Bytes.ofNatBE 2 id.toNat ++ ([0, 0] ++ rest)))) := by
    simp only [Header.encode, Header.current, List.append_assoc]
    rfl
  have hcompatible : (((Header.current id).encode ++ rest).drop 12).take 4 = Bytes.ofNatBE 4 1 := by
    rw [hparts, ← List.append_assoc, List.drop_left' (by decide), List.take_left' (by decide)]
  have hcodec : (((Header.current id).encode ++ rest).drop 16).take 2 =
      Bytes.ofNatBE 2 id.toNat := by
    rw [hparts, ← List.append_assoc, ← List.append_assoc, List.drop_left' (by decide),
      List.take_left' (Bytes.length_ofNatBE _ _)]
  refine ⟨⟨?_, ?_, ?_, ?_⟩, ?_, List.drop_left' hlength⟩
  · rw [List.length_append, hlength]
    exact Nat.le_add_right _ _
  · rw [hparts, List.take_left' (by decide)]
  · rw [hcompatible]
    decide
  · rw [hcodec, Bytes.toNatBE_ofNatBE, Nat.mod_eq_of_lt hlt]
    exact hid
  · rw [codecIdOf, hcodec, Bytes.toNatBE_ofNatBE, Nat.mod_eq_of_lt hlt]
    exact UInt16.ofNat_toNat

/-- A reader that was just opened holds no block. -/
theorem openBundled_holds {source : Source} {libs : Libraries} {r : Reader}
    (h : openBundled source libs = .ok r) : r.block = [] ∧ r.position = 0 := by
  unfold openBundled at h
  split at h
  · cases h
  split at h
  · cases h
  unfold ofParts at h
  split at h
  · cases h
  · cases h
    exact ⟨rfl, rfl⟩

/-- A stream of the current version is opened, whatever comes behind the header. -/
theorem openBundled_current (libs : Libraries) {id : UInt16} (hid : id.toNat ≤ 2) (rest : Bytes) :
    ∃ r, openBundled (.ofBytes ((Header.current id).encode ++ rest)) libs = .ok r ∧
      r.blocksRead = 0 ∧
      Ready (Codec.payloadLimit id) (Payload.block? (Codec.body? libs id)) r rest := by
  obtain ⟨hopens, hcodec, hrest⟩ := opens_current hid rest
  obtain ⟨r, hopen, hzero, hready⟩ := openBundled_of_opens libs hopens
  rw [hcodec, hrest] at hready
  exact ⟨r, hopen, hzero, hready⟩

section Blocks

variable {limit : Nat} {block? : Bytes → Option Bytes} {pack : Bytes → Bytes} {blocks : List Bytes}

theorem parses_readable (hblocks : ∀ block ∈ blocks, Readable limit block? pack block)
    (rest : Bytes) :
    Parses limit block? (records pack blocks ++ rest) (blocks.map pack) rest := by
  have hpayloads : ∀ payload ∈ blocks.map pack, Admits limit block? payload := by
    intro payload hmem
    obtain ⟨block, hblock, rfl⟩ := List.mem_map.1 hmem
    exact (hblocks block hblock).admits
  have h := parses_records hpayloads rest
  rwa [← records_eq] at h

/-- The blocks come out one after the other, and then the reader is before the rest. -/
theorem nextBlocks_records (hfield : limit < 2 ^ 32)
    (hblocks : ∀ block ∈ blocks, Readable limit block? pack block) {r : Reader} {rest : Bytes}
    (h : Ready limit block? r (records pack blocks ++ rest)) :
    ∃ r', Ready limit block? r' rest ∧ r'.blocksRead = r.blocksRead + blocks.length ∧
      ∀ count, r.nextBlocks (blocks.length + count) =
        (blocks.map (fun block => .ok (some block)) ++ (r'.nextBlocks count).1,
          (r'.nextBlocks count).2) := by
  obtain ⟨r', hready, hcount, hrun⟩ := nextBlocks_parses hfield (parses_readable hblocks rest) h
  have hresults : (blocks.map pack).map (fun payload =>
      (.ok (block? payload) : Except Error (Option Bytes))) =
      blocks.map fun block => .ok (some block) := by
    rw [List.map_map]
    exact List.map_congr_left fun block hblock => congrArg Except.ok (hblocks block hblock).restored
  rw [List.length_map] at hcount hrun
  rw [hresults] at hrun
  exact ⟨r', hready, hcount, hrun⟩

end Blocks

/-- A stream in memory that is read to its end and gives some blocks. -/
def Reads (libs : Libraries) (stream : Bytes) (blocks : List Bytes) : Prop :=
  ∃ r r', openBundled (.ofBytes stream) libs = .ok r ∧
    r.nextBlocks (blocks.length + 1) =
      (blocks.map (fun block => .ok (some block)) ++ [.ok none], r') ∧
    r'.blocksRead = blocks.length

/-- A stream in memory that gives some blocks and is found to be damaged at the next one. -/
def FailsAfter (libs : Libraries) (stream : Bytes) (blocks : List Bytes) : Prop :=
  ∃ r r' damage, openBundled (.ofBytes stream) libs = .ok r ∧
    r.nextBlocks (blocks.length + 1) =
      (blocks.map (fun block => .ok (some block)) ++ [.error (.format damage)], r')

section Streams

variable {libs : Libraries} {id : UInt16} {pack : Bytes → Bytes} {blocks : List Bytes}

/-- A stream of blocks that can be restored is read block by block to its end. -/
theorem reads_framed (hid : id.toNat ≤ 2)
    (hblocks : ∀ block ∈ blocks, Readable (Codec.payloadLimit id)
      (Payload.block? (Codec.body? libs id)) pack block) :
    Reads libs (framed id pack blocks) blocks := by
  obtain ⟨r, hopen, hzero, hready⟩ := openBundled_current libs hid (records pack blocks)
  rw [← List.append_nil (records pack blocks)] at hready
  obtain ⟨r₁, hready₁, hcount₁, hrun⟩ :=
    nextBlocks_records (Codec.payloadLimit_lt id) hblocks hready
  obtain ⟨r', hend, -, hcount⟩ := nextBlock_end hready₁
  refine ⟨r, r', hopen, ?_, ?_⟩
  · rw [hrun, nextBlocks_succ, hend]
    rfl
  · rw [hcount, hcount₁, hzero, Nat.zero_add]

/-- Where no record follows the blocks and something is left, the stream is damaged. -/
theorem failsAfter_of_stuck (hid : id.toNat ≤ 2)
    (hblocks : ∀ block ∈ blocks, Readable (Codec.payloadLimit id)
      (Payload.block? (Codec.body? libs id)) pack block) {rest : Bytes} (hne : rest ≠ [])
    (hstuck : Stuck (Codec.payloadLimit id) (Payload.block? (Codec.body? libs id)) rest) :
    FailsAfter libs ((Header.current id).encode ++ (records pack blocks ++ rest)) blocks := by
  have hfield := Codec.payloadLimit_lt id
  obtain ⟨r, hopen, -, hready⟩ := openBundled_current libs hid (records pack blocks ++ rest)
  obtain ⟨r₁, hready₁, -, hrun⟩ := nextBlocks_records hfield hblocks hready
  obtain ⟨damage, hfails⟩ := nextBlock_stuck hready₁ hfield hne hstuck
  refine ⟨r, r₁.nextBlock.2, damage, hopen, ?_⟩
  rw [hrun, nextBlocks_succ, hfails]
  rfl

/-- Where no record follows the header and something is left, nothing is read. -/
theorem failsAfter_at_once (hid : id.toNat ≤ 2) {rest : Bytes} (hne : rest ≠ [])
    (hstuck : Stuck (Codec.payloadLimit id) (Payload.block? (Codec.body? libs id)) rest) :
    FailsAfter libs ((Header.current id).encode ++ rest) [] := by
  have hnone : ∀ block ∈ ([] : List Bytes), Readable (Codec.payloadLimit id)
      (Payload.block? (Codec.body? libs id)) (fun block => block) block := List.forall_mem_nil _
  exact failsAfter_of_stuck hid hnone hne hstuck

end Streams

/-! ### After a failure -/

theorem nextBlocks_add (r : Reader) (m n : Nat) :
    r.nextBlocks (m + n) =
      ((r.nextBlocks m).1 ++ ((r.nextBlocks m).2.nextBlocks n).1,
        ((r.nextBlocks m).2.nextBlocks n).2) := by
  induction m generalizing r with
  | zero => rw [Nat.zero_add]; rfl
  | succ m ih =>
    rw [Nat.add_right_comm, nextBlocks_succ, nextBlocks_succ, ih]
    rfl

theorem isBroken_of_error {r r' : Reader} {e : Error} (h : r.nextBlock = (.error e, r')) :
    r'.isBroken = true := by
  have hsteps := nextSteps r
  rw [h] at hsteps
  cases hsteps with
  | refused broken => exact broken
  | failed => rfl

theorem nextBlocks_broken {r : Reader} (hr : r.isBroken = true) (count : Nat) :
    (r.nextBlocks count).1 = List.replicate count (.error .broken) := by
  have hnext : r.nextBlock = (.error .broken, r) := by rw [nextBlock, if_pos hr]
  induction count with
  | zero => rfl
  | succ count ih => rw [nextBlocks_succ, hnext, ih, List.replicate_succ]

/-- However long one reads on, a damaged stream does not come to an end. -/
theorem FailsAfter.never_ends {libs : Libraries} {stream : Bytes} {blocks : List Bytes}
    (h : FailsAfter libs stream blocks) {r : Reader}
    (hopen : openBundled (.ofBytes stream) libs = .ok r) (count : Nat) :
    .ok none ∉ (r.nextBlocks count).1 := by
  obtain ⟨r₀, r', damage, hopen₀, hrun⟩ := h
  cases hopen₀.symm.trans hopen
  have hbroken : r'.isBroken = true := by
    rw [nextBlocks_add, nextBlocks_succ] at hrun
    obtain ⟨hresults, hreader⟩ := Prod.mk.inj hrun
    obtain ⟨-, hlast⟩ := List.append_inj' hresults rfl
    exact hreader ▸ isBroken_of_error (Prod.ext (List.cons.inj hlast).1 rfl)
  -- the results of fewer calls are among those of more
  have hmore := r.nextBlocks_add count (blocks.length + 1)
  rw [Nat.add_comm, nextBlocks_add, hrun, nextBlocks_broken hbroken] at hmore
  intro hmem
  have hall := List.mem_append_left ((r.nextBlocks count).2.nextBlocks (blocks.length + 1)).1 hmem
  rw [← (Prod.mk.inj hmore).1] at hall
  simp at hall

end Reader

end FramedStream
