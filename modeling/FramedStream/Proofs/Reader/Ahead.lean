import FramedStream.Proofs.Reader.Call
import FramedStream.Proofs.Reader.Streams

/-!
# What is ahead of a reader

A reader of the records of some blocks with something behind them that starts no record. Whatever
calls are made on it, it stays such a reader of the blocks that are left (`Ahead`), and all that it
hands out comes from the block that it holds and from these.

* `nextBlock_ahead`, `available_ahead` and `drawOnto_ahead` go through the ways to go on;
* `Passes` says what was handed out or skipped between two such readers;
* `Within` is what a run of calls preserves (`invariant_within`), `Confined` what a call may show
  then.
-/

namespace FramedStream

namespace Reader

/-- A reader with the records of some blocks before it and the rest behind them, or one that is
broken and has nothing any more. -/
structure Ahead (limit : Nat) (block? : Bytes → Option Bytes) (pack : Bytes → Bytes) (rest : Bytes)
    (blocks : List Bytes) (r : Reader) : Prop where
  position : r.position ≤ r.block.length
  ready : r.isBroken = false → Ready limit block? r (records pack blocks ++ rest)
  broken : r.isBroken = true → r.block = [] ∧ blocks = []
  readable : ∀ block ∈ blocks, Readable limit block? pack block

variable {limit : Nat} {block? : Bytes → Option Bytes} {pack : Bytes → Bytes} {rest : Bytes}
  {blocks : List Bytes} {r : Reader}

/-- A reader that is at the start of a block. -/
theorem Ahead.of_ready (hposition : r.position = 0)
    (hready : Ready limit block? r (records pack blocks ++ rest))
    (hblocks : ∀ block ∈ blocks, Readable limit block? pack block) :
    Ahead limit block? pack rest blocks r where
  position := by
    rw [hposition]
    exact Nat.zero_le _
  ready _ := hready
  broken hbroken := by
    rw [hready.unbroken] at hbroken
    cases hbroken
  readable := hblocks

/-- A reader that is elsewhere in its block. -/
theorem Ahead.moved (h : Ahead limit block? pack rest blocks r) {position : Nat}
    (hposition : position ≤ r.block.length) :
    Ahead limit block? pack rest blocks { r with position := position } where
  position := hposition
  ready hunbroken := by
    have hready := h.ready hunbroken
    exact ⟨hready.source, hready.implements, hready.limit, hready.unbroken⟩
  broken := h.broken
  readable := h.readable

/-- The readers of what is left, and what they have handed out or skipped: `passed` and what is
undrained now was undrained before. -/
structure Passes (limit : Nat) (block? : Bytes → Option Bytes) (pack : Bytes → Bytes) (rest : Bytes)
    (passed : Bytes) (blocks : List Bytes) (r : Reader) (blocks' : List Bytes) (r' : Reader) :
    Prop where
  ahead : Ahead limit block? pack rest blocks' r'
  passed : r.undrained ++ blocks.flatten = passed ++ (r'.undrained ++ blocks'.flatten)
  left : blocks' <:+ blocks
  held : r'.block ++ blocks'.flatten <:+ r.block ++ blocks.flatten

theorem Passes.refl (h : Ahead limit block? pack rest blocks r) :
    Passes limit block? pack rest [] blocks r blocks r :=
  ⟨h, rfl, List.suffix_rfl, List.suffix_rfl⟩

theorem Passes.trans {passed₁ passed₂ : Bytes} {blocks₁ blocks₂ : List Bytes} {r₁ r₂ : Reader}
    (h₁ : Passes limit block? pack rest passed₁ blocks r blocks₁ r₁)
    (h₂ : Passes limit block? pack rest passed₂ blocks₁ r₁ blocks₂ r₂) :
    Passes limit block? pack rest (passed₁ ++ passed₂) blocks r blocks₂ r₂ :=
  ⟨h₂.ahead, by rw [h₁.passed, h₂.passed, List.append_assoc], h₂.left.trans h₁.left,
    h₂.held.trans h₁.held⟩

/-- What is passed comes from the block that is held and the blocks that are ahead. -/
theorem Passes.within {passed : Bytes} {blocks' : List Bytes} {r' : Reader}
    (h : Passes limit block? pack rest passed blocks r blocks' r') :
    passed <:+: r.block ++ blocks.flatten := by
  have hdrained : r.undrained ++ blocks.flatten <:+ r.block ++ blocks.flatten :=
    ⟨r.block.take r.position, by rw [← List.append_assoc, undrained, List.take_append_drop]⟩
  have hpassed : passed <+: r.undrained ++ blocks.flatten := h.passed ▸ List.prefix_append _ _
  exact hpassed.isInfix.trans hdrained.isInfix

/-- How a call of `nextBlock` ends: with the next block, or, where there is none, without. -/
inductive NextAhead (limit : Nat) (block? : Bytes → Option Bytes) (pack : Bytes → Bytes)
    (rest : Bytes) (r : Reader) : List Bytes → Except Error (Option Bytes) × Reader → Prop
  | got {block : Bytes} {blocks : List Bytes} {r' : Reader} (held : r'.block = block)
      (position : r'.position = 0) (ahead : Ahead limit block? pack rest blocks r') :
      NextAhead limit block? pack rest r (block :: blocks) (.ok (some block), r')
  | nothing {result : Except Error (Option Bytes)} {r' : Reader}
      (none : ∀ block, result ≠ .ok (some block)) (held : r'.block = [])
      (ahead : Ahead limit block? pack rest [] r') :
      NextAhead limit block? pack rest r [] (result, r')

theorem nextBlock_ahead (hfield : limit < 2 ^ 32) (hstuck : rest ≠ [] → Stuck limit block? rest)
    (h : Ahead limit block? pack rest blocks r) :
    NextAhead limit block? pack rest r blocks r.nextBlock := by
  have hnexts := nexts r
  by_cases hbroken : r.isBroken = true
  · -- a broken reader stays as it is
    obtain ⟨hheld, rfl⟩ := h.broken hbroken
    rw [nextBlock, if_pos hbroken]
    exact .nothing (fun _ heq => by cases heq) hheld h
  have hunbroken : r.isBroken = false := by simpa using hbroken
  have hready := h.ready hunbroken
  cases blocks with
  | cons block blocks =>
    obtain ⟨hblock, hblocks⟩ := List.forall_mem_cons.1 h.readable
    rw [records, List.flatMap_cons, List.append_assoc] at hready
    obtain ⟨r', hnext, hready', -⟩ := nextBlock_record hready hfield hblock.admits
    rw [hnext, hblock.restored] at hnexts ⊢
    cases hnexts with
    | got _ held position => exact .got held position (.of_ready position hready' hblocks)
  | nil =>
    by_cases hnil : rest = []
    · subst hnil
      obtain ⟨r', hnext, hready', -⟩ := nextBlock_end hready
      rw [hnext] at hnexts ⊢
      cases hnexts with
      | ended _ held position =>
        exact .nothing (fun _ heq => by cases heq) held (.of_ready position hready' h.readable)
    · obtain ⟨damage, hfails⟩ := nextBlock_stuck hready hfield hnil (hstuck hnil)
      generalize r.nextBlock = outcome at hnexts hfails
      obtain ⟨result, r'⟩ := outcome
      cases hfails
      cases hnexts with
      | failed _ held position broken =>
        refine .nothing (fun _ heq => by cases heq) held
          ⟨?_, ?_, fun _ => ⟨held, rfl⟩, h.readable⟩
        · rw [position]
          exact Nat.zero_le _
        · intro hunbroken'
          rw [broken] at hunbroken'
          cases hunbroken'

/-- What is left of the current block is skipped. -/
theorem passes_nextBlock (hfield : limit < 2 ^ 32) (hstuck : rest ≠ [] → Stuck limit block? rest)
    (h : Ahead limit block? pack rest blocks r) :
    ∃ blocks', Passes limit block? pack rest r.undrained blocks r blocks' r.nextBlock.2 ∧
      ∀ block, r.nextBlock.1 = .ok (some block) → block ∈ blocks := by
  have hnext := nextBlock_ahead hfield hstuck h
  generalize r.nextBlock = outcome at hnext
  cases hnext with
  | @got block blocks r' held position ahead =>
    have hundrained : r'.undrained = block := by rw [undrained, held, position, List.drop_zero]
    refine ⟨blocks, ⟨ahead, ?_, List.suffix_cons _ _, ?_⟩, ?_⟩
    · rw [hundrained, List.flatten_cons]
    · rw [held, List.flatten_cons]
      exact List.suffix_append _ _
    · intro block' heq
      cases heq
      exact List.mem_cons_self
  | @nothing result r' none held ahead =>
    have hundrained : r'.undrained = [] := by rw [undrained, held, List.drop_nil]
    refine ⟨[], ⟨ahead, ?_, List.suffix_rfl, ?_⟩, fun block heq => absurd heq (none block)⟩
    · rw [hundrained]
      rfl
    · rw [held]
      exact List.nil_suffix

/-- The view of a buffered input: what is undrained, once there is something if there can be. -/
theorem available_ahead (hfield : limit < 2 ^ 32) (hstuck : rest ≠ [] → Stuck limit block? rest)
    (h : Ahead limit block? pack rest blocks r) :
    ∃ blocks', Passes limit block? pack rest [] blocks r blocks' r.available.2 ∧
      ∀ chunk, r.available.1 = .ok chunk → chunk = r.available.2.undrained := by
  unfold available
  split
  · next hdrained =>
    obtain ⟨blocks', hpasses, -⟩ := passes_nextBlock hfield hstuck h
    have hnil : r.undrained = [] := by rw [undrained, hdrained, List.drop_length]
    rw [hnil] at hpasses
    refine ⟨blocks', ?_⟩
    split
    · next heq =>
      rw [heq] at hpasses
      exact ⟨hpasses, nofun⟩
    · next heq =>
      rw [heq] at hpasses
      exact ⟨hpasses, fun chunk hchunk => (Except.ok.inj hchunk).symm⟩
  · exact ⟨blocks, .refl h, fun chunk hchunk => (Except.ok.inj hchunk).symm⟩

/-- Bytes of the current block are handed out, as many as are asked for or there are. -/
theorem passes_advance (h : Ahead limit block? pack rest blocks r) (count : Nat) :
    Passes limit block? pack rest (r.undrained.take count) blocks r blocks
      { r with position := r.position + min r.undrained.length count } := by
  have hposition := h.position
  have hlength : r.undrained.length = r.block.length - r.position := List.length_drop
  refine ⟨h.moved (by omega), ?_, List.suffix_rfl, List.suffix_rfl⟩
  have htake : r.undrained.take count = r.undrained.take (min r.undrained.length count) := by
    rw [List.take_eq_take_iff]
    omega
  show r.undrained ++ blocks.flatten = r.undrained.take count ++
    (r.block.drop (r.position + min r.undrained.length count) ++ blocks.flatten)
  rw [htake, ← List.drop_drop, ← List.append_assoc]
  show _ = r.undrained.take _ ++ r.undrained.drop _ ++ _
  rw [List.take_append_drop]

/-- All that a read gathers was ahead, in this order, and nothing of it is ahead any more. -/
theorem drawOnto_ahead (hfield : limit < 2 ^ 32) (hstuck : rest ≠ [] → Stuck limit block? rest)
    (gathered : Array UInt8) (count : Nat) (h : Ahead limit block? pack rest blocks r) :
    ∃ drawn blocks', (drawOnto gathered r count).bytes = gathered.toList ++ drawn ∧
      Passes limit block? pack rest drawn blocks r blocks' (drawOnto gathered r count).reader := by
  fun_induction drawOnto gathered r count generalizing blocks with
  | case1 => exact ⟨[], blocks, (List.append_nil _).symm, .refl h⟩
  | case2 gathered r count hcount e r' heq =>
    obtain ⟨blocks', hpasses, -⟩ := available_ahead hfield hstuck h
    rw [heq] at hpasses
    exact ⟨[], blocks', (List.append_nil _).symm, hpasses⟩
  | case3 gathered r count hcount r' heq =>
    obtain ⟨blocks', hpasses, -⟩ := available_ahead hfield hstuck h
    rw [heq] at hpasses
    exact ⟨[], blocks', (List.append_nil _).symm, hpasses⟩
  | case4 gathered r count hcount chunk r' heq hchunk hless ih =>
    obtain ⟨blocks', hpasses, hview⟩ := available_ahead hfield hstuck h
    rw [heq] at hpasses hview
    obtain rfl : chunk = r'.undrained := hview chunk rfl
    have hadvance := passes_advance hpasses.ahead count
    obtain ⟨drawn, blocks'', hbytes, hdrawn⟩ := ih hadvance.ahead
    refine ⟨r'.undrained.take count ++ drawn, blocks'', ?_, ?_⟩
    · rw [hbytes]
      simp
    · exact (hpasses.trans hadvance).trans hdrawn

theorem draw_ahead (hfield : limit < 2 ^ 32) (hstuck : rest ≠ [] → Stuck limit block? rest)
    (h : Ahead limit block? pack rest blocks r) (count : Nat) :
    ∃ blocks', Passes limit block? pack rest (r.draw count).bytes blocks r blocks'
      (r.draw count).reader := by
  obtain ⟨drawn, blocks', hbytes, hpasses⟩ := drawOnto_ahead hfield hstuck #[] count h
  rw [draw, hbytes]
  exact ⟨blocks', hpasses⟩

/-! ### Any number of calls -/

/-- A reader that has nothing to hand out but what comes from some blocks. -/
def Within (limit : Nat) (block? : Bytes → Option Bytes) (pack : Bytes → Bytes) (rest : Bytes)
    (all : List Bytes) (r : Reader) : Prop :=
  ∃ blocks, Ahead limit block? pack rest blocks r ∧ blocks <:+ all ∧
    r.block ++ blocks.flatten <:+ all.flatten

variable {all : List Bytes}

theorem Passes.stays {passed : Bytes} {blocks' : List Bytes} {r' : Reader}
    (h : Passes limit block? pack rest passed blocks r blocks' r') (hleft : blocks <:+ all)
    (hheld : r.block ++ blocks.flatten <:+ all.flatten) : Within limit block? pack rest all r' :=
  ⟨blocks', h.ahead, h.left.trans hleft, h.held.trans hheld⟩

theorem invariant_within (hfield : limit < 2 ^ 32) (hstuck : rest ≠ [] → Stuck limit block? rest) :
    Invariant (Within limit block? pack rest all) where
  nextBlock := by
    rintro r ⟨blocks, hahead, hleft, hheld⟩
    obtain ⟨blocks', hpasses, -⟩ := passes_nextBlock hfield hstuck hahead
    exact hpasses.stays hleft hheld
  moved := by
    rintro r position ⟨blocks, hahead, hleft, hheld⟩ hposition
    exact ⟨blocks, hahead.moved hposition, hleft, hheld⟩

/-- A reader that shows nothing but bytes of some blocks, whichever way it is asked. What a read
puts into a buffer counts also where it fails. -/
structure Confined (blocks : List Bytes) (r : Reader) : Prop where
  nextBlock : ∀ block, r.nextBlock.1 = .ok (some block) → block ∈ blocks
  readBytes : ∀ buffer offset length, ∃ bytes, bytes <:+: blocks.flatten ∧
    (r.readBytes buffer offset length).buffer =
      buffer.take offset ++ bytes ++ buffer.drop (offset + bytes.length)
  read : ∀ count bytes, (r.read count).1 = .ok bytes → bytes <:+: blocks.flatten
  fillBuf : ∀ bytes, r.fillBuf.1 = .ok bytes → bytes <:+: blocks.flatten

theorem Within.confined (hfield : limit < 2 ^ 32) (hstuck : rest ≠ [] → Stuck limit block? rest)
    (h : Within limit block? pack rest all r) : Confined all r := by
  obtain ⟨blocks, hahead, hleft, hheld⟩ := h
  have hdraw : ∀ count, (r.draw count).bytes <:+: all.flatten := by
    intro count
    obtain ⟨blocks', hpasses⟩ := draw_ahead hfield hstuck hahead count
    exact hpasses.within.trans hheld.isInfix
  refine ⟨fun block hblock => ?_, fun buffer offset length => ?_, fun count bytes hread => ?_,
    fun bytes hfill => ?_⟩
  · obtain ⟨blocks', -, hgot⟩ := passes_nextBlock hfield hstuck hahead
    exact hleft.mem (hgot block hblock)
  · unfold Reader.readBytes
    split
    · exact ⟨[], List.nil_infix, by simp⟩
    · exact ⟨_, hdraw length, rfl⟩
  · simp only [Reader.read] at hread
    split at hread
    · cases hread
      exact hdraw count
    · cases hread
  · obtain ⟨blocks', hpasses, hview⟩ := available_ahead hfield hstuck hahead
    simp only [Reader.fillBuf] at hfill
    split at hfill
    · next r' heq =>
      cases hfill
      rw [heq] at hpasses hview
      -- the view is the end of the block that is held then
      rw [hview bytes rfl]
      have hdrop : r'.undrained <:+ r'.block := List.drop_suffix _ _
      exact (hdrop.isInfix.trans (List.prefix_append _ _).isInfix).trans
        (hpasses.held.trans hheld).isInfix
    · cases hfill

end Reader

end FramedStream
