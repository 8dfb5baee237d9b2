import FramedStream.Proofs.Reader.Failure
import FramedStream.Proofs.Reader.Interfaces

/-!
# What a reader is going to give

If a reader is asked for one block after the other, it decodes some records and then comes to an
end or fails. `outlook` says which records these are and how it ends, for any reader over any
source, and `deliverable` puts together the bytes that can be had before that.

* `outlook_moved`: how far the current block was handed out does not matter;
* `outlook_ready`: over bytes in memory these are the records that can be parsed from them;
* `drainBlocks_outlook`: whoever asks for all blocks gets just these;
* `drawOnto_enough`: a read takes what it is asked for off the front of the deliverable bytes;
* `drawOnto_short`: if there is less it takes all, and ends as the outlook says.

Both are about readers that are in place (`Placed`), as any is after any calls (`invariant_placed`).
-/

namespace FramedStream

/-- A record that was decoded. -/
structure Decoded where
  payload : Bytes
  block : Bytes

/-- The records that a reader is going to decode, and how it ends then. -/
structure Outlook where
  found : List Decoded
  ending : Except Error Unit

namespace Outlook

/-- The payloads of the records. -/
def payloads (o : Outlook) : List Bytes := o.found.map (·.payload)

/-- The blocks of the records. -/
def blocks (o : Outlook) : List Bytes := o.found.map (·.block)

end Outlook

namespace Reader

/-- What comes of asking for one block after the other. -/
def outlook (r : Reader) : Outlook :=
  match h : r.nextBlock with
  | (.error e, _) => ⟨[], .error e⟩
  | (.ok none, _) => ⟨[], .ok ()⟩
  | (.ok (some block), r') =>
      have := source_nextBlock r h
      ⟨⟨r'.payload, block⟩ :: (outlook r').found, (outlook r').ending⟩
termination_by r.source.rest.length

/-- The bytes that can be had before the reader ends or fails. -/
def deliverable (r : Reader) : Bytes := r.undrained ++ r.outlook.blocks.flatten

variable {r r' : Reader}

theorem outlook_failed {e : Error} (h : r.nextBlock = (.error e, r')) :
    r.outlook = ⟨[], .error e⟩ := by
  unfold outlook
  split
  · next heq =>
    cases heq.symm.trans h
    rfl
  · next heq => cases heq.symm.trans h
  · next heq => cases heq.symm.trans h

theorem outlook_ended (h : r.nextBlock = (.ok none, r')) : r.outlook = ⟨[], .ok ()⟩ := by
  unfold outlook
  split
  · next heq => cases heq.symm.trans h
  · rfl
  · next heq => cases heq.symm.trans h

theorem outlook_got {block : Bytes} (h : r.nextBlock = (.ok (some block), r')) :
    r.outlook = ⟨⟨r'.payload, block⟩ :: r'.outlook.found, r'.outlook.ending⟩ := by
  rw [outlook]
  split
  · next heq => cases heq.symm.trans h
  · next heq => cases heq.symm.trans h
  · next heq =>
    cases heq.symm.trans h
    rfl

theorem outlook_broken (h : r.isBroken = true) : r.outlook = ⟨[], .error .broken⟩ :=
  outlook_failed (Prod.ext (by rw [nextBlock, if_pos h]) rfl)

/-- What is left of the current block is given up for the next one, so it does not matter how much
that is. -/
theorem nextBlock_moved (h : r.isBroken = false) (position : Nat) :
    ({ r with position } : Reader).nextBlock = r.nextBlock := by
  rw [nextBlock_of_unbroken h, nextBlock_of_unbroken (r := { r with position }) h]
  rfl

@[simp] theorem outlook_moved (r : Reader) (position : Nat) :
    ({ r with position } : Reader).outlook = r.outlook := by
  by_cases hbroken : r.isBroken = true
  · rw [outlook_broken hbroken, outlook_broken (r := { r with position }) hbroken]
  have hunbroken : r.isBroken = false := by simpa using hbroken
  have hnext := nextBlock_moved hunbroken position
  generalize hr : r.nextBlock = outcome at hnext
  match outcome with
  | (.error e, r') => rw [outlook_failed hnext, outlook_failed hr]
  | (.ok none, r') => rw [outlook_ended hnext, outlook_ended hr]
  | (.ok (some block), r') => rw [outlook_got hnext, outlook_got hr]

/-! ### Blocks -/

theorem unpack_ne_nil {block : Bytes} (h : r.unpack.1 = .ok block) : block ≠ [] := by
  revert h
  unfold unpack
  split
  · exact nofun
  next size _ =>
  split
  · exact nofun
  next hsize =>
  split
  · exact nofun
  next output _ =>
  simp only
  split
  · exact nofun
  rintro ⟨⟩
  have hlength := output.length_take_into r.unpacked (Nat.le_max_left size r.unpacked.size)
    (Nat.le_max_left size r.unpacked.size)
  rw [← List.length_pos_iff, hlength]
  omega

theorem fetch_ne_nil {block : Bytes} (h : r.fetch.1 = .ok (some block)) : block ≠ [] := by
  have hsteps := fetchSteps r
  generalize r.fetch = outcome at hsteps h
  cases hsteps with
  | noLength | ended | noPayload | noBlock => cases h
  | got _ _ unpack =>
    cases h
    exact unpack_ne_nil unpack

/-- No block is empty. -/
theorem nextBlock_ne_nil {block : Bytes} (h : r.nextBlock = (.ok (some block), r')) :
    block ≠ [] := by
  have hsteps := nextSteps r
  rw [h] at hsteps
  cases hsteps with
  | got _ fetch => exact fetch_ne_nil (congrArg Prod.fst fetch)

/-- A block is counted where there is one. -/
def counted : Except Error (Option Bytes) → Nat
  | .ok (some _) => 1
  | _ => 0

theorem buffer_unpack (r : Reader) : r.unpack.2.buffer = r.buffer := by
  rcases r.unpack_snd with h | ⟨unpacked, h⟩
  · rw [h, asked]
  · rw [h, tried, asked]

theorem blocksRead_fetch (r : Reader) :
    r.fetch.2.blocksRead = r.blocksRead + counted r.fetch.1 := by
  have hsteps := fetchSteps r
  generalize r.fetch = outcome at hsteps
  cases hsteps with
  | noLength | ended => rfl
  | @noPayload size => exact (holds_loaded r size).blocksRead
  | @noBlock size => exact ((holds_loaded r size).trans (holds_unpack _)).blocksRead
  | @got size =>
    exact congrArg (· + 1) ((holds_loaded r size).trans (holds_unpack _)).blocksRead

theorem blocksRead_nextBlock (r : Reader) :
    r.nextBlock.2.blocksRead = r.blocksRead + counted r.nextBlock.1 := by
  have hfetch := blocksRead_fetch r.cleared
  have hsteps := nextSteps r
  generalize r.nextBlock = outcome at hsteps
  cases hsteps with
  | refused => rfl
  | failed _ fetch | ended _ fetch | got _ fetch => rwa [fetch] at hfetch

/-! ### All at once -/

/-- Asking for blocks until they end gives the blocks of the outlook. -/
theorem blocks_of_nextBlocks {blocks : List Bytes}
    (h : (r.nextBlocks (blocks.length + 1)).1 =
      blocks.map (fun block => .ok (some block)) ++ [.ok none]) :
    r.outlook.blocks = blocks ∧ r.outlook.ending = .ok () := by
  induction blocks generalizing r with
  | nil =>
    have hnext : r.nextBlock = (.ok none, r.nextBlock.2) := Prod.ext (List.cons.inj h).1 rfl
    rw [outlook_ended hnext]
    exact ⟨rfl, rfl⟩
  | cons block blocks ih =>
    obtain ⟨hhead, htail⟩ := List.cons.inj h
    obtain ⟨hblocks, hending⟩ := ih htail
    rw [outlook_got (Prod.ext hhead rfl)]
    exact ⟨congrArg (block :: ·) hblocks, hending⟩

/-- Gathering the blocks up to the next end. A failure is one that is left after another try. -/
theorem drainBlocks_outlook (gathered : Array UInt8) (r : Reader) :
    ∃ r', drainBlocks gathered r =
        ⟨gathered.toList ++ r.outlook.blocks.flatten, r.outlook.ending.mapError afterRetry, r'⟩ ∧
      r'.blocksRead = r.blocksRead + r.outlook.found.length := by
  fun_induction drainBlocks gathered r with
  | case1 gathered r e r' h =>
    obtain ⟨failure, hnext, rfl⟩ := nextBlockRetried_eq_error.1 h
    have hcount := blocksRead_nextBlock r
    rw [hnext] at hcount
    rw [outlook_failed hnext]
    exact ⟨r', by rw [Outlook.blocks, List.map_nil, List.flatten_nil, List.append_nil]; rfl, hcount⟩
  | case2 gathered r r' h =>
    have hnext := nextBlockRetried_eq_ok.1 h
    have hcount := blocksRead_nextBlock r
    rw [hnext] at hcount
    rw [outlook_ended hnext]
    exact ⟨r', by rw [Outlook.blocks, List.map_nil, List.flatten_nil, List.append_nil]; rfl, hcount⟩
  | case3 gathered r block r' h hless ih =>
    have hnext := nextBlockRetried_eq_ok.1 h
    have hcount := blocksRead_nextBlock r
    rw [hnext] at hcount
    obtain ⟨r'', hdrain, hblocks⟩ := ih
    rw [outlook_got hnext]
    refine ⟨r'', by rw [hdrain]; simp [Outlook.blocks], ?_⟩
    rw [hblocks, List.length_cons]
    simp only [counted] at hcount
    omega

/-! ### Bytes in memory -/

section Memory

variable {limit : Nat} {block? : Bytes → Option Bytes} {bytes payload rest : Bytes}
  {payloads : List Bytes}

/-- The payload of a record is there once its block is. -/
theorem payload_nextBlock (h : Ready limit block? r (record payload ++ rest))
    (hfield : limit < 2 ^ 32) (hadmits : Admits limit block? payload) :
    r.nextBlock.2.payload = payload := by
  obtain ⟨block, hblock⟩ := Option.isSome_iff_exists.1 hadmits.decodes
  have hpositive := hadmits.positive
  have hbounded := hadmits.bounded
  have htook := ready_took (ready_cleared h) payload rest
  have hunpack := unpack_some htook.implements (by rw [payload_took]; exact hblock)
  rw [nextBlock_took h.unbroken h.source (by omega) (by rw [h.limit]; exact hbounded)
    (by omega) hunpack]
  show (r.cleared.took payload rest).unpack.2.payload = payload
  rw [Reader.payload, buffer_unpack]
  exact payload_took r.cleared payload rest

/-- Records that can be parsed are found first. -/
theorem outlook_parses (hfield : limit < 2 ^ 32) (hparses : Parses limit block? bytes payloads rest)
    (h : Ready limit block? r bytes) :
    ∃ found r', Ready limit block? r' rest ∧
      r.outlook = ⟨found ++ r'.outlook.found, r'.outlook.ending⟩ ∧
      found.map (·.payload) = payloads ∧ ∀ d ∈ found, block? d.payload = some d.block := by
  -- each step of the derivation is one record
  induction hparses generalizing r with
  | done => exact ⟨[], r, h, rfl, rfl, List.forall_mem_nil _⟩
  | @record payload bytes rest payloads hadmits _ ih =>
    obtain ⟨block, hblock⟩ := Option.isSome_iff_exists.1 hadmits.decodes
    obtain ⟨r₁, hnext, hready, -⟩ := nextBlock_record h hfield hadmits
    have hpayload := payload_nextBlock h hfield hadmits
    rw [hnext] at hpayload
    rw [hblock] at hnext
    obtain ⟨found, r', hready', hfound, hpayloads, hblocks⟩ := ih hready
    refine ⟨⟨payload, block⟩ :: found, r', hready', ?_, ?_, ?_⟩
    · rw [outlook_got hnext, hfound, hpayload]
      rfl
    · rw [List.map_cons, hpayloads]
    · exact List.forall_mem_cons.2 ⟨hblock, hblocks⟩

/-- The records that are found are all that can be parsed. The end comes where they make up all the
bytes, and else the reader says that the stream is damaged. -/
theorem outlook_ready (hfield : limit < 2 ^ 32) (h : Ready limit block? r bytes) :
    ∃ rest, Parses limit block? bytes r.outlook.payloads rest ∧
      (∀ d ∈ r.outlook.found, block? d.payload = some d.block) ∧
      ((rest = [] ∧ r.outlook.ending = .ok ()) ∨
        rest ≠ [] ∧ Stuck limit block? rest ∧
          ∃ damage, r.outlook.ending = .error (.format damage)) := by
  obtain ⟨payloads, rest, hparses, hstuck⟩ := exists_parse limit block? bytes
  obtain ⟨found, r', hready, houtlook, hpayloads, hblocks⟩ := outlook_parses hfield hparses h
  by_cases hrest : rest = []
  · subst hrest
    obtain ⟨r'', hend, -⟩ := nextBlock_end hready
    rw [outlook_ended hend, List.append_nil] at houtlook
    rw [houtlook, Outlook.payloads, hpayloads]
    exact ⟨[], hparses, hblocks, .inl ⟨rfl, rfl⟩⟩
  · obtain ⟨damage, hfails⟩ := nextBlock_stuck hready hfield hrest hstuck
    rw [outlook_failed (Prod.ext hfails rfl), List.append_nil] at houtlook
    rw [houtlook, Outlook.payloads, hpayloads]
    exact ⟨rest, hparses, hblocks, .inr ⟨hrest, hstuck, damage, rfl⟩⟩

end Memory

/-! ### Piece by piece -/

/-- A reader that is over if it is broken, and not beyond its block. -/
structure Placed (r : Reader) : Prop where
  sound : r.Sound
  position : r.position ≤ r.block.length

/-- The blocks that will have been read then. -/
def expected (r : Reader) : Nat := r.blocksRead + r.outlook.found.length

/-- The same is to be had from both readers. -/
structure Keeps (r r' : Reader) : Prop where
  deliverable : r'.deliverable = r.deliverable
  ending : r'.outlook.ending = r.outlook.ending
  expected : r'.expected = r.expected

theorem invariant_placed : Invariant Placed where
  nextBlock := by
    intro r h
    have hsound := invariant_sound.nextBlock h.sound
    have hnexts := nexts r
    generalize r.nextBlock = outcome at hsound hnexts
    cases hnexts with
    | refused => exact h
    | got _ _ position | ended _ _ position | failed _ _ position =>
      exact ⟨hsound, position ▸ Nat.zero_le _⟩
  moved h hposition := ⟨invariant_sound.moved h.sound hposition, hposition⟩

/-- Bytes of the current block that are handed out were deliverable. -/
theorem deliverable_advance {count : Nat} (hcount : count ≤ r.undrained.length) :
    ({ r with position := r.position + count } : Reader).deliverable =
      r.deliverable.drop count := by
  rw [deliverable, deliverable, outlook_moved, undrained_advance,
    List.drop_append_of_le_length hcount]

theorem expected_moved (r : Reader) (position : Nat) :
    ({ r with position } : Reader).expected = r.expected := by
  rw [expected, expected, outlook_moved]

/-- What comes of a view. -/
inductive Views (r : Reader) : Except Error Bytes × Reader → Prop
  | failed {e : Error} {r' : Reader} (nothing : r.deliverable = [])
      (ending : r.outlook.ending = .error e) : Views r (.error e, r')
  | ended {r' : Reader} (nothing : r.deliverable = []) (ending : r.outlook.ending = .ok ())
      (count : r'.blocksRead = r.expected) (held : r'.undrained = [])
      (next : r.nextBlock = (.ok none, r')) : Views r (.ok [], r')
  | got {chunk : Bytes} {r' : Reader} (held : r'.undrained = chunk) (something : chunk ≠ [])
      (keeps : Keeps r r') : Views r (.ok chunk, r')

theorem views (h : r.Placed) : Views r r.available := by
  unfold available
  split
  case isFalse hposition =>
    have hundrained : r.undrained ≠ [] := by
      have := h.position
      rw [undrained, Ne, List.drop_eq_nil_iff]
      omega
    exact .got rfl hundrained ⟨rfl, rfl, rfl⟩
  case isTrue hdrained =>
    have hnil : r.undrained = [] := by rw [undrained, hdrained, List.drop_length]
    have hnexts := nexts r
    have hcount := blocksRead_nextBlock r
    split
    · next e r' heq =>
      refine .failed ?_ ?_
      · rw [deliverable, hnil, outlook_failed heq]
        rfl
      · rw [outlook_failed heq]
    next result r' heq =>
    rw [heq] at hnexts hcount
    cases hnexts with
    | ended _ held position =>
      have hheld : r'.undrained = [] := by rw [undrained, held, List.drop_nil]
      rw [hheld]
      refine .ended ?_ ?_ ?_ hheld heq
      · rw [deliverable, hnil, outlook_ended heq]
        rfl
      · rw [outlook_ended heq]
      · rw [expected, outlook_ended heq]
        exact hcount
    | @got block _ _ held position =>
      have hheld : r'.undrained = block := undrained_start held position
      rw [hheld]
      refine .got hheld (nextBlock_ne_nil heq) ⟨?_, ?_, ?_⟩
      · rw [deliverable, deliverable, hnil, hheld, outlook_got heq]
        simp [Outlook.blocks]
      · rw [outlook_got heq]
      · rw [expected, expected, outlook_got heq, List.length_cons, hcount, counted]
        omega

/-- Some bytes of the current block are handed out, and then the others and what is behind them. -/
theorem take_deliverable (r : Reader) (count : Nat) :
    r.deliverable.take count = r.undrained.take count ++
      (r.deliverable.drop (min r.undrained.length count)).take
        (count - min r.undrained.length count) := by
  have hfits : min r.undrained.length count ≤ r.undrained.length := Nat.min_le_left _ _
  have hsplit : count = min r.undrained.length count + (count - min r.undrained.length count) := by
    omega
  have hfront : r.deliverable.take (min r.undrained.length count) = r.undrained.take count := by
    rw [deliverable, List.take_append_of_le_length hfits, List.take_eq_take_iff]
    omega
  rw [← hfront, ← List.take_add, ← hsplit]

/-- What is left after a read that got all it was asked for. -/
structure Takes (r : Reader) (count : Nat) (r' : Reader) : Prop where
  deliverable : r'.deliverable = r.deliverable.drop count
  ending : r'.outlook.ending = r.outlook.ending
  expected : r'.expected = r.expected
  placed : r'.Placed

/-- The reader after some of what is in view was handed out. -/
theorem takes_advance (hkeeps : Keeps r r') (hplaced : r'.Placed) (hne : r'.undrained ≠ [])
    {count : Nat} (hcount : count ≤ r'.undrained.length) :
    Takes r count { r' with position := r'.position + count } where
  deliverable := by rw [deliverable_advance hcount, hkeeps.deliverable]
  ending := by rw [outlook_moved, hkeeps.ending]
  expected := by rw [expected_moved, hkeeps.expected]
  placed := invariant_placed.advance hplaced hne hcount

theorem Takes.trans {r'' : Reader} {count count' : Nat} (h : Takes r count r')
    (h' : Takes r' count' r'') : Takes r (count + count') r'' where
  deliverable := by rw [h'.deliverable, h.deliverable, List.drop_drop]
  ending := h'.ending.trans h.ending
  expected := h'.expected.trans h.expected
  placed := h'.placed

/-- A read gets what it is asked for if there is as much before the end or the failure. -/
theorem drawOnto_enough (gathered : Array UInt8) {count : Nat} (h : r.Placed)
    (hcount : count ≤ r.deliverable.length) :
    ∃ r', drawOnto gathered r count =
        ⟨gathered.toList ++ r.deliverable.take count, .ok (), r'⟩ ∧ Takes r count r' := by
  fun_induction drawOnto gathered r count with
  | case1 gathered r => exact ⟨r, by simp, ⟨rfl, rfl, rfl, h⟩⟩
  | case2 gathered r count hpos e r' heq =>
    have hviews := views h
    rw [heq] at hviews
    cases hviews with
    | failed nothing =>
      rw [nothing, List.length_nil] at hcount
      omega
  | case3 gathered r count hpos r' heq =>
    have hviews := views h
    rw [heq] at hviews
    cases hviews with
    | ended nothing =>
      rw [nothing, List.length_nil] at hcount
      omega
    | got _ something => exact absurd rfl something
  | case4 gathered r count hpos chunk r' heq hchunk hless ih =>
    have hviews := views h
    have hplaced := invariant_placed.available h
    rw [heq] at hviews hplaced
    cases hviews with
    | ended => exact absurd rfl hchunk
    | got held something keeps =>
      subst held
      have htakes := takes_advance keeps hplaced hchunk (Nat.min_le_left _ count)
      obtain ⟨r'', hdraw, htakes'⟩ := ih htakes.placed
        (by rw [htakes.deliverable, List.length_drop]; omega)
      refine ⟨r'', ?_, ?_⟩
      · rw [hdraw, ← keeps.deliverable, take_deliverable r' count, htakes.deliverable,
          keeps.deliverable]
        simp
      · have hsum := htakes.trans htakes'
        rwa [Nat.add_sub_cancel' (Nat.min_le_right _ _)] at hsum

/-- Where `r` has come to its end. A reader that goes on from `r`, and so has all invariants that
`r` has, was asked for a block and found none. -/
structure Ends (r r' : Reader) : Prop where
  count : r'.blocksRead = r.expected
  last : ∀ P : Reader → Prop, Invariant P → P r → ∃ r₁, P r₁ ∧ r₁.nextBlock = (.ok none, r')

/-- A read that is asked for more takes all there is, and ends as the outlook says. -/
theorem drawOnto_short (gathered : Array UInt8) {count : Nat} (h : r.Placed)
    (hcount : r.deliverable.length < count) :
    ∃ r', drawOnto gathered r count =
        ⟨gathered.toList ++ r.deliverable, r.outlook.ending, r'⟩ ∧
      (r.outlook.ending = .ok () → Ends r r') := by
  fun_induction drawOnto gathered r count with
  | case1 => exact absurd hcount (Nat.not_lt_zero _)
  | case2 gathered r count hpos e r' heq =>
    have hviews := views h
    rw [heq] at hviews
    cases hviews with
    | failed nothing ending =>
      exact ⟨r', by rw [nothing, ending, List.append_nil], by simp [ending]⟩
  | case3 gathered r count hpos r' heq =>
    have hviews := views h
    rw [heq] at hviews
    cases hviews with
    | ended nothing ending count _ next =>
      exact ⟨r', by rw [nothing, ending, List.append_nil],
        fun _ => ⟨count, fun P _ hP => ⟨r, hP, next⟩⟩⟩
    | got _ something => exact absurd rfl something
  | case4 gathered r count hpos chunk r' heq hchunk hless ih =>
    have hviews := views h
    have hplaced := invariant_placed.available h
    rw [heq] at hviews hplaced
    cases hviews with
    | ended => exact absurd rfl hchunk
    | got held something keeps =>
      subst held
      have htakes := takes_advance keeps hplaced hchunk (Nat.min_le_left _ count)
      have hfits : r'.undrained.length ≤ r.deliverable.length := by
        rw [← keeps.deliverable, deliverable, List.length_append]
        omega
      obtain ⟨r'', hdraw, hlast⟩ := ih htakes.placed
        (by rw [htakes.deliverable, List.length_drop]; omega)
      rw [htakes.ending] at hlast
      have htake : r'.undrained.take count = r'.undrained := List.take_of_length_le (by omega)
      have hmin : min r'.undrained.length count = r'.undrained.length := by omega
      refine ⟨r'', ?_, fun hending => ?_⟩
      · rw [hdraw, htakes.ending, htakes.deliverable, htake, hmin, ← keeps.deliverable, deliverable,
          List.drop_left]
        simp
      · obtain ⟨hblocks, hnone⟩ := hlast hending
        refine ⟨hblocks.trans htakes.expected, fun P hinvariant hP => ?_⟩
        have hview := hinvariant.available hP
        rw [heq] at hview
        exact hnone P hinvariant (hinvariant.advance hview hchunk (Nat.min_le_left _ _))

end Reader

end FramedStream
