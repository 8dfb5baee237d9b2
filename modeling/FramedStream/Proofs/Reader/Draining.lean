import FramedStream.Proofs.Reader.Outlook
import FramedStream.Proofs.Reader.Payload

/-!
# Draining blocks

What a call takes off the blocks it hands out, marks as handed out, or gives up for the next block
(`Call.taken`), and what it decodes is what comes behind them (`Call.decoded`). As long as no sum of
a place and a count exceeds a word, nothing is taken twice: what was undrained and what was decoded
is what has been taken and what is undrained still.

* `Spends` is this balance, `spends_draw` that of a read, which goes from block to block, and
  `spends_call` that of any call;
* `undrained_perform` is the balance of a session, also of one where sums are checked, which then
  goes the same way (`checked?_of_allFit`);
* `position_consume` says where a count leads that fits, and `position_consume_wrapped` where one
  leads that does not: back into bytes that have been taken already. No count of up to
  `2 ^ 64 - 1 - maxBlockSize` does that (`fits_of_le`).
-/

namespace FramedStream

namespace Reader

variable {r r' r'' : Reader}

/-! ### Places in a block -/

/-- A reader that is not beyond its block, which is one that a codec may give. -/
structure InBlock (r : Reader) : Prop where
  position : r.position ≤ r.block.length
  bounded : r.block.length ≤ maxBlockSize

theorem invariant_inBlock : Invariant InBlock where
  nextBlock := by
    intro r h
    have hnexts := nexts r
    generalize hnext : r.nextBlock = outcome at hnexts
    cases hnexts with
    | refused => exact h
    | got _ held position =>
      refine ⟨position ▸ Nat.zero_le _, ?_⟩
      rw [held]
      exact (gives_nextBlock hnext).bounded
    | ended _ held position | failed _ held position =>
      refine ⟨position ▸ Nat.zero_le _, ?_⟩
      rw [held]
      exact Nat.zero_le _
  moved h hposition := ⟨hposition, h.bounded⟩

theorem inBlock_ofParts {source : Source} {header : Header} {codec : Codec}
    (h : ofParts source header codec = .ok r) : r.InBlock := by
  unfold ofParts at h
  split at h
  · cases h
  · cases h
    exact ⟨Nat.le_refl _, Nat.zero_le _⟩

theorem fits_of_le (h : r.InBlock) {count : Nat} (hcount : count ≤ 2 ^ 64 - 1 - maxBlockSize) :
    r.Fits count := by
  have hposition := h.position
  have hbounded := h.bounded
  unfold Fits
  simp only [maxBlockSize] at hcount hbounded
  omega

theorem position_consume {count : Nat} (h : r.Fits count) :
    (r.consume count).position = min (r.position + count) r.block.length := by
  rw [consume, Nat.mod_eq_of_lt h]

/-- A sum that exceeds a word is one of less than the place itself. -/
theorem position_consume_wrapped (hr : r.InBlock) {count : Nat} (hcount : count < 2 ^ 64)
    (h : ¬r.Fits count) : (r.consume count).position + 2 ^ 64 = r.position + count := by
  have hposition := hr.position
  have hbounded := hr.bounded
  unfold Fits at h
  simp only [maxBlockSize] at hbounded
  have hsum : (r.position + count) % 2 ^ 64 = r.position + count - 2 ^ 64 := by
    rw [Nat.mod_eq_sub_mod (by omega), Nat.mod_eq_of_lt (by omega)]
  rw [consume, hsum]
  show min (r.position + count - 2 ^ 64) r.block.length + 2 ^ 64 = _
  omega

/-- Bytes that were taken already are undrained again. -/
theorem undrained_wrapped (hr : r.InBlock) {count : Nat} (hcount : count < 2 ^ 64)
    (h : ¬r.Fits count) :
    ∃ again ≠ [], (r.consume count).undrained = again ++ r.undrained := by
  have hplace := position_consume_wrapped hr hcount h
  have hposition := hr.position
  have hback : (r.consume count).position ≤ r.position := by omega
  refine ⟨(r.block.drop (r.consume count).position).take
    (r.position - (r.consume count).position), ?_, ?_⟩
  · rw [← List.length_pos_iff, List.length_take, List.length_drop]
    omega
  · have hrest : r.undrained = (r.block.drop (r.consume count).position).drop
        (r.position - (r.consume count).position) := by
      rw [undrained, List.drop_drop, Nat.add_sub_cancel' hback]
    rw [hrest, List.take_append_drop]
    rfl

/-! ### The balance -/

/-- Some blocks were decoded and some bytes taken between two readers: what was undrained and what
was decoded is what was taken and what is undrained. -/
structure Spends (r : Reader) (blocks : List Bytes) (taken : Bytes) (r' : Reader) : Prop where
  balance : r.undrained ++ blocks.flatten = taken ++ r'.undrained
  count : r'.blocksRead = r.blocksRead + blocks.length
  front : blocks <+: r.outlook.blocks

theorem Spends.refl (r : Reader) : Spends r [] [] r :=
  ⟨by simp, rfl, List.nil_prefix⟩

/-- A reader that goes on finds what the one before has left to it. -/
theorem Spends.trans {blocks blocks' : List Bytes} {taken taken' : Bytes}
    (h : Spends r blocks taken r') (hmore : r.outlook.blocks = blocks ++ r'.outlook.blocks)
    (h' : Spends r' blocks' taken' r'') :
    Spends r (blocks ++ blocks') (taken ++ taken') r'' where
  balance := by
    rw [List.flatten_append, ← List.append_assoc, h.balance, List.append_assoc, h'.balance,
      List.append_assoc]
  count := by rw [h'.count, h.count, List.length_append, Nat.add_assoc]
  front := by
    rw [hmore]
    exact (List.prefix_append_right_inj blocks).2 h'.front

/-- Some of what is in view is taken. -/
theorem spends_advance (r : Reader) (count : Nat) :
    Spends r [] (r.undrained.take count)
      { r with position := r.position + min r.undrained.length count } where
  balance := by
    have hfront : r.undrained.take count = r.undrained.take (min r.undrained.length count) := by
      rw [List.take_eq_take_iff]
      omega
    rw [undrained_advance, hfront, List.take_append_drop, List.flatten_nil, List.append_nil]
  count := rfl
  front := List.nil_prefix

/-- What a block still holds is given up for the next one. -/
theorem spends_nextBlock (h : r.Placed) :
    ∃ blocks, Spends r blocks r.undrained r.nextBlock.2 ∧
      ∀ block, r.nextBlock.1 = .ok (some block) →
        r.outlook.blocks = blocks ++ r.nextBlock.2.outlook.blocks := by
  have hcount := blocksRead_nextBlock r
  have hnexts := nexts r
  generalize hnext : r.nextBlock = outcome at hcount hnexts
  cases hnexts with
  | refused broken =>
    have hnothing : r.undrained = [] := by rw [undrained, (h.sound broken).block, List.drop_nil]
    exact ⟨[], ⟨by rw [hnothing]; rfl, rfl, List.nil_prefix⟩, fun _ hblock => by cases hblock⟩
  | @got block r' _ held position =>
    have hmore : r.outlook.blocks = [block] ++ r'.outlook.blocks := by
      rw [outlook_got hnext]
      rfl
    refine ⟨[block], ⟨?_, hcount, ?_⟩, fun _ _ => hmore⟩
    · rw [undrained_start held position, List.flatten_singleton]
    · rw [hmore]
      exact List.prefix_append _ _
  | ended _ held | failed _ held =>
    refine ⟨[], ⟨?_, hcount, List.nil_prefix⟩, fun _ hblock => by cases hblock⟩
    rw [List.flatten_nil, undrained, undrained, held, List.drop_nil]

/-- A view takes nothing, though it may have to decode a block. -/
theorem spends_available (h : r.Placed) :
    ∃ blocks, Spends r blocks [] r.available.2 ∧
      ∀ chunk, r.available.1 = .ok chunk → chunk ≠ [] →
        r.outlook.blocks = blocks ++ r.available.2.outlook.blocks := by
  by_cases hdrained : r.position = r.block.length
  · have hnothing : r.undrained = [] := by rw [undrained, hdrained, List.drop_length]
    have hnexts := nexts r
    obtain ⟨blocks, hspends, hmore⟩ := spends_nextBlock h
    rw [hnothing] at hspends
    rw [available, if_pos hdrained]
    generalize r.nextBlock = outcome at hnexts hspends hmore
    cases hnexts with
    | refused | failed => exact ⟨blocks, hspends, fun _ hchunk => by cases hchunk⟩
    | got => exact ⟨blocks, hspends, fun _ _ _ => hmore _ rfl⟩
    | ended _ held =>
      refine ⟨blocks, hspends, fun chunk hchunk hne => ?_⟩
      cases hchunk
      exact absurd (by rw [undrained, held, List.drop_nil]) hne
  · rw [available, if_neg hdrained]
    exact ⟨[], Spends.refl r, fun _ _ _ => rfl⟩

/-- A read takes what it gathers, however it ends. -/
theorem spends_drawOnto (gathered : Array UInt8) (count : Nat) (h : r.Placed) :
    ∃ blocks taken, (drawOnto gathered r count).bytes = gathered.toList ++ taken ∧
      Spends r blocks taken (drawOnto gathered r count).reader := by
  fun_induction drawOnto gathered r count with
  | case1 gathered r => exact ⟨[], [], (List.append_nil _).symm, Spends.refl r⟩
  | case2 gathered r count hcount e r' heq =>
    obtain ⟨blocks, hspends, -⟩ := spends_available h
    rw [heq] at hspends
    exact ⟨blocks, [], (List.append_nil _).symm, hspends⟩
  | case3 gathered r count hcount r' heq =>
    obtain ⟨blocks, hspends, -⟩ := spends_available h
    rw [heq] at hspends
    exact ⟨blocks, [], (List.append_nil _).symm, hspends⟩
  | case4 gathered r count hcount chunk r' heq hchunk hless ih =>
    obtain ⟨blocks, hspends, hmore⟩ := spends_available h
    have hplaced := invariant_placed.available h
    rw [heq] at hspends hmore hplaced
    obtain rfl := available_eq_undrained heq
    have hadvanced := invariant_placed.advance hplaced hchunk (Nat.min_le_left _ count)
    obtain ⟨blocks', taken, hbytes, hspends'⟩ := ih hadvanced
    refine ⟨blocks ++ blocks', r'.undrained.take count ++ taken, ?_, ?_⟩
    · rw [hbytes]
      simp
    · have hview := hspends.trans (hmore _ rfl hchunk) (spends_advance r' count)
      rw [List.append_nil, List.nil_append] at hview
      refine hview.trans ?_ hspends'
      rw [outlook_moved r' _]
      exact hmore _ rfl hchunk

theorem spends_draw (count : Nat) (h : r.Placed) :
    ∃ blocks, Spends r blocks (r.draw count).bytes (r.draw count).reader := by
  obtain ⟨blocks, taken, hbytes, hspends⟩ := spends_drawOnto #[] count h
  refine ⟨blocks, ?_⟩
  have htaken : (r.draw count).bytes = taken := hbytes
  rwa [htaken]

/-! ### Calls -/

/-- The bytes that a call takes off the blocks: what it hands out or would have handed out if it had
not failed, what it marks as handed out, and what it gives up. -/
def Call.taken (r : Reader) : Call → Bytes
  | .nextBlock => r.undrained
  | .readBytes buffer offset length =>
      if buffer.length < offset + length then [] else (r.draw length).bytes
  | .readElements t array offset count =>
      if array.length < offset + count then [] else (r.draw (count * t.width)).bytes
  | .read count => (r.draw count).bytes
  | .fillBuf => []
  | .consume count => r.undrained.take count

/-- The blocks that a call decodes: of those that are to come as many as are counted by it. -/
def Call.decoded (r : Reader) (c : Call) : List Bytes :=
  r.outlook.blocks.take ((c.perform r).2.blocksRead - r.blocksRead)

/-- A count that fits leads as far as the block goes. -/
theorem consume_eq (h : r.Placed) {count : Nat} (hfits : r.Fits count) :
    r.consume count = { r with position := r.position + min r.undrained.length count } := by
  have hposition := h.position
  have hlength : r.undrained.length = r.block.length - r.position := List.length_drop
  rw [consume, Nat.mod_eq_of_lt hfits]
  congr 1
  omega

theorem spends_readBytes (h : r.Placed) (buffer : Bytes) (offset length : Nat) :
    ∃ blocks, Spends r blocks ((Call.readBytes buffer offset length).taken r)
      (r.readBytes buffer offset length).reader := by
  simp only [Call.taken, readBytes]
  split
  · exact ⟨[], Spends.refl r⟩
  · exact spends_draw length h

/-- The balance of a call. -/
theorem spends_call (h : r.Placed) {c : Call} (hc : c.Fits r) :
    Spends r (c.decoded r) (c.taken r) (c.perform r).2 := by
  have hcall : ∃ blocks, Spends r blocks (c.taken r) (c.perform r).2 := by
    cases c with
    | nextBlock =>
      obtain ⟨blocks, hspends, -⟩ := spends_nextBlock h
      exact ⟨blocks, hspends⟩
    | readBytes buffer offset length => exact spends_readBytes h buffer offset length
    | readElements t array offset count =>
      show ∃ blocks, Spends r blocks _ (r.readElements t array offset count).reader
      by_cases hrange : offset + count ≤ array.length
      · rw [readElements_eq r t hrange, Call.taken, if_neg (Nat.not_lt.2 hrange)]
        have hread := spends_readBytes h (t.bytesOf array) (offset * t.width) (count * t.width)
        rwa [Call.taken, if_neg (Nat.not_lt.2 (byteRange_fits t hrange))] at hread
      · have hnone : t.byteRange? array.length offset count = none := if_neg hrange
        rw [readElements, hnone, Call.taken, if_pos (Nat.not_le.1 hrange)]
        exact ⟨[], Spends.refl r⟩
    | read count => exact spends_draw count h
    | fillBuf =>
      obtain ⟨blocks, hspends, -⟩ := spends_available h
      refine ⟨blocks, ?_⟩
      show Spends r blocks [] r.fillBuf.2
      rwa [fillBuf_snd]
    | consume count =>
      refine ⟨[], ?_⟩
      show Spends r [] (r.undrained.take count) (r.consume count)
      rw [consume_eq h hc]
      exact spends_advance r count
  obtain ⟨blocks, hspends⟩ := hcall
  have hdecoded : c.decoded r = blocks := by
    rw [Call.decoded, hspends.count, Nat.add_sub_cancel_left]
    exact (List.prefix_iff_eq_take.1 hspends.front).symm
  rwa [hdecoded]

/-- What a call hands out it has taken, and if it fails it hands out nothing. -/
theorem delivered_taken (r : Reader) (c : Call) :
    c.delivered r = c.taken r ∨ c.delivered r = [] := by
  cases c with
  | nextBlock | readElements | fillBuf => exact .inr rfl
  | consume => exact .inl rfl
  | read count =>
    simp only [Call.delivered, Call.taken, read]
    cases (r.draw count).result with
    | ok => exact .inl rfl
    | error => exact .inr rfl
  | readBytes buffer offset length =>
    by_cases hrange : buffer.length < offset + length
    · right
      simp only [Call.delivered, readBytes, if_pos hrange]
    simp only [Call.delivered, Call.taken, readBytes, if_neg hrange]
    cases (r.draw length).result with
    | error => exact .inr rfl
    | ok =>
      have hoffset : (buffer.take offset).length = offset := by
        rw [List.length_take]
        omega
      left
      show List.take _ (List.drop _ _) = _
      rw [List.append_assoc, List.drop_left' hoffset, List.take_left]

/-! ### Sessions -/

/-- The bytes that calls take, a piece for each call. -/
def taken (r : Reader) : List Call → List Bytes
  | [] => []
  | c :: cs => c.taken r :: (c.perform r).2.taken cs

/-- The bytes that calls hand out, a piece for each call. -/
def handed (r : Reader) : List Call → List Bytes
  | [] => []
  | c :: cs => c.delivered r :: (c.perform r).2.handed cs

/-- The blocks that calls decode. -/
def decoded (r : Reader) : List Call → List Bytes
  | [] => []
  | c :: cs => c.decoded r ++ (c.perform r).2.decoded cs

/-- The balance of a session. -/
theorem undrained_perform (h : r.Placed) {calls : List Call} (hcalls : r.AllFit calls) :
    r.undrained ++ (r.decoded calls).flatten =
      (r.taken calls).flatten ++ (r.perform calls).2.undrained := by
  induction calls generalizing r with
  | nil =>
    rw [decoded, taken, List.flatten_nil, List.append_nil, List.nil_append]
    rfl
  | cons c calls ih =>
    obtain ⟨hc, hrest⟩ := hcalls
    have hbalance := (spends_call h hc).balance
    have hlater := ih (invariant_placed.perform h c) hrest
    rw [decoded, taken, perform_cons, List.flatten_append, List.flatten_cons, ← List.append_assoc,
      hbalance, List.append_assoc, hlater, List.append_assoc]

theorem handed_taken (r : Reader) (calls : List Call) :
    List.Forall₂ (fun handed taken => handed = taken ∨ handed = []) (r.handed calls)
      (r.taken calls) := by
  induction calls generalizing r with
  | nil => exact .nil
  | cons c calls ih => exact .cons (delivered_taken r c) (ih _)

/-- Counts that leave room for a whole block always fit. -/
theorem allFit_of_le (h : r.InBlock) {calls : List Call}
    (hcalls : ∀ count, Call.consume count ∈ calls → count ≤ 2 ^ 64 - 1 - maxBlockSize) :
    r.AllFit calls := by
  induction calls generalizing r with
  | nil => trivial
  | cons c calls ih =>
    refine ⟨?_, ih (invariant_inBlock.perform h c) fun count hmem =>
      hcalls count (List.mem_cons_of_mem c hmem)⟩
    cases c with
    | consume count => exact fits_of_le h (hcalls count List.mem_cons_self)
    | _ => trivial

/-- A view shows what is undrained then. -/
theorem undrained_fillBuf {view : Bytes} (h : r.fillBuf = (.ok view, r')) :
    r'.undrained = view := by
  unfold fillBuf at h
  split at h
  · next hview =>
    cases h
    exact (available_eq_undrained hview).symm
  · cases h

/-- At any point of a session with a reader, whatever its source and codec do, and whether sums are
checked or wrap around. To mark bytes as handed out moves the place in the block by their count, or
to the end of the block if there are fewer, as long as the sum of place and count fits a word. If it
does not fit, it is a trap where sums are checked; where they wrap around, the place goes back, and
bytes that were taken already are undrained again. From here on, as long as all counts fit, checked
sums make no difference and nothing is taken twice: the bytes that calls take, one piece after the
other, and those that are undrained then, are the bytes that were undrained here and those of the
blocks decoded since. What is handed out is among the bytes taken, each piece in its place, and what
is in view is undrained. Calls with a count that does not fit end in a trap if sums are checked. -/
theorem drained_once_in_words {source : Source} {header : Header} {codec : Codec} {r₀ : Reader}
    (hopen : ofParts source header codec = .ok r₀) (before : List Call) :
    ∃ r, (r₀.perform before).2 = r ∧ r.InBlock ∧
      (∀ replies r', r₀.checked? before = some (replies, r') →
        r' = r ∧ (replies, r') = r₀.perform before) ∧
      (∀ count < 2 ^ 64,
        (r.Fits count → r.consume? count = some (r.consume count) ∧
          (r.consume count).position = min (r.position + count) r.block.length) ∧
        (¬r.Fits count → r.consume? count = none ∧
          (r.consume count).position + 2 ^ 64 = r.position + count ∧
          ∃ again ≠ [], (r.consume count).undrained = again ++ r.undrained)) ∧
      ∀ calls,
        (r.AllFit calls →
          r.checked? calls = some (r.perform calls) ∧
          r.undrained ++ (r.decoded calls).flatten =
            (r.taken calls).flatten ++ (r.perform calls).2.undrained ∧
          List.Forall₂ (fun handed taken => handed = taken ∨ handed = []) (r.handed calls)
            (r.taken calls) ∧
          ∀ view r', (r.perform calls).2.fillBuf = (.ok view, r') → r'.undrained = view) ∧
        (¬r.AllFit calls → r.checked? calls = none) := by
  have hplaced := invariant_placed.run (placed_ofParts hopen) before
  have hinBlock := invariant_inBlock.run (inBlock_ofParts hopen) before
  refine ⟨_, rfl, hinBlock, fun replies r' hchecked => ?_,
    fun count hcount => ⟨fun hfits => ?_, fun hfits => ?_⟩,
    fun calls => ⟨fun hcalls => ?_, checked?_eq_none⟩⟩
  · have hsame := perform_of_checked? hchecked
    exact ⟨congrArg Prod.snd hsame, hsame⟩
  · exact ⟨consume?_of_fits hfits, position_consume hfits⟩
  · exact ⟨consume?_eq_none hfits, position_consume_wrapped hinBlock hcount hfits,
      undrained_wrapped hinBlock hcount hfits⟩
  · exact ⟨checked?_of_allFit hcalls, undrained_perform hplaced hcalls, handed_taken _ calls,
      fun view r' hview => undrained_fillBuf hview⟩

/-- Three bytes and two more. One is read, and then as many are marked as handed out as always fit,
which are the two that the block still holds. -/
theorem drained_once_in_words_largest :
    let calls := [Call.read 1, .consume (2 ^ 64 - 1 - maxBlockSize), .fillBuf, .read 1]
    ∃ r, ofParts
        (.ofBytes (record (Payload.encode 3 [1, 2, 3]) ++ record (Payload.encode 2 [4, 5])))
        (.current 0) .passthrough = .ok r ∧
      r.InBlock ∧ r.AllFit calls ∧ r.checked? calls = some (r.perform calls) ∧
      r.taken calls = [[1], [2, 3], [], [4]] ∧
      (r.perform calls).2.undrained = [5] ∧ (r.decoded calls).flatten = [1, 2, 3, 4, 5] ∧
      List.Forall₂ (fun handed taken => handed = taken ∨ handed = []) (r.handed calls)
        (r.taken calls) := by
  intro calls
  obtain ⟨r, hopen⟩ : ∃ r, ofParts (.ofBytes (record (Payload.encode 3 [1, 2, 3]) ++
      record (Payload.encode 2 [4, 5]))) (.current 0) .passthrough = .ok r := ⟨_, rfl⟩
  obtain ⟨r', hr', hinBlock, -, -, hlater⟩ := drained_once_in_words hopen []
  obtain rfl : r = r' := hr'
  have hfit : r.AllFit calls := allFit_of_le hinBlock fun count hmem => by
    have hcount : count = 2 ^ 64 - 1 - maxBlockSize := by simpa [calls] using hmem
    exact hcount.le
  have htaken : r.taken calls = [[1], [2, 3], [], [4]] := by
    cases hopen
    decide +kernel
  have hundrained : (r.perform calls).2.undrained = [5] := by
    cases hopen
    decide +kernel
  obtain ⟨hchecked, hbalance, hhanded, -⟩ := (hlater calls).1 hfit
  have hstart : r.undrained = [] := by
    cases hopen
    rfl
  rw [htaken, hundrained, hstart] at hbalance
  exact ⟨r, hopen, hinBlock, hfit, hchecked, htaken, hundrained, hbalance, hhanded⟩

/-- Two of three bytes are read. To mark as many bytes as a word can count is a trap where sums are
checked, and so the session never comes to the next read. Where they wrap around, it leads back by
one, so that the second byte is read again. -/
theorem consumed_byte_comes_again :
    ∃ r, ofParts (.ofBytes (record (Payload.encode 3 [1, 2, 3]))) (.current 0) .passthrough =
        .ok r ∧
      (r.read 2).1 = .ok [1, 2] ∧
      r.checked? [.read 2, .consume (2 ^ 64 - 1), .read 2] = none ∧
      let r' := (r.read 2).2
      r'.consume? (2 ^ 64 - 1) = none ∧
        (r'.consume (2 ^ 64 - 1)).position ≠ min (r'.position + (2 ^ 64 - 1)) r'.block.length ∧
        (r'.consume (2 ^ 64 - 1)).position < r'.position ∧
        ((r'.consume (2 ^ 64 - 1)).read 2).1 = .ok [2, 3] := by
  obtain ⟨r, hopen⟩ : ∃ r, ofParts (.ofBytes (record (Payload.encode 3 [1, 2, 3]))) (.current 0)
      .passthrough = .ok r := ⟨_, rfl⟩
  have htrap : ¬(r.read 2).2.Fits (2 ^ 64 - 1) := by
    cases hopen
    unfold Fits
    decide +kernel
  refine ⟨r, hopen, ?_, checked?_eq_none fun hfit => htrap hfit.2.1, consume?_eq_none htrap, ?_, ?_,
    ?_⟩
  all_goals cases hopen
  all_goals decide +kernel

end Reader

end FramedStream
