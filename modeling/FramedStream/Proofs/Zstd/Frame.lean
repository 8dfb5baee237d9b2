import FramedStream.Proofs.Zstd.Block

/-!
# Frames decode to what was encoded

* `decodeBlocks_encodeBlocks`: blocks are decoded one after the other; whether that is all depends
  on the mark of the last of them;
* `decodeBlocks_encodeContent`: so are the chunks of the content. The blocks of a chunk are those of
  its factoring only if they are smaller than the chunk, which is why none is too large;
* `decode_encode`: the frame of some bytes decodes to them, in just the room that they need;
* `length_encode_le`: it stays within `maxEncodedLength`.
-/

namespace FramedStream.Zstd

open Bytes (toNatLE ofNatLE split?)

/-! ### Series of blocks -/

theorem decodeBlocks_of_decodeBlock {bounds : Bounds} {blockMax : Nat} {s s' : FrameState}
    {isLast : Bool} {bytes rest : Bytes}
    (h : decodeBlock bounds blockMax s bytes = .ok (s', isLast, rest)) :
    decodeBlocks bounds blockMax s bytes =
      if isLast then .ok (s'.out, rest) else decodeBlocks bounds blockMax s' rest := by
  rw [decodeBlocks]
  split
  · next heq => rw [h] at heq; cases heq
  · next heq => rw [h] at heq; cases heq; rfl
  · next heq => rw [h] at heq; cases heq; rfl

/-- Blocks that may stand one after the other, the first one after `made` bytes. -/
def BlocksFit (blockMax : Nat) : (made : Nat) → List Block → Prop
  | _, [] => True
  | made, block :: blocks =>
      block.Fits blockMax made ∧ BlocksFit blockMax (made + block.size) blocks

/-- The first of several blocks. -/
theorem encodeBlocks_cons (thenLast : Bool) (block : Block) {blocks : List Block}
    (hne : blocks ≠ []) :
    encodeBlocks thenLast (block :: blocks) =
      block.encode false ++ encodeBlocks thenLast blocks := by
  cases blocks with
  | nil => exact absurd rfl hne
  | cons next blocks => rfl

/-- Blocks are decoded to what they make, and more blocks are due unless the last one is marked. -/
theorem decodeBlocks_encodeBlocks {bounds : Bounds} {blockMax made : Nat} {s : FrameState}
    {blocks : List Block} (hne : blocks ≠ []) (hfits : BlocksFit blockMax made blocks)
    (hmade : bounds.frameStart + made ≤ s.out.size) (hblockMax : blockMax ≤ maxBlock)
    (hroom : (blocks.foldl Block.expandOnto s.out).size ≤ bounds.room) (thenLast : Bool)
    (rest : Bytes) :
    ∃ s', decodeBlocks bounds blockMax s (encodeBlocks thenLast blocks ++ rest) =
        (if thenLast then .ok (s'.out, rest) else decodeBlocks bounds blockMax s' rest) ∧
      s'.out = blocks.foldl Block.expandOnto s.out := by
  induction blocks generalizing s made with
  | nil => exact absurd rfl hne
  | cons block blocks ih =>
    obtain ⟨hblock, hblocks⟩ := hfits
    rw [List.foldl_cons] at hroom ⊢
    have hfirst := size_le_foldl Block.size_expandOnto (block.expandOnto s.out) blocks
    rw [Block.size_expandOnto] at hfirst
    have hdecode := decodeBlock_encode hblock hmade hblockMax (Nat.le_trans hfirst hroom)
    by_cases hend : blocks = []
    · subst hend
      obtain ⟨s', hdecode, hout⟩ := hdecode thenLast rest
      exact ⟨s', decodeBlocks_of_decodeBlock hdecode, hout⟩
    · obtain ⟨s₁, hdecode, hout⟩ := hdecode false (encodeBlocks thenLast blocks ++ rest)
      rw [← hout] at hroom ⊢
      obtain ⟨s', hrest, hout'⟩ := ih hend hblocks
        (by rw [hout, Block.size_expandOnto]; omega) hroom
      refine ⟨s', ?_, hout'⟩
      rw [encodeBlocks_cons _ _ hend, List.append_assoc, decodeBlocks_of_decodeBlock hdecode]
      exact hrest

/-! ### Chunks -/

theorem blocksOf_ne_nil (f : Factoring) : blocksOf f ≠ [] := by
  rw [blocksOf]
  cases hphrases : f.phrases with
  | nil => simp
  | cons p phrases => simp

/-- The blocks of a factoring make what it stands for. -/
theorem foldl_blocksOf (f : Factoring) (out : Array UInt8) :
    (blocksOf f).foldl Block.expandOnto out = f.phrases.foldl Phrase.expandOnto out ++ f.tail := by
  have hphrases : (f.phrases.map Block.ofPhrase).foldl Block.expandOnto out =
      f.phrases.foldl Phrase.expandOnto out := List.foldl_map
  rw [blocksOf, List.foldl_append, hphrases]
  split
  · next h =>
    rw [Bool.and_eq_true, List.isEmpty_iff] at h
    rw [List.foldl_nil, h.1, Array.appendList_nil]
  · rfl

/-- Blocks are fit for their frame if the phrases are and no block is too large. -/
theorem blocksFit_of_phrasesFit {limits : Limits} {blockMax made : Nat} {phrases : List Phrase}
    {blocks : List Block} (hfits : Factoring.phrasesFit limits made phrases = true)
    (hfar : limits.greatestDistance ≤ maxBlock) (hleast : 3 ≤ limits.leastLength)
    (hsize : ∀ p ∈ phrases, p.size ≤ blockMax ∧
      (encodePhrase p).length ≤ blockMax)
    (hblocks : ∀ made, BlocksFit blockMax made blocks) :
    BlocksFit blockMax made (phrases.map Block.ofPhrase ++ blocks) := by
  induction phrases generalizing made with
  | nil => exact hblocks made
  | cons p phrases ih =>
    rw [Factoring.phrasesFit, Bool.and_eq_true] at hfits
    obtain ⟨hphrase, hrest⟩ := hfits
    obtain ⟨hpos, hnear, hback, hlength⟩ := Phrase.fits_iff.1 hphrase
    obtain ⟨hmakes, hcontent⟩ := hsize p List.mem_cons_self
    exact ⟨⟨hpos, Nat.le_trans hnear hfar, hback, Nat.le_trans hleast hlength, hmakes, hcontent⟩,
      ih hrest fun q hq => hsize q (List.mem_cons_of_mem _ hq)⟩

theorem length_encode_le_encodeBlocks (thenLast : Bool) {block : Block} {blocks : List Block}
    (hmem : block ∈ blocks) :
    (block.encode false).length ≤ (encodeBlocks thenLast blocks).length := by
  have hlength : ∀ (b : Block) (l l' : Bool), (b.encode l).length = (b.encode l').length := by
    intro b l l'
    cases b <;> simp [Block.encode, encodeBlockHeader]
  induction blocks with
  | nil => cases hmem
  | cons first blocks ih =>
    by_cases hend : blocks = []
    · subst hend
      rw [List.mem_singleton] at hmem
      subst hmem
      exact Nat.le_of_eq (hlength _ _ _)
    · rw [encodeBlocks_cons _ _ hend, List.length_append]
      cases hmem with
      | head => exact Nat.le_add_right _ _
      | tail _ hmem => exact Nat.le_trans (ih hmem) (Nat.le_add_left _ _)

theorem three_le_leastLength (level : Int) : 3 ≤ (limits level).leastLength := by
  show 3 ≤ leastCopy level
  unfold leastCopy
  split
  · omega
  split <;> omega

theorem length_encodeBlock_ofPhrase (p : Phrase) (isLast : Bool) :
    ((Block.ofPhrase p).encode isLast).length = 3 + (encodePhrase p).length := by
  simp [Block.encode, encodeBlockHeader]

theorem length_encodeBlock_verbatim (bytes : Bytes) (isLast : Bool) :
    ((Block.verbatim bytes).encode isLast).length = 3 + bytes.length := by
  simp [Block.encode, encodeBlockHeader]

/-- The blocks of a factoring that are together smaller than the chunk. -/
theorem blocksFit_factor {level : Int} {isLast : Bool} {chunk : Bytes} {blockMax : Nat}
    (hchunk : chunk.length ≤ blockMax) (hblockMax : blockMax ≤ maxBlock)
    (hsmaller : (encodeBlocks isLast (blocksOf (factor (limits level) chunk))).length <
      3 + chunk.length) :
    BlocksFit blockMax 0 (blocksOf (factor (limits level) chunk)) := by
  have hlength := congrArg List.length (expand_factor (limits level) chunk)
  rw [Factoring.expand, List.length_append, Array.length_toList] at hlength
  refine blocksFit_of_phrasesFit (valid_factor (limits level) chunk) (Nat.le_refl _)
    (three_le_leastLength level) (fun p hp => ⟨?_, ?_⟩) (fun made => ?_)
  · have hmakes := add_size_le_foldl Phrase.size_expandOnto hp #[]
    rw [Array.size_empty, Nat.zero_add] at hmakes
    omega
  · -- a block is no larger than all of them, and these are smaller than the chunk
    have hmem : Block.ofPhrase p ∈ blocksOf (factor (limits level) chunk) :=
      List.mem_append_left _ (List.mem_map_of_mem hp)
    have hcontent := length_encode_le_encodeBlocks isLast hmem
    rw [length_encodeBlock_ofPhrase] at hcontent
    omega
  · split
    · trivial
    · exact ⟨show _ ≤ _ by omega, trivial⟩

/-- A chunk is a series of blocks that make the chunk. -/
theorem encodeChunk_eq (level : Int) (isLast : Bool) (chunk : Bytes) {blockMax : Nat}
    (hchunk : chunk.length ≤ blockMax) (hblockMax : blockMax ≤ maxBlock) :
    ∃ blocks, encodeChunk (limits level) isLast chunk = encodeBlocks isLast blocks ∧
      blocks ≠ [] ∧ BlocksFit blockMax 0 blocks ∧
      ∀ out, blocks.foldl Block.expandOnto out = out ++ chunk := by
  rw [encodeChunk]
  split
  · next hsmaller =>
    rw [length_encodeBlock_verbatim] at hsmaller
    refine ⟨_, rfl, blocksOf_ne_nil _, blocksFit_factor hchunk hblockMax hsmaller, fun out => ?_⟩
    -- copies reach back into their own chunk only, so what came before it does not matter
    have hexpand := expand_factor (limits level) chunk
    have hfits : Factoring.phrasesFit (limits level) (#[] : Array UInt8).size
        (factor (limits level) chunk).phrases = true := valid_factor (limits level) chunk
    have hbefore := Factoring.foldl_expandOnto_append out hfits
    rw [Array.append_empty] at hbefore
    apply Array.toList_inj.1
    rw [foldl_blocksOf, hbefore, Array.toList_appendList, Array.toList_append, List.append_assoc,
      Array.toList_appendList]
    exact congrArg (out.toList ++ ·) hexpand
  · exact ⟨[.verbatim chunk], rfl, List.cons_ne_nil _ _,
      ⟨Nat.le_trans hchunk hblockMax, trivial⟩, fun _ => rfl⟩

/-- The content of a frame is decoded chunk by chunk. -/
theorem decodeBlocks_encodeContent (level : Int) (bounds : Bounds) (s : FrameState)
    {blockMax : Nat} {content : Bytes} (hcontent : min content.length maxBlock ≤ blockMax)
    (hstart : bounds.frameStart ≤ s.out.size) (hblockMax : blockMax ≤ maxBlock)
    (hroom : s.out.size + content.length ≤ bounds.room) (rest : Bytes) :
    decodeBlocks bounds blockMax s (encodeContent (limits level) content ++ rest) =
      .ok (s.out ++ content, rest) := by
  fun_induction encodeContent (limits level) content generalizing s with
  | case1 content hlarge ih =>
    -- a chunk that is not the last leaves the frame open for the others
    have htake : (content.take maxBlock).length = maxBlock := by
      rw [List.length_take]
      omega
    have hsplit := List.take_append_drop maxBlock content
    obtain ⟨blocks, hchunk, hne, hfits, hmakes⟩ :=
      encodeChunk_eq level false (content.take maxBlock) (by omega) hblockMax
    have hsize : (s.out ++ content.take maxBlock).size + (content.drop maxBlock).length =
        s.out.size + content.length := by
      rw [size_append_bytes, Nat.add_assoc, ← List.length_append, hsplit]
    obtain ⟨s', hdecode, hout⟩ := decodeBlocks_encodeBlocks hne hfits (by omega) hblockMax
      (by rw [hmakes]; omega) false (encodeContent (limits level) (content.drop maxBlock) ++ rest)
    rw [hmakes] at hout
    rw [hchunk, List.append_assoc, hdecode, if_neg Bool.false_ne_true,
      ih s' (by omega) (by rw [hout, size_append_bytes]; omega) (by rw [hout]; omega), hout]
    have hboth : s.out ++ content.take maxBlock ++ content.drop maxBlock = s.out ++ content := by
      apply Array.toList_inj.1
      rw [Array.toList_appendList, Array.toList_appendList, List.append_assoc, hsplit,
        Array.toList_appendList]
    rw [hboth]
  | case2 content hsmall =>
    obtain ⟨blocks, hchunk, hne, hfits, hmakes⟩ :=
      encodeChunk_eq level true content (by omega) hblockMax
    obtain ⟨s', hdecode, hout⟩ := decodeBlocks_encodeBlocks hne hfits (by omega) hblockMax
      (by rw [hmakes, size_append_bytes]; exact hroom) true rest
    rw [hchunk, hdecode, if_pos rfl, hout, hmakes]

/-! ### Frames -/

/-- A header of a single segment, with no dictionary and no checksum. Sizes in two bytes are counted
from 256 on. -/
theorem FrameHeader.read_single {descriptor : UInt8} {width base number : Nat}
    (h : descriptor = 0x20 ∧ width = 1 ∧ base = 0 ∨ descriptor = 0x60 ∧ width = 2 ∧ base = 256 ∨
      descriptor = 0xa0 ∧ width = 4 ∧ base = 0)
    (hlt : number < 256 ^ width) (rest : Bytes) :
    FrameHeader.read (descriptor :: (ofNatLE width number ++ rest)) =
      .ok (⟨number + base, some (number + base), false⟩, rest) := by
  have hfield : toNatLE (ofNatLE width number) = number := by
    rw [Bytes.toNatLE_ofNatLE, Nat.mod_eq_of_lt hlt]
  have hsplit : split? width (ofNatLE width number ++ rest) = some (ofNatLE width number, rest) :=
    Bytes.split?_append (Bytes.length_ofNatLE _ _) rest
  have hnone : ∀ bytes : Bytes, split? 0 bytes = some ([], bytes) := fun _ => rfl
  have hplain : ¬(False ∨ toNatLE [] ≠ 0) := by decide
  have hknown : ¬(False ∨ number + base = 2 ^ 64 - 1) := by
    rw [false_or]
    rcases h with ⟨-, rfl, rfl⟩ | ⟨-, rfl, rfl⟩ | ⟨-, rfl, rfl⟩ <;> omega
  rcases h with ⟨rfl, rfl, rfl⟩ | ⟨rfl, rfl, rfl⟩ | ⟨rfl, rfl, rfl⟩ <;>
  · simp only [FrameHeader.read, UInt8.reduceToNat, Nat.reduceDiv, Nat.reduceMod, reduceIte,
      Nat.reduceEqDiff, List.getD_cons_zero, List.getD_cons_succ, hnone, hsplit, hfield]
    rw [if_neg hplain, if_neg hknown]
    rfl

/-- The header of a frame says nothing but the size of its content. -/
theorem FrameHeader.read_encodeFrameHeader {size : Nat} (h : size < 2 ^ 32) (rest : Bytes) :
    ∃ after, encodeFrameHeader size ++ rest = frameMagic ++ after ∧
      FrameHeader.read after = .ok (⟨size, some size, false⟩, rest) := by
  refine ⟨_, List.append_assoc _ _ _, ?_⟩
  split
  · next hsmall => exact FrameHeader.read_single (.inl ⟨rfl, rfl, rfl⟩) hsmall rest
  split
  · next hlarge hsmall =>
    have hback : size - 256 + 256 = size := by omega
    have hread := FrameHeader.read_single (.inr (.inl ⟨rfl, rfl, rfl⟩))
      (show size - 256 < 256 ^ 2 by omega) rest
    rw [hback] at hread
    exact hread
  · exact FrameHeader.read_single (.inr (.inr ⟨rfl, rfl, rfl⟩)) h rest

theorem checkContent_of_size {header : FrameHeader} {content : Array UInt8}
    (hsize : header.contentSize = some content.size) (hchecksum : header.hasChecksum = false)
    (bytes : Bytes) : checkContent header content bytes = .ok bytes := by
  rw [checkContent, hsize, hchecksum]
  simp

theorem decodeFrames_of_decodeFrame {room : Nat} {out made : Array UInt8} {after rest : Bytes}
    (h : decodeFrame room out after = .ok (made, rest)) :
    decodeFrames room out (frameMagic ++ after) = decodeFrames room made rest := by
  have hsplit : split? 4 (frameMagic ++ after) = some (frameMagic, after) :=
    Bytes.split?_append (show frameMagic.length = 4 from rfl) after
  have hskip : ∀ bytes, skipFrame? frameMagic bytes = none := fun _ => if_neg (by decide)
  rw [decodeFrames, if_neg (by simp [frameMagic])]
  split
  · next heq => rw [hsplit] at heq; cases heq
  next heq =>
  rw [hsplit] at heq
  cases heq
  split
  · next heq => rw [hskip] at heq; cases heq
  · next heq => rw [hskip] at heq; cases heq
  rw [if_neg (not_not_intro rfl)]
  split
  · next heq => rw [h] at heq; cases heq
  · next heq => rw [h] at heq; cases heq; rfl

/-- The frame of some bytes states their size and makes them, with nothing left over. -/
theorem decodeFrame_encode (level : Int) {content : Bytes} (h : content.length < 2 ^ 32) :
    ∃ after, encode level content = frameMagic ++ after ∧
      FrameHeader.read after = .ok (⟨content.length, some content.length, false⟩,
        encodeContent (limits level) content) ∧
      decodeFrame content.length #[] after = .ok ((#[] : Array UInt8) ++ content, []) := by
  obtain ⟨after, hmagic, hheader⟩ :=
    FrameHeader.read_encodeFrameHeader h (encodeContent (limits level) content)
  have hroom : (#[] : Array UInt8).size + content.length ≤ content.length := by simp
  have hblocks := decodeBlocks_encodeContent level ⟨content.length, 0⟩
    ⟨#[], none, none, .initial⟩ (Nat.le_refl (min content.length maxBlock)) (Nat.zero_le _)
    (Nat.min_le_right _ _) hroom []
  rw [List.append_nil] at hblocks
  refine ⟨after, by rw [encode, hmagic], hheader, ?_⟩
  rw [decodeFrame, hheader]
  simp only [Array.size_empty, hblocks]
  rw [checkContent_of_size (by simp) rfl]
  rfl

/-- The frame of some bytes decodes to them. -/
theorem decode_encode (level : Int) {content : Bytes} (h : content.length < 2 ^ 32) :
    decode content.length (encode level content) = .ok content := by
  obtain ⟨after, hmagic, -, hframe⟩ := decodeFrame_encode level h
  have hframes : decodeFrames content.length #[] (frameMagic ++ after) =
      .ok ((#[] : Array UInt8) ++ content) := by
    rw [decodeFrames_of_decodeFrame hframe, decodeFrames]
    rfl
  rw [decode, hmagic, hframes]
  simp [Except.map]

/-! ### The bound -/

theorem length_encodeChunk_le (limits : Limits) (isLast : Bool) (chunk : Bytes) :
    (encodeChunk limits isLast chunk).length ≤ 3 + chunk.length := by
  rw [encodeChunk]
  split
  · next hsmaller =>
    rw [length_encodeBlock_verbatim] at hsmaller
    exact Nat.le_of_lt hsmaller
  · exact Nat.le_of_eq (length_encodeBlock_verbatim chunk isLast)

/-- Each chunk takes at most the three bytes of a header more than its content. -/
theorem length_encodeContent_le (limits : Limits) (content : Bytes) :
    (encodeContent limits content).length ≤
      content.length + 3 * (content.length / maxBlock + 1) := by
  fun_induction encodeContent limits content with
  | case1 content hlarge ih =>
    have hfirst := length_encodeChunk_le limits false (content.take maxBlock)
    have hcount := Nat.div_eq_sub_div maxBlock_pos (Nat.le_of_lt hlarge)
    rw [List.length_take, Nat.min_eq_left (Nat.le_of_lt hlarge)] at hfirst
    rw [List.length_drop] at ih
    rw [List.length_append]
    omega
  | case2 content hsmall =>
    have hchunk := length_encodeChunk_le limits true content
    have hcount := Nat.zero_le (content.length / maxBlock)
    omega

theorem length_encodeFrameHeader (size : Nat) :
    (encodeFrameHeader size).length = if size < 256 then 6 else if size < 65792 then 7 else 9 := by
  rw [encodeFrameHeader, List.length_append]
  split
  · rfl
  split <;> rfl

/-- A frame stays within the bound for its content. -/
theorem length_encode_le (level : Int) (content : Bytes) :
    (encode level content).length ≤ maxEncodedLength content.length := by
  have hheader := length_encodeFrameHeader content.length
  have hcontent := length_encodeContent_le (limits level) content
  have hmax : maxBlock = 131072 := rfl
  rw [hmax] at hcontent
  rw [encode, List.length_append, maxEncodedLength, hmax]
  split at hheader
  · split <;> omega
  split at hheader
  · split <;> omega
  · split <;> omega

end FramedStream.Zstd
