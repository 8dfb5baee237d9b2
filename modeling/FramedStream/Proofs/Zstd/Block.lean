import FramedStream.Proofs.Zstd.Sequences

/-!
# Blocks decode to what was encoded

A block is decoded after whatever there is (`decodeBlock_encode`), if it is small enough for its
frame and what it makes fits into the room.
-/

namespace FramedStream.Zstd

open Bytes (toNatLE ofNatLE split?)

/-! ### Literals -/

namespace Literals

/-- A field of one to three bytes. The bits 2 and 3 of its number tell how wide it is, and with that
where the size in it starts. -/
theorem readPlainSize?_field {width number unit : Nat} (hlt : number < 256 ^ (width + 1))
    (hformat : width = 0 ∧ unit = 8 ∧ number % 8 = 0 ∨
      width = 1 ∧ unit = 16 ∧ number / 4 % 4 = 1 ∨ width = 2 ∧ unit = 16 ∧ number / 4 % 4 = 3)
    (rest : Bytes) :
    readPlainSize? (ofNatLE (width + 1) number ++ rest) = some (number / unit, rest) := by
  have hsplit := Bytes.split?_append (Bytes.length_ofNatLE (width + 1) number) rest
  have hfield : toNatLE (ofNatLE (width + 1) number) = number := by
    rw [Bytes.toNatLE_ofNatLE, Nat.mod_eq_of_lt hlt]
  have hhead : (UInt8.ofNat number).toNat = number % 256 := UInt8.toNat_ofNat'
  rw [ofNatLE, List.cons_append] at hsplit ⊢
  rw [ofNatLE] at hfield
  rw [readPlainSize?, hhead]
  rcases hformat with ⟨rfl, rfl, hformat⟩ | ⟨rfl, rfl, hformat⟩ | ⟨rfl, rfl, hformat⟩
  · have hbits : number % 256 / 4 % 4 = 0 ∨ number % 256 / 4 % 4 = 2 := by omega
    rcases hbits with hbits | hbits <;> simp only [hbits, hsplit, Option.map_some, hfield]
  · have hbits : number % 256 / 4 % 4 = 1 := by omega
    simp only [hbits, hsplit, Option.map_some, hfield]
  · have hbits : number % 256 / 4 % 4 = 3 := by omega
    simp only [hbits, hsplit, Option.map_some, hfield]

/-- Verbatim literals start with the two bits that say so and with their size. -/
theorem encodeLiterals_spec {literals : Bytes} (h : literals.length < 2 ^ 20) (rest : Bytes) :
    (∃ head tail, encodeLiterals literals ++ rest = head :: tail ∧ head.toNat % 4 = 0) ∧
      readPlainSize? (encodeLiterals literals ++ rest) =
        some (literals.length, literals ++ rest) := by
  have hhead : ∀ number, number % 4 = 0 → (UInt8.ofNat number).toNat % 4 = 0 := by
    intro number hnumber
    rw [UInt8.toNat_ofNat']
    omega
  unfold encodeLiterals
  simp only
  rw [List.append_assoc]
  split
  · refine ⟨⟨_, _, rfl, hhead _ (by omega)⟩, ?_⟩
    rw [readPlainSize?_field (by omega) (.inl ⟨rfl, rfl, by omega⟩)]
    rw [Nat.mul_div_cancel _ (by decide)]
  split
  · refine ⟨⟨_, _, rfl, hhead _ (by omega)⟩, ?_⟩
    rw [readPlainSize?_field (by omega) (.inr (.inl ⟨rfl, rfl, by omega⟩))]
    congr 2
    omega
  · refine ⟨⟨_, _, rfl, hhead _ (by omega)⟩, ?_⟩
    rw [readPlainSize?_field (by omega) (.inr (.inr ⟨rfl, rfl, by omega⟩))]
    congr 2
    omega

theorem length_encodeLiterals (literals : Bytes) :
    literals.length < (encodeLiterals literals).length ∧
      (encodeLiterals literals).length ≤ literals.length + 3 := by
  unfold encodeLiterals
  simp only [List.length_append]
  split
  · rw [Bytes.length_ofNatLE]
    omega
  split
  · rw [Bytes.length_ofNatLE]
    omega
  · rw [Bytes.length_ofNatLE]
    omega

theorem read?_encodeLiterals {literals rest : Bytes} {most : Nat} (hlt : literals.length < 2 ^ 20)
    (hmost : literals.length ≤ most) (hrest : rest ≠ []) (code : Option Huffman.Table) :
    read? most code (encodeLiterals literals ++ rest) =
      some ⟨literals.toArray, code, rest, margin ≤ rest.length⟩ := by
  obtain ⟨⟨head, tail, hcons, hhead⟩, hsize⟩ := encodeLiterals_spec hlt rest
  have hsplit := Bytes.split?_append (rfl : literals.length = literals.length) rest
  rw [hcons] at hsize ⊢
  cases tail with
  | nil =>
    have hlength := congrArg List.length hcons
    have hpos := (length_encodeLiterals literals).1
    have hne := List.length_pos_iff.2 hrest
    rw [List.length_append, List.length_singleton] at hlength
    omega
  | cons next tail =>
    simp only [read?, hhead, hsize, Option.bind_eq_bind, Option.bind_some]
    rw [if_neg (Nat.not_lt.2 hmost), hsplit]
    rfl

end Literals

/-! ### Blocks -/

namespace Block

/-- What a block makes after what there is. -/
def expandOnto (out : Array UInt8) : Block → Array UInt8
  | verbatim bytes => out ++ bytes
  | ofPhrase phrase => phrase.expandOnto out

/-- How much a block makes. -/
def size : Block → Nat
  | verbatim bytes => bytes.length
  | ofPhrase phrase => phrase.size

theorem size_expandOnto (out : Array UInt8) (block : Block) :
    (block.expandOnto out).size = out.size + block.size := by
  cases block with
  | verbatim bytes => exact size_append_bytes out bytes
  | ofPhrase phrase => exact phrase.size_expandOnto out

/-- A block that may stand in a frame with blocks of up to `blockMax` bytes after `made` bytes. -/
def Fits (blockMax made : Nat) : Block → Prop
  | verbatim bytes => bytes.length ≤ maxBlock
  | ofPhrase p =>
      1 ≤ p.distance ∧ p.distance ≤ maxBlock ∧ p.distance ≤ made + p.literals.length ∧
        3 ≤ p.length ∧ p.size ≤ blockMax ∧ (encodePhrase p).length ≤ blockMax

end Block

/-- The three bytes in front of a block, read back. -/
theorem split?_encodeBlockHeader (isLast : Bool) {kind size : Nat} (hkind : kind < 4)
    (hsize : size < 2 ^ 21) (rest : Bytes) :
    ∃ field, split? 3 (encodeBlockHeader isLast kind size ++ rest) = some (field, rest) ∧
      decide (toNatLE field % 2 = 1) = isLast ∧ toNatLE field / 2 % 4 = kind ∧
      toNatLE field / 8 = size := by
  have hbit : isLast.toNat ≤ 1 := Bool.toNat_le isLast
  have hfield : toNatLE (encodeBlockHeader isLast kind size) =
      size * 8 + kind * 2 + isLast.toNat := by
    rw [encodeBlockHeader, Bytes.toNatLE_ofNatLE, Nat.mod_eq_of_lt]
    omega
  refine ⟨_, Bytes.split?_append (Bytes.length_ofNatLE _ _) rest, ?_⟩
  rw [← encodeBlockHeader, hfield]
  refine ⟨?_, by omega, by omega⟩
  cases isLast with
  | false => exact decide_eq_false (by rw [Bool.toNat_false]; omega)
  | true => exact decide_eq_true (by rw [Bool.toNat_true]; omega)

/-- A block that makes no more than blocks may make stays before where it must have ended. -/
theorem le_blockEnd {room blockMax start size : Nat} (hmax : size ≤ blockMax)
    (hroom : start + size ≤ room) (literals : Literals) :
    start + size ≤ blockEnd room blockMax start literals := by
  unfold blockEnd
  split
  · exact hroom
  · omega

/-- A phrase is decoded from the content of its block. -/
theorem decodeCompressed?_encodePhrase {bounds : Bounds} {blockMax made : Nat} {s : FrameState}
    {p : Phrase} (hfits : (Block.ofPhrase p).Fits blockMax made)
    (hmade : bounds.frameStart + made ≤ s.out.size) (hblockMax : blockMax ≤ maxBlock)
    (hroom : s.out.size + p.size ≤ bounds.room) :
    ∃ s', decodeCompressed? bounds blockMax s (encodePhrase p) = some s' ∧
      s'.out = p.expandOnto s.out := by
  obtain ⟨hpos, hnear, hback, hleast, hlength, -⟩ := hfits
  have hsize : p.size = p.literals.length + p.length := rfl
  have hmax : maxBlock = 131072 := rfl
  have hne : encodeSequence p ≠ [] := by
    rw [encodeSequence]
    exact List.cons_ne_nil _ _
  let literals : Literals :=
    ⟨p.literals.toArray, s.code, encodeSequence p, margin ≤ (encodeSequence p).length⟩
  -- the room of the block is smaller than that of the frame if its literals are kept there
  have hend := le_blockEnd hlength hroom literals
  have hphrase : PhraseFits ⟨blockEnd bounds.room blockMax s.out.size literals, bounds.frameStart⟩
      s.out.size p :=
    { literals := by omega
      distance := hpos
      near := hnear
      back := by simp only; omega
      least := hleast
      length := by omega
      room := hend }
  obtain ⟨history, tables, hexecute⟩ := execute?_encodeSequence hphrase s.history s.tables
  refine ⟨⟨p.expandOnto s.out, s.code, some tables, history⟩, ?_, rfl⟩
  rw [decodeCompressed?, encodePhrase]
  simp only
  rw [Literals.read?_encodeLiterals (by omega) (by omega) hne, Option.bind_eq_bind,
    Option.bind_some, hexecute]
  rfl

/-- A block that may stand where it does is decoded to what it makes. -/
theorem decodeBlock_encode {bounds : Bounds} {blockMax made : Nat} {s : FrameState} {block : Block}
    (hfits : block.Fits blockMax made) (hmade : bounds.frameStart + made ≤ s.out.size)
    (hblockMax : blockMax ≤ maxBlock) (hroom : s.out.size + block.size ≤ bounds.room)
    (isLast : Bool) (rest : Bytes) :
    ∃ s', decodeBlock bounds blockMax s (block.encode isLast ++ rest) = .ok (s', isLast, rest) ∧
      s'.out = block.expandOnto s.out := by
  have hmax : maxBlock = 131072 := rfl
  cases block with
  | verbatim bytes =>
    have hfits : bytes.length ≤ maxBlock := hfits
    have hroom : s.out.size + bytes.length ≤ bounds.room := hroom
    obtain ⟨field, hheader, hlast, hkind, hsize⟩ :=
      split?_encodeBlockHeader isLast (by decide : 0 < 4)
        (show bytes.length < 2 ^ 21 by omega) (bytes ++ rest)
    refine ⟨{ s with out := s.out ++ bytes }, ?_, rfl⟩
    rw [Block.encode, List.append_assoc, decodeBlock, hheader]
    simp only [hkind, hsize, hlast, Bytes.split?_append]
    rw [if_neg (Nat.not_lt.2 hroom)]
  | ofPhrase p =>
    have hcontent : (encodePhrase p).length ≤ blockMax := hfits.2.2.2.2.2
    obtain ⟨field, hheader, hlast, hkind, hsize⟩ :=
      split?_encodeBlockHeader isLast (by decide : 2 < 4)
        (show (encodePhrase p).length < 2 ^ 21 by omega) (encodePhrase p ++ rest)
    obtain ⟨s', hdecode, hout⟩ := decodeCompressed?_encodePhrase hfits hmade hblockMax hroom
    refine ⟨s', ?_, hout⟩
    rw [Block.encode, List.append_assoc, decodeBlock, hheader]
    simp only [hkind, hsize, hlast, Bytes.split?_append]
    rw [if_neg (Nat.not_lt.2 hcontent), hdecode]

end FramedStream.Zstd
