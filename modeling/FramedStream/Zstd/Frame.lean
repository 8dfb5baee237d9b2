import FramedStream.Digest.Xxh64
import FramedStream.Zstd.Sequences

/-!
# Zstandard frames

Compressed bytes are any number of frames, one after the other; no frame at all stands for no
bytes. A frame is a header, blocks up to one that is marked as the last, and perhaps a checksum. A
block is verbatim, a repeated byte, or compressed. Frames that are to be skipped may stand between
the others.

`decode` reads all frames into a given room. It fails where bytes are missing or left over, at
anything reserved, at a dictionary, where a frame does not have the size or the checksum that it
states, and where the room ends.
-/

namespace FramedStream.Zstd

/-- Why bytes do not decode. -/
inductive Fault
  | truncated
  | noFrame
  | unsupported
  | badBlock
  | noRoom
  | badSize
  | badChecksum
  deriving DecidableEq, Repr

/-- A fault in words. -/
def Fault.message : Fault → String
  | truncated => "the input ends too early"
  | noFrame => "the input does not continue with a frame"
  | unsupported => "the frame uses something that is not supported"
  | badBlock => "a block is corrupt"
  | noRoom => "the content is larger than it should be"
  | badSize => "a frame does not have the size that it states"
  | badChecksum => "a frame does not have the checksum that it states"

/-- The bytes that a frame starts with. -/
def frameMagic : Bytes := [0x28, 0xb5, 0x2f, 0xfd]

/-- The most raw bytes in a block. -/
def maxBlock : Nat := 128 * 1024

theorem maxBlock_pos : 0 < maxBlock := by decide

/-- What the header of a frame says. -/
structure FrameHeader where
  windowSize : Nat
  contentSize : Option Nat
  hasChecksum : Bool
  deriving Repr, DecidableEq

namespace FrameHeader

/-- The size of a window from its byte: five bits of a power of two and three bits of eighths. -/
def windowSizeOf (b : UInt8) : Option Nat :=
  let power := b.toNat / 8 + 10
  if 31 < power then none else some (2 ^ power + 2 ^ power / 8 * (b.toNat % 8))

/-- Read a header after the magic, and the bytes after it. A frame without a window byte is of a
single segment, and its window is its content. -/
def read (bytes : Bytes) : Except Fault (FrameHeader × Bytes) :=
  match bytes with
  | [] => .error .truncated
  | descriptor :: bytes =>
      let flags := descriptor.toNat
      let single := flags / 32 % 2 = 1
      let windowWidth := if single then 0 else 1
      let dictionaryWidth := [0, 1, 2, 4].getD (flags % 4) 0
      let sizeWidth := [if single then 1 else 0, 2, 4, 8].getD (flags / 64) 0
      match Bytes.split? windowWidth bytes with
      | none => .error .truncated
      | some (window, bytes) =>
          match Bytes.split? dictionaryWidth bytes with
          | none => .error .truncated
          | some (dictionary, bytes) =>
              match Bytes.split? sizeWidth bytes with
              | none => .error .truncated
              | some (field, bytes) =>
                  let size := Bytes.toNatLE field + (if sizeWidth = 2 then 256 else 0)
                  let contentSize :=
                    if sizeWidth = 0 ∨ size = 2 ^ 64 - 1 then none else some size
                  if flags / 8 % 2 = 1 ∨ Bytes.toNatLE dictionary ≠ 0 then .error .unsupported
                  else
                    match window with
                    | [] => .ok (⟨size, contentSize, flags / 4 % 2 = 1⟩, bytes)
                    | b :: _ =>
                        match windowSizeOf b with
                        | none => .error .unsupported
                        | some windowSize =>
                            .ok (⟨windowSize, contentSize, flags / 4 % 2 = 1⟩, bytes)

theorem length_read {bytes rest : Bytes} {header : FrameHeader}
    (h : read bytes = .ok (header, rest)) : rest.length < bytes.length := by
  unfold read at h
  split at h
  · cases h
  next descriptor bytes =>
  simp only at h
  split at h
  · cases h
  next h₁ =>
  split at h
  · cases h
  next h₂ =>
  split at h
  · cases h
  next h₃ =>
  have l₁ := Bytes.length_split? h₁
  have l₂ := Bytes.length_split? h₂
  have l₃ := Bytes.length_split? h₃
  have hrest : ∀ b : Bytes, b.length ≤ bytes.length → b.length < (descriptor :: bytes).length := by
    intro b hb
    simp only [List.length_cons]
    omega
  split at h
  · cases h
  split at h
  · cases h
    exact hrest _ (by omega)
  split at h
  · cases h
  · cases h
    exact hrest _ (by omega)

end FrameHeader

/-! ### Blocks -/

/-- What the blocks of a frame have made, and what a block may take over from those before. -/
structure FrameState where
  out : Array UInt8
  code : Option Huffman.Table
  tables : Option Tables
  history : History

/-- Where the content must have ended after a block of these literals that starts at `start`.
Unpacked literals are kept in the room itself if it is large enough, behind the largest block and
with a margin on both sides, and what the block makes must not reach them. Otherwise the room is
the only bound. -/
def blockEnd (room blockMax start : Nat) (literals : Literals) : Nat :=
  if literals.inPlace ∨ room - start ≤ blockMax + literals.bytes.size + 2 * margin then room
  else start + blockMax + margin

/-- Decode a compressed block. -/
def decodeCompressed? (bounds : Bounds) (blockMax : Nat) (s : FrameState) (bytes : Bytes) :
    Option FrameState := do
  let start := s.out.size
  let literals ← Literals.read? (min blockMax (bounds.room - start)) s.code bytes
  let room := blockEnd bounds.room blockMax start literals
  let (progress, tables) ←
    execute? { bounds with room } s.out literals.bytes s.history s.tables literals.rest
  some ⟨progress.out, literals.code, tables, progress.history⟩

/-- Decode one block: what it makes, whether it is the last one, and the bytes after it. Its three
bytes hold, from the low bit up, the mark of the last block, the way it is stored and a size. -/
def decodeBlock (bounds : Bounds) (blockMax : Nat) (s : FrameState) (bytes : Bytes) :
    Except Fault (FrameState × Bool × Bytes) :=
  match Bytes.split? 3 bytes with
  | none => .error .truncated
  | some (field, bytes) =>
      let number := Bytes.toNatLE field
      let isLast := number % 2 = 1
      let size := number / 8
      match number / 2 % 4 with
      | 0 =>
          match Bytes.split? size bytes with
          | none => .error .truncated
          | some (content, rest) =>
              if bounds.room < s.out.size + size then .error .noRoom
              else .ok ({ s with out := s.out ++ content }, isLast, rest)
      | 1 =>
          match bytes with
          | [] => .error .truncated
          | byte :: rest =>
              if bounds.room < s.out.size + size then .error .noRoom
              else .ok ({ s with out := s.out ++ Array.replicate size byte }, isLast, rest)
      | 2 =>
          match Bytes.split? size bytes with
          | none => .error .truncated
          | some (content, rest) =>
              if blockMax < size then .error .badBlock
              else
                match decodeCompressed? bounds blockMax s content with
                | none => .error .badBlock
                | some s => .ok (s, isLast, rest)
      | _ => .error .badBlock

theorem length_decodeBlock {bounds : Bounds} {blockMax : Nat} {s s' : FrameState}
    {isLast : Bool} {bytes rest : Bytes}
    (h : decodeBlock bounds blockMax s bytes = .ok (s', isLast, rest)) :
    rest.length < bytes.length := by
  unfold decodeBlock at h
  split at h
  · cases h
  next field after hfield =>
  have l₁ := Bytes.length_split? hfield
  simp only at h
  split at h
  · split at h
    · cases h
    next hcontent =>
    have l₂ := Bytes.length_split? hcontent
    split at h
    · cases h
    · cases h; omega
  · split at h
    · cases h
    · split at h
      · cases h
      · cases h
        simp only [List.length_cons] at l₁
        omega
  · split at h
    · cases h
    next hcontent =>
    have l₂ := Bytes.length_split? hcontent
    split at h
    · cases h
    split at h
    · cases h
    · cases h; omega
  · cases h

/-- Decode blocks up to the last one: what they make, and the bytes after them. -/
def decodeBlocks (bounds : Bounds) (blockMax : Nat) (s : FrameState) (bytes : Bytes) :
    Except Fault (Array UInt8 × Bytes) :=
  match h : decodeBlock bounds blockMax s bytes with
  | .error fault => .error fault
  | .ok (s, true, rest) => .ok (s.out, rest)
  | .ok (s, false, rest) =>
      have := length_decodeBlock h
      decodeBlocks bounds blockMax s rest
termination_by bytes.length

theorem length_decodeBlocks {bounds : Bounds} {blockMax : Nat} {s : FrameState}
    {out : Array UInt8} {bytes rest : Bytes}
    (h : decodeBlocks bounds blockMax s bytes = .ok (out, rest)) :
    rest.length < bytes.length := by
  fun_induction decodeBlocks bounds blockMax s bytes with
  | case1 => cases h
  | case2 s bytes s' rest' hb =>
    cases h
    exact length_decodeBlock hb
  | case3 s bytes s' rest' hb hlt ih =>
    have := ih h
    omega

/-! ### Frames -/

/-- Check the checksum of a frame, if it has one, and give the bytes after it. -/
def checkContent (header : FrameHeader) (content : Array UInt8) (bytes : Bytes) :
    Except Fault Bytes :=
  if header.contentSize.any (· ≠ content.size) then .error .badSize
  else if header.hasChecksum then
    match Bytes.split? 4 bytes with
    | none => .error .truncated
    | some (field, rest) =>
        if Bytes.toNatLE field = (Digest.Xxh64.digest content).toNat % 2 ^ 32 then .ok rest
        else .error .badChecksum
  else .ok bytes

theorem length_checkContent {header : FrameHeader} {content : Array UInt8} {bytes rest : Bytes}
    (h : checkContent header content bytes = .ok rest) : rest.length ≤ bytes.length := by
  unfold checkContent at h
  split at h
  · cases h
  split at h
  · split at h
    · cases h
    next hfield =>
    have l := Bytes.length_split? hfield
    split at h
    · cases h; omega
    · cases h
  · cases h; exact Nat.le_refl _

/-- Decode a frame after its magic: what it makes, after what there is, and the bytes after it. -/
def decodeFrame (room : Nat) (out : Array UInt8) (bytes : Bytes) :
    Except Fault (Array UInt8 × Bytes) :=
  match FrameHeader.read bytes with
  | .error fault => .error fault
  | .ok (header, bytes) =>
      match decodeBlocks ⟨room, out.size⟩ (min header.windowSize maxBlock)
          ⟨out, none, none, .initial⟩ bytes with
      | .error fault => .error fault
      | .ok (made, bytes) =>
          (checkContent header (made.extract out.size made.size) bytes).map (made, ·)

theorem length_decodeFrame {room : Nat} {out made : Array UInt8} {bytes rest : Bytes}
    (h : decodeFrame room out bytes = .ok (made, rest)) : rest.length < bytes.length := by
  unfold decodeFrame at h
  split at h
  · cases h
  next hheader =>
  have l₁ := FrameHeader.length_read hheader
  split at h
  · cases h
  next hblocks =>
  have l₂ := length_decodeBlocks hblocks
  simp only [Except.map] at h
  split at h
  · cases h
  next hcheck =>
  have l₃ := length_checkContent hcheck
  cases h
  omega

/-- The bytes after a frame that is to be skipped, if one starts here: 16 values of the first byte
are kept for them, and four bytes after the magic give the size. -/
def skipFrame? (magic bytes : Bytes) : Option (Except Fault Bytes) :=
  if Bytes.toNatLE magic / 16 = 0x184D2A5 then
    match Bytes.split? 4 bytes with
    | none => some (.error .truncated)
    | some (field, rest) =>
        match Bytes.split? (Bytes.toNatLE field) rest with
        | none => some (.error .truncated)
        | some (_, rest) => some (.ok rest)
  else none

theorem length_skipFrame? {magic bytes rest : Bytes}
    (h : skipFrame? magic bytes = some (.ok rest)) : rest.length ≤ bytes.length := by
  unfold skipFrame? at h
  split at h
  · split at h
    · cases h
    next h₁ =>
    split at h
    · cases h
    next h₂ =>
    have l₁ := Bytes.length_split? h₁
    have l₂ := Bytes.length_split? h₂
    cases h
    omega
  · cases h

/-- Decode frames after what there is. -/
def decodeFrames (room : Nat) (out : Array UInt8) (bytes : Bytes) :
    Except Fault (Array UInt8) :=
  if bytes.isEmpty then .ok out
  else
    match hmagic : Bytes.split? 4 bytes with
    | none => .error .truncated
    | some (magic, afterMagic) =>
        match hskip : skipFrame? magic afterMagic with
        | some (.error fault) => .error fault
        | some (.ok rest) =>
            have : rest.length < bytes.length := by
              have l₁ := Bytes.length_split? hmagic
              have l₂ := length_skipFrame? hskip
              omega
            decodeFrames room out rest
        | none =>
            if magic ≠ frameMagic then .error .noFrame
            else
              match hframe : decodeFrame room out afterMagic with
              | .error fault => .error fault
              | .ok (out, rest) =>
                  have : rest.length < bytes.length := by
                    have l₁ := Bytes.length_split? hmagic
                    have l₂ := length_decodeFrame hframe
                    omega
                  decodeFrames room out rest
termination_by bytes.length

/-- Decode all frames, which may make at most `room` bytes. -/
def decode (room : Nat) (bytes : Bytes) : Except Fault Bytes :=
  (decodeFrames room #[] bytes).map Array.toList

end FramedStream.Zstd
