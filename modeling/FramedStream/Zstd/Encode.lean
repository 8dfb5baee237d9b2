import FramedStream.Zstd.Frame

/-!
# Writing Zstandard frames

A plain encoder: one frame of a single segment, with its size and without a checksum. The content
is cut into chunks of `maxBlock` bytes. Each phrase of the factoring of a chunk becomes a block of
its own, with one sequence whose three codes need no bits; the literals that are left are a
verbatim block. A chunk that does not get smaller in this way is a verbatim block as a whole.

The level decides only how long a copy has to be to be worth a block.
-/

namespace FramedStream.Zstd

/-- A block to be written. -/
inductive Block
  | verbatim (bytes : Bytes)
  | ofPhrase (phrase : Phrase)
  deriving Repr

/-- The code whose range holds a number, and what is to be added. -/
def findCode (ranges : Array Range) (number : Nat) : Nat × Nat × Nat :=
  match ranges.findIdx? fun range =>
      range.base ≤ number && number < range.base + 2 ^ range.bits with
  | none => (0, 0, 0)
  | some code =>
      let range := ranges.getD code default
      (code, number - range.base, range.bits)

/-- Literals, verbatim. -/
def encodeLiterals (literals : Bytes) : Bytes :=
  let size := literals.length
  (if size < 32 then Bytes.ofNatLE 1 (size * 8)
    else if size < 4096 then Bytes.ofNatLE 2 (size * 16 + 4)
    else Bytes.ofNatLE 3 (size * 16 + 12)) ++ literals

/-- A bitstream that holds a number below its end mark. -/
def encodeBits (marked : Nat) : Bytes :=
  Bytes.ofNatLE (marked.log2 / 8 + 1) marked

/-- The sequence of a phrase: that it is the only one, the three codes, each alone in its table,
and the extra bits. -/
def encodeSequence (p : Phrase) : Bytes :=
  let (literalCode, literalExtra, literalBits) := findCode literalRanges p.literals.length
  let (copyCode, copyExtra, copyBits) := findCode copyRanges p.length
  let number := p.distance + 3
  let distanceCode := number.log2
  [1, 0x54, UInt8.ofNat literalCode, UInt8.ofNat distanceCode, UInt8.ofNat copyCode] ++
    encodeBits ((number * 2 ^ copyBits + copyExtra) * 2 ^ literalBits + literalExtra)

/-- The content of the block of a phrase. -/
def encodePhrase (p : Phrase) : Bytes :=
  encodeLiterals p.literals ++ encodeSequence p

/-- The three bytes in front of a block. -/
def encodeBlockHeader (isLast : Bool) (kind size : Nat) : Bytes :=
  Bytes.ofNatLE 3 (size * 8 + kind * 2 + isLast.toNat)

/-- The bytes of a block. -/
def Block.encode (isLast : Bool) : Block → Bytes
  | verbatim bytes => encodeBlockHeader isLast 0 bytes.length ++ bytes
  | ofPhrase phrase =>
      let content := encodePhrase phrase
      encodeBlockHeader isLast 2 content.length ++ content

/-- The bytes of blocks, of which the last one is marked if nothing follows them. -/
def encodeBlocks (thenLast : Bool) : List Block → Bytes
  | [] => []
  | [block] => block.encode thenLast
  | block :: blocks => block.encode false ++ encodeBlocks thenLast blocks

/-- The blocks of a factoring. -/
def blocksOf (f : Factoring) : List Block :=
  f.phrases.map .ofPhrase ++
    (if f.tail.isEmpty && !f.phrases.isEmpty then [] else [.verbatim f.tail])

/-- The bytes of a chunk of the content. -/
def encodeChunk (limits : Limits) (isLast : Bool) (chunk : Bytes) : Bytes :=
  let plain := (Block.verbatim chunk).encode isLast
  let factored := encodeBlocks isLast (blocksOf (factor limits chunk))
  if factored.length < plain.length then factored else plain

/-- The bytes of the content, chunk by chunk. -/
def encodeContent (limits : Limits) (content : Bytes) : Bytes :=
  if maxBlock < content.length then
    encodeChunk limits false (content.take maxBlock) ++
      encodeContent limits (content.drop maxBlock)
  else encodeChunk limits true content
termination_by content.length
decreasing_by
  rw [List.length_drop]
  exact Nat.sub_lt (Nat.lt_trans maxBlock_pos ‹_›) maxBlock_pos

/-- The header of a frame of a single segment, with the size of its content. -/
def encodeFrameHeader (size : Nat) : Bytes :=
  frameMagic ++
    (if size < 256 then 0x20 :: Bytes.ofNatLE 1 size
      else if size < 65536 + 256 then 0x60 :: Bytes.ofNatLE 2 (size - 256)
      else 0xa0 :: Bytes.ofNatLE 4 size)

/-- The length of the shortest copy that is worth a block, by level. -/
def leastCopy (level : Int) : Nat :=
  if level < 0 then 64 else if level = 1 ∨ level = 2 then 32 else 16

/-- What a phrase may be at some level. -/
def limits (level : Int) : Limits :=
  { leastLength := leastCopy level, greatestDistance := maxBlock, startBeforeEnd := 4,
    literalsAtEnd := 0 }

/-- Encode bytes as a frame. -/
def encode (level : Int) (content : Bytes) : Bytes :=
  encodeFrameHeader content.length ++ encodeContent (limits level) content

/-- A bound on the size of the frame of `n` bytes. -/
def maxEncodedLength (n : Nat) : Nat :=
  n + n / 256 + (if n < maxBlock then (maxBlock - n) / 2048 else 0)

end FramedStream.Zstd
