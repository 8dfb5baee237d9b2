import FramedStream.Digest.Xxh3
import FramedStream.Json.Number
import FramedStream.Quantity
import FramedStream.Reader

/-!
# Reports on streams

A report tells what is in a stream: the fields of its header, the number and sizes of its blocks,
and if wanted each block with the digest of its payload. It is made by decoding the whole stream,
so a stream that has a report is sound as far as a reader can tell.

`Report.text` is for people and `Report.json` for programs.
-/

namespace FramedStream

/-- What is known of a block: its payload and the size of what it decodes to. -/
structure BlockSummary where
  payload : Bytes
  rawLength : Nat
  deriving Repr

/-- What is in a stream. -/
structure Report where
  file : String
  header : Header
  codec : String
  blocks : List BlockSummary
  deriving Repr

namespace Reader

/-- All blocks from here on, after those found already. -/
def surveyOnto (found : Array BlockSummary) (r : Reader) : Except Error (List BlockSummary) :=
  match h : r.nextBlock with
  | (.error e, _) => .error e
  | (.ok none, _) => .ok found.toList
  | (.ok (some block), r') =>
      have := source_nextBlock r h
      surveyOnto (found.push ⟨r'.payload, block.length⟩) r'
termination_by r.source.rest.length

/-- All blocks from here on. -/
def survey (r : Reader) : Except Error (List BlockSummary) := r.surveyOnto #[]

end Reader

/-- The digest of the payload of a block. -/
def BlockSummary.digest (b : BlockSummary) : String :=
  Text.hex 16 (Digest.Xxh3.digest b.payload.toArray).toNat

namespace Report

/-- The report on the stream of a reader that has read nothing yet. -/
def ofReader (file : String) (r : Reader) : Except Error Report :=
  r.survey.map fun blocks => { file, header := r.header, codec := r.codec.name, blocks }

/-- How many blocks there are. -/
def blockCount (r : Report) : Nat := r.blocks.length

/-- The raw bytes of all blocks. -/
def rawBytes (r : Report) : Nat := (r.blocks.map (·.rawLength)).sum

/-- The bytes of all payloads. -/
def compressedBytes (r : Report) : Nat := (r.blocks.map (·.payload.length)).sum

/-- The bytes of the whole stream. -/
def streamBytes (r : Report) : Nat :=
  headerSize + r.blockCount * blockLengthSize + r.compressedBytes

/-- The quotient of two sizes. -/
def ratioOf (raw framed : Nat) : Decimal.Magnitude :=
  (Decimal.Magnitude.ofNat raw).div (Decimal.Magnitude.ofNat framed)

/-- The raw bytes for each byte of the stream. -/
def ratio (r : Report) : Decimal.Magnitude := ratioOf r.rawBytes r.streamBytes

/-- A ratio in words. -/
def ratioText (x : Decimal.Magnitude) : String := x.toFixed 2 ++ "x"

/-! ### For people -/

/-- A row of the table of blocks. -/
def row (index compressed raw digest : String) : String :=
  "  " ++ "  ".intercalate
    [Text.padLeft 8 ' ' index, Text.padLeft 12 ' ' compressed, Text.padLeft 12 ' ' raw,
      Text.padLeft 16 ' ' digest]

/-- The row of a block. -/
def blockRow (block : BlockSummary) (index : Nat) : String :=
  row (toString index) (Quantity.size block.payload.length) (Quantity.size block.rawLength)
    block.digest

/-- The table of blocks. -/
def table (r : Report) : List String :=
  ["", row "block" "compressed" "raw" "xxh3", "  " ++ Text.padLeft 54 '-' ""] ++
    r.blocks.zipIdx.map fun (block, index) => blockRow block index

/-- The lines of a report. -/
def text (r : Report) (withBlocks : Bool) : List String :=
  [s!"=== blockframe stream: {r.file} ===",
    "",
    s!"  format version : {r.header.version} (min compatible {r.header.minCompatible})",
    s!"  codec          : {r.codec} (id={r.header.codecId})",
    s!"  block count    : {r.blockCount}",
    s!"  raw size       : {Quantity.size r.rawBytes}",
    s!"  compressed     : {Quantity.size r.compressedBytes}",
    s!"  stream size    : {Quantity.size r.streamBytes}",
    s!"  ratio          : {ratioText r.ratio}"] ++
    if withBlocks then r.table else []

/-! ### For programs -/

open Json

/-- A block as a value. -/
def blockValue (block : BlockSummary) (index : Nat) : Value :=
  .object
    [(some "index", .nat index), (some "compressed_len", .nat block.payload.length),
     (some "raw_len", .nat block.rawLength), (some "xxh3", .text block.digest)]

/-- The blocks as a value. -/
def blocksValue (r : Report) : Value :=
  .array (r.blocks.zipIdx.map fun (block, index) => blockValue block index)

/-- A report as a value. -/
def json (r : Report) (withBlocks : Bool) : Value :=
  .object <|
    [(some "file", .text r.file),
     (some "version", .nat r.header.version.toNat),
     (some "min_compatible_version", .nat r.header.minCompatible.toNat),
     (some "codec", .text r.codec),
     (some "codec_id", .nat r.header.codecId.toNat),
     (some "block_count", .nat r.blockCount),
     (some "raw_bytes", .nat r.rawBytes),
     (some "compressed_bytes", .nat r.compressedBytes),
     (some "stream_bytes", .nat r.streamBytes),
     (some "ratio", .magnitude r.ratio)] ++
    if withBlocks then [(some "blocks", r.blocksValue)] else []

end Report

end FramedStream
