import FramedStream.Bytes

/-!
# Lines of text

Texts of at least some width, filled up on the left: columns of a table, digits of a number. And
lines as the bytes that are written.
-/

namespace FramedStream

namespace Text

/-- The text with as many `fill` in front as it takes to be `width` characters long. -/
def padLeft (width : Nat) (fill : Char) (text : String) : String :=
  String.ofList (List.replicate (width - text.length) fill) ++ text

/-- The digits of a number to base 16, at least `width` of them. -/
def hex (width n : Nat) : String :=
  padLeft width '0' (String.ofList (Nat.toDigits 16 n))

/-- The digits of a number to base 10, at least `width` of them. -/
def decimal (width n : Nat) : String :=
  padLeft width '0' (toString n)

/-- Lines as bytes, each with its end of line. -/
def ofLines (lines : List String) : Bytes :=
  (String.join (lines.map (· ++ "\n"))).toUTF8.toList

end Text

end FramedStream
