import FramedStream.Text.Lines
import FramedStream.Text.Unprintable

/-!
# Quoted text

A text between quotes that shows exactly what it holds: quotes, backslashes and some controls have
an escape of two characters, all other characters without a picture of their own are spelled out
as `\u` and their number to base 16 between braces. Single quotes stay as they are.
-/

namespace FramedStream

namespace Text

/-- A character inside quotes. -/
def spell (c : Char) : String :=
  if c = '"' then "\\\""
  else if c = '\\' then "\\\\"
  else if c = '\x00' then "\\0"
  else if c = '\t' then "\\t"
  else if c = '\n' then "\\n"
  else if c = '\r' then "\\r"
  else if isUnprintable c then "\\u\x7b" ++ hex 1 c.toNat ++ "\x7d"
  else c.toString

/-- A text between quotes. -/
def quoted (text : String) : String :=
  "\"" ++ String.join (text.toList.map spell) ++ "\""

end Text

end FramedStream
