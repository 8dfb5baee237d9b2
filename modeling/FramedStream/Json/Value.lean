import FramedStream.Text.Lines

/-!
# JSON values and how they are written

A value keeps its numbers as literals, so nothing is lost about how they were spelled. A string
that was read may hold an escaped surrogate without its partner; such a string is no text, which
`string none` stands for. Values that are written have text only.

`Value.compact` writes a value without blanks, `Value.pretty` one item to a line, each level set
in by two blanks.
-/

namespace FramedStream

namespace Json

/-- A JSON value. -/
inductive Value
  | null
  | bool (b : Bool)
  | number (literal : String)
  | string (text : Option String)
  | array (items : List Value)
  | object (fields : List (Option String × Value))
  deriving Repr

/-- The string of a text. -/
def Value.text (s : String) : Value := .string (some s)

/-- The number of a whole number. -/
def Value.nat (n : Nat) : Value := .number (toString n)

/-- A character inside a string: quote, backslash and the control characters are escaped. -/
def escape (c : Char) : String :=
  if c = '"' then "\\\""
  else if c = '\\' then "\\\\"
  else if c = '\x08' then "\\b"
  else if c = '\t' then "\\t"
  else if c = '\n' then "\\n"
  else if c = '\x0c' then "\\f"
  else if c = '\r' then "\\r"
  else if c.toNat < 0x20 then "\\u" ++ Text.hex 4 c.toNat
  else c.toString

/-- A text between quotes. -/
def quote (text : String) : String :=
  "\"" ++ String.join (text.toList.map escape) ++ "\""

/-- The text of a string, or nothing where it is none. -/
def quoteString (text : Option String) : String := quote (text.getD "")

namespace Value

mutual

/-- A value without blanks. -/
def compact : Value → String
  | null => "null"
  | bool b => if b then "true" else "false"
  | number literal => literal
  | string text => quoteString text
  | array items => "[" ++ ",".intercalate (compactItems items) ++ "]"
  | object fields => "\x7b" ++ ",".intercalate (compactFields fields) ++ "\x7d"

/-- The items of an array without blanks. -/
def compactItems : List Value → List String
  | [] => []
  | item :: items => item.compact :: compactItems items

/-- The fields of an object without blanks. -/
def compactFields : List (Option String × Value) → List String
  | [] => []
  | (key, value) :: fields => (quoteString key ++ ":" ++ value.compact) :: compactFields fields

end

/-- Items between brackets, one to a line, at some depth. Without items the brackets stand
together. -/
def spread (left right : String) (depth : Nat) (items : List String) : String :=
  if items.isEmpty then left ++ right
  else
    let inset := Text.padLeft (2 * (depth + 1)) ' ' ""
    left ++ "\n" ++ ",\n".intercalate (items.map (inset ++ ·)) ++ "\n" ++
      Text.padLeft (2 * depth) ' ' "" ++ right

mutual

/-- A value at some depth, one item to a line. -/
def prettyAt (depth : Nat) : Value → String
  | array items => spread "[" "]" depth (prettyItems (depth + 1) items)
  | object fields => spread "\x7b" "\x7d" depth (prettyFields (depth + 1) fields)
  | null => "null"
  | bool b => if b then "true" else "false"
  | number literal => literal
  | string text => quoteString text

/-- The items of an array at some depth. -/
def prettyItems (depth : Nat) : List Value → List String
  | [] => []
  | item :: items => item.prettyAt depth :: prettyItems depth items

/-- The fields of an object at some depth. -/
def prettyFields (depth : Nat) : List (Option String × Value) → List String
  | [] => []
  | (key, value) :: fields =>
      (quoteString key ++ ": " ++ value.prettyAt depth) :: prettyFields depth fields

end

/-- A value, one item to a line. -/
def pretty (v : Value) : String := v.prettyAt 0

end Value

end Json

end FramedStream
