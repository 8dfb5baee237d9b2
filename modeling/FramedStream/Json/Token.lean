import FramedStream.Json.Value

/-!
# The tokens of JSON

`Token.ofText?` cuts a text into tokens, one character after another. Two words or numbers cannot
stand side by side in any document, so it does no harm that the longest run of their characters
is taken for one token and then found to be none.

* blanks are the space, the tab, the line feed and the carriage return;
* a string holds any character but the control characters, the quote and the backslash, and
  escapes;
* a number has no needless leading zero, and a digit on either side of its point.
-/

namespace FramedStream

namespace Json

/-- A token. -/
inductive Token
  | openArray
  | closeArray
  | openObject
  | closeObject
  | comma
  | colon
  | null
  | bool (b : Bool)
  | number (literal : String)
  | string (text : Option String)
  deriving Repr, DecidableEq

/-! ### Numbers -/

/-- The characters after a run of digits. -/
def skipDigits (cs : List Char) : List Char := cs.dropWhile Char.isDigit

/-- The characters after at least one digit. -/
def skipSomeDigits? : List Char → Option (List Char)
  | c :: cs => if c.isDigit then some (skipDigits cs) else none
  | [] => none

/-- The characters after the whole part of a number. -/
def skipWhole? : List Char → Option (List Char)
  | '0' :: cs => some cs
  | cs => skipSomeDigits? cs

/-- The characters after the fraction of a number, if it has one. -/
def skipFraction? : List Char → Option (List Char)
  | '.' :: cs => skipSomeDigits? cs
  | cs => some cs

/-- The characters after a sign, if there is one. -/
def skipSign : List Char → List Char
  | '+' :: cs | '-' :: cs => cs
  | cs => cs

/-- The characters after the exponent of a number, if it has one. -/
def skipExponent? : List Char → Option (List Char)
  | 'e' :: cs | 'E' :: cs => skipSomeDigits? (skipSign cs)
  | cs => some cs

/-- Whether some characters are the literal of a number. -/
def isNumber (cs : List Char) : Bool :=
  let unsigned := match cs with
    | '-' :: cs => cs
    | cs => cs
  ((skipWhole? unsigned).bind skipFraction?).bind skipExponent? == some []

/-- The characters that numbers are made of. -/
def inNumber (c : Char) : Bool :=
  c.isDigit || c == '-' || c == '+' || c == '.' || c == 'e' || c == 'E'

/-! ### Strings -/

/-- A UTF-16 unit that is the first half of a pair. -/
def isLeading (unit : Nat) : Bool := 0xD800 ≤ unit && unit < 0xDC00

/-- A UTF-16 unit that is the second half of a pair. -/
def isTrailing (unit : Nat) : Bool := 0xDC00 ≤ unit && unit < 0xE000

/-- The text of code points among which escapes may have put halves of pairs; `none` if one of
these is alone. -/
def joinPairs : List Nat → Option (List Char)
  | [] => some []
  | [a] => if isLeading a || isTrailing a then none else some [Char.ofNat a]
  | a :: b :: rest =>
      if isLeading a then
        if isTrailing b then
          (joinPairs rest).map
            (Char.ofNat (0x10000 + (a - 0xD800) * 0x400 + (b - 0xDC00)) :: ·)
        else none
      else if isTrailing a then none
      else (joinPairs (b :: rest)).map (Char.ofNat a :: ·)

/-- The code point that a single letter stands for after a backslash. -/
def escaped? (c : Char) : Option Nat :=
  match c with
  | '"' => some 0x22
  | '\\' => some 0x5C
  | '/' => some 0x2F
  | 'b' => some 0x08
  | 'f' => some 0x0C
  | 'n' => some 0x0A
  | 'r' => some 0x0D
  | 't' => some 0x09
  | _ => none

/-- The value of a digit to base 16. -/
def hexDigit? (c : Char) : Option Nat :=
  if '0' ≤ c ∧ c ≤ '9' then some (c.toNat - '0'.toNat)
  else if 'a' ≤ c ∧ c ≤ 'f' then some (10 + (c.toNat - 'a'.toNat))
  else if 'A' ≤ c ∧ c ≤ 'F' then some (10 + (c.toNat - 'A'.toNat))
  else none

/-! ### The lexer -/

/-- What the lexer is in the middle of. Characters and code points are gathered in reverse. -/
inductive Mode
  | between
  | word (letters : List Char)
  | number (letters : List Char)
  | string (points : List Nat)
  | escape (points : List Nat)
  | code (points : List Nat) (digits value : Nat)
  deriving Repr

/-- The lexer: the tokens found so far, in reverse, and what it is in the middle of. -/
structure Lexer where
  tokens : List Token := []
  mode : Mode := .between
  deriving Repr

namespace Lexer

/-- The token of a word. -/
def ofWord? (letters : List Char) : Option Token :=
  if letters = "null".toList then some .null
  else if letters = "true".toList then some (.bool true)
  else if letters = "false".toList then some (.bool false)
  else none

/-- The lexer after a word or number that ends here. -/
def endRun? (l : Lexer) : Option Lexer :=
  match l.mode with
  | .word letters => (ofWord? letters.reverse).map fun t => { tokens := t :: l.tokens }
  | .number letters =>
      if isNumber letters.reverse then
        some { tokens := .number (String.ofList letters.reverse) :: l.tokens }
      else none
  | _ => some l

/-- The token of a character that is one by itself. -/
def ofPunctuation? (c : Char) : Option Token :=
  match c with
  | '[' => some .openArray
  | ']' => some .closeArray
  | '\x7b' => some .openObject
  | '\x7d' => some .closeObject
  | ',' => some .comma
  | ':' => some .colon
  | _ => none

/-- One character between two tokens. -/
def start? (l : Lexer) (c : Char) : Option Lexer :=
  if c = ' ' ∨ c = '\t' ∨ c = '\n' ∨ c = '\r' then some l
  else if c = '"' then some { l with mode := .string [] }
  else if c.isDigit ∨ c = '-' then some { l with mode := .number [c] }
  else if 'a' ≤ c ∧ c ≤ 'z' then some { l with mode := .word [c] }
  else (ofPunctuation? c).map fun t => { l with tokens := t :: l.tokens }

/-- One character. -/
def step? (l : Lexer) (c : Char) : Option Lexer :=
  match l.mode with
  | .between => l.start? c
  | .word letters =>
      if 'a' ≤ c ∧ c ≤ 'z' then some { l with mode := .word (c :: letters) }
      else l.endRun?.bind (·.start? c)
  | .number letters =>
      if inNumber c then some { l with mode := .number (c :: letters) }
      else l.endRun?.bind (·.start? c)
  | .string points =>
      if c = '"' then
        some { tokens := .string ((joinPairs points.reverse).map String.ofList) :: l.tokens }
      else if c = '\\' then some { l with mode := .escape points }
      else if c.toNat < 0x20 then none
      else some { l with mode := .string (c.toNat :: points) }
  | .escape points =>
      if c = 'u' then some { l with mode := .code points 0 0 }
      else (escaped? c).map fun point => { l with mode := .string (point :: points) }
  | .code points digits value =>
      (hexDigit? c).map fun d =>
        let value := 16 * value + d
        { l with mode := if digits = 3 then .string (value :: points)
                         else .code points (digits + 1) value }

end Lexer

/-- The tokens of a text, if it can be cut into tokens. -/
def Token.ofText? (text : String) : Option (List Token) :=
  match (text.toList.foldlM Lexer.step? {}).bind Lexer.endRun? with
  | some ⟨tokens, .between⟩ => some tokens.reverse
  | _ => none

end Json

end FramedStream
