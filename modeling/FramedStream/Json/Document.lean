import FramedStream.Json.Token

/-!
# Reading JSON

A document is one value. `Value.ofText?` reads it off the tokens one after another and keeps the
arrays and objects that are still open on a stack. Nothing beyond the grammar is refused: keys
may occur twice, numbers may be of any size, and nesting may be of any depth.
-/

namespace FramedStream

namespace Json

/-- An array or object that is still open, with what is in it so far, in reverse. An object knows
the key of the field whose value comes next. -/
inductive Frame
  | array (items : List Value)
  | object (fields : List (Option String × Value)) (key : Option String)

/-- What may come next. Only right after an opening bracket may it be closed at once. -/
inductive Expecting
  | value (closing : Bool)
  | key (closing : Bool)
  | colon
  | separator
  | nothing (result : Value)

/-- A document that is being read. -/
structure Assembly where
  frames : List Frame := []
  expecting : Expecting := .value false

namespace Assembly

/-- A value has ended: it goes into the innermost open array or object. -/
def put (frames : List Frame) (v : Value) : Assembly :=
  match frames with
  | [] => { expecting := .nothing v }
  | .array items :: frames =>
      { frames := .array (v :: items) :: frames, expecting := .separator }
  | .object fields key :: frames =>
      { frames := .object ((key, v) :: fields) none :: frames, expecting := .separator }

/-- A value begins. -/
def begin? (frames : List Frame) : Token → Option Assembly
  | .null => some (put frames .null)
  | .bool b => some (put frames (.bool b))
  | .number literal => some (put frames (.number literal))
  | .string text => some (put frames (.string text))
  | .openArray => some { frames := .array [] :: frames, expecting := .value true }
  | .openObject => some { frames := .object [] none :: frames, expecting := .key true }
  | _ => none

/-- The innermost array or object is closed. -/
def close? (frames : List Frame) (token : Token) : Option Assembly :=
  match token, frames with
  | .closeArray, .array items :: frames => some (put frames (.array items.reverse))
  | .closeObject, .object fields _ :: frames => some (put frames (.object fields.reverse))
  | _, _ => none

/-- One token. -/
def step? (a : Assembly) (token : Token) : Option Assembly :=
  match a.expecting with
  | .value closing =>
      (begin? a.frames token).or (if closing then close? a.frames token else none)
  | .key closing =>
      match token, a.frames with
      | .string text, .object fields _ :: frames =>
          some { frames := .object fields text :: frames, expecting := .colon }
      | _, _ => if closing then close? a.frames token else none
  | .colon => if token = .colon then some { a with expecting := .value false } else none
  | .separator =>
      if token = .comma then
        match a.frames with
        | .array _ :: _ => some { a with expecting := .value false }
        | .object _ _ :: _ => some { a with expecting := .key false }
        | [] => none
      else close? a.frames token
  | .nothing _ => none

end Assembly

/-- The value that a text denotes. -/
def Value.ofText? (text : String) : Option Value :=
  match (Token.ofText? text).bind fun tokens => tokens.foldlM Assembly.step? {} with
  | some ⟨_, .nothing result⟩ => some result
  | _ => none

end Json

end FramedStream
