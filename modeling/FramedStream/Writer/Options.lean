import FramedStream.Decimal.Digits
import FramedStream.Json.Document
import FramedStream.Writer

/-!
# The settings of a writer

The settings are written as a JSON object and read from an object or an array of their values.

* A setting that is left out has its default; a field of another name is passed over.
* A setting that is given twice is refused.
* A size is a whole number without sign, point or exponent, and fits 64 bits.
-/

namespace FramedStream

/-- The settings of a writer. -/
structure Options where
  blockSize : Nat := defaultBlockSize
  deriving DecidableEq, Repr

namespace Options

open Json

/-- The name of the block size. -/
def blockSizeKey : String := "block_size"

/-- The size that a value denotes. -/
def sizeOf? : Value → Option Nat
  | .number literal => (Decimal.ofDigits? literal.toList).filter (· < 2 ^ 64)
  | _ => none

/-- The settings that a value denotes. -/
def ofValue? : Value → Option Options
  | .array [] => some {}
  | .array [v] => (sizeOf? v).map fun blockSize => { blockSize }
  | .object fields =>
      if fields.any (·.1.isNone) then none
      else
        match fields.filter (·.1 = some blockSizeKey) with
        | [] => some {}
        | [(_, v)] => (sizeOf? v).map fun blockSize => { blockSize }
        | _ => none
  | _ => none

/-- The settings in a text. -/
def ofText? (text : String) : Option Options :=
  (Value.ofText? text).bind ofValue?

/-- The settings as a value. -/
def toValue (o : Options) : Value :=
  .object [(some blockSizeKey, .nat o.blockSize)]

/-- The settings as a text. -/
def toText (o : Options) : String := o.toValue.compact

end Options

/-- Start a stream with some settings. -/
def Writer.createWith (sink : Sink) (codec : Codec) (options : Options) :
    Except Error Writer × Sink :=
  create sink codec options.blockSize

end FramedStream
