import FramedStream.Layout

/-!
# Failures

A call fails because its arguments are refused (`Refusal`), because the stream is damaged
(`Damage`), because the sink or the source failed (`IoFailure`), because the codec gave a block
up, or because the writer or reader is past use. `Error.message` is the one place where these are
put into words, and `Error.toIo` says what a failure becomes where only I/O failures are
expected.
-/

namespace FramedStream

/-- The kinds of failure that a sink or a source reports. -/
inductive IoKind
  | brokenPipe
  | connectionReset
  | permissionDenied
  | notFound
  | timedOut
  | wouldBlock
  | unexpectedEof
  | invalidData
  | invalidInput
  | writeZero
  | interrupted
  | other
  deriving DecidableEq, Repr, Inhabited

/-- A failure of a sink or a source. -/
structure IoFailure where
  kind : IoKind
  text : String
  deriving DecidableEq, Repr, Inhabited

/-- Why the arguments of a call are refused. -/
inductive Refusal
  | blockSize (size : Nat)
  | byteRange (offset length size : Nat)
  | elementRange (offset count size : Nat)
  | other (text : String)
  deriving DecidableEq, Repr

/-- What is wrong with a stream. Blocks are counted from 0. -/
inductive Damage
  | badMagic
  | tooNew (version minCompatible : UInt32)
  | shortHeader
  | unknownCodec (id : UInt16)
  | otherCodec (stream provided : UInt16)
  | tornLength (got : Nat)
  | zeroLength (block : Nat)
  | longPayload (block length limit : Nat)
  | tornPayload (block length : Nat)
  | declaredSize (block size : Nat)
  | producedSize (block produced declared : Nat)
  | shortPayload (codec : String) (size : Nat)
  | verbatimSize (held declared : Nat)
  | undecodable (codec reason : String)
  | tornElement (width : Nat)
  | other (text : String)
  deriving DecidableEq, Repr

/-- Why a call failed. -/
inductive Error
  | config (refusal : Refusal)
  | io (failure : IoFailure)
  | format (damage : Damage)
  | codec (name reason : String)
  | closed
  | broken
  deriving DecidableEq, Repr

/-- A refusal in words. -/
def Refusal.message : Refusal → String
  | blockSize size => s!"block size {size} outside 1..={maxBlockSize}"
  | byteRange offset length size =>
      s!"byte range {offset}+{length} outside a {size}-byte buffer"
  | elementRange offset count size =>
      s!"element range {offset}+{count} outside a {size}-element array"
  | other text => text

/-- A damage in words. -/
def Damage.message : Damage → String
  | badMagic => "invalid magic bytes, not a blockframe stream"
  | tooNew version minCompatible =>
      s!"stream version {version} requires a reader of at least version {minCompatible}, " ++
        s!"this is version {formatVersion}"
  | shortHeader => "stream ended inside the header"
  | unknownCodec id =>
      s!"unknown codec id {id}; supported: 0 (passthrough), 1 (zstd), 2 (lz4)"
  | otherCodec stream provided =>
      s!"codec mismatch: stream uses codec {stream} but provided codec has id {provided}"
  | tornLength got => s!"stream ended after {got} of {blockLengthSize} length bytes"
  | zeroLength block => s!"block {block} has a zero length"
  | longPayload block length limit =>
      s!"block {block} length {length} exceeds the maximum {limit}"
  | tornPayload block length =>
      s!"stream truncated inside block {block} ({length} payload bytes expected)"
  | declaredSize block size =>
      s!"block {block} declares {size} raw bytes, outside 1..={maxBlockSize}"
  | producedSize block produced declared =>
      s!"block {block} decompressed to {produced} bytes but declares {declared}"
  | shortPayload codec size =>
      s!"{codec} payload of {size} bytes is too short for its length prefix"
  | verbatimSize held declared =>
      s!"passthrough payload holds {held} bytes but declares {declared}"
  | undecodable codec reason => s!"{codec} decompress error: {reason}"
  | tornElement width => s!"stream ended inside a {width}-byte element"
  | other text => text

namespace Error

/-- A failure in words. -/
def message : Error → String
  | config refusal => s!"configuration error: {refusal.message}"
  | io failure => s!"I/O error: {failure.text}"
  | format damage => s!"format error: {damage.message}"
  | codec name reason => s!"{name} codec error: {reason}"
  | closed => "writer is closed"
  | broken => "stream is broken by an earlier failure"

/-- Whether the stream is at fault. -/
def isFormat : Error → Bool
  | format _ => true
  | _ => false

/-- The failure as one of I/O: an I/O failure stays what it is, any other keeps its words. -/
def toIo : Error → IoFailure
  | io failure => failure
  | e@(format _) => ⟨.invalidData, e.message⟩
  | e@(config _) => ⟨.invalidInput, e.message⟩
  | e => ⟨.other, e.message⟩

end Error

end FramedStream
