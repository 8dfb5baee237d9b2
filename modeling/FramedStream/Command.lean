import FramedStream.Codec.Bundled

/-!
# Commands

What the command line can be asked to do. Inputs and outputs are named by paths; `-` names the
standard input or output where a stream is compressed or decompressed, and is a file like any
other where one is inspected.
-/

namespace FramedStream

/-- A command. -/
inductive Command
  | compress (input output codec : String) (level : Int) (blockSize : Nat)
  | decompress (input output : String)
  | inspect (file : String) (blocks json : Bool)
  deriving DecidableEq, Repr

namespace Command

/-- The name of the program. -/
def programName : String := "blockframe"

/-- The version of the program. -/
def programVersion : String := "0.1.0"

/-- The codec of a compression that names none. -/
def defaultCodec : String := "zstd"

/-- Whether a path names the standard input or output. -/
def isStandard (path : String) : Bool := path == "-"

/-- The paths of a command. -/
def paths : Command → List String
  | compress input output _ _ _ | decompress input output =>
      [input, output].filter fun path => !isStandard path
  | inspect file _ _ => [file]

/-- Whether a command reads the standard input. -/
def readsStandardInput : Command → Bool
  | compress input _ _ _ _ | decompress input _ => isStandard input
  | inspect _ _ _ => false

end Command

end FramedStream
