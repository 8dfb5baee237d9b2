import FramedStream.Command.Arguments
import FramedStream.Command.Run

/-!
# Responses

What the program answers to its arguments: bytes on the standard output, lines on the standard
error, an exit code and a changed disk. The code is 0 for success, 1 for a command that fails and
2 for arguments that are no command.

How long a command took is not part of its response. `timingLines` puts it into words for whoever
has a clock.
-/

namespace FramedStream

namespace Command

/-- The answer to some arguments. -/
structure Response where
  disk : Disk
  output : Bytes := []
  errors : List String := []
  /-- The raw bytes of a command whose throughput is of interest. -/
  timed : Option Nat := none
  code : UInt32 := 0

/-- How to call the program. -/
def usage : List String :=
  ["Streaming block compression: frame data into independently compressed blocks",
   "",
   "Usage:",
   s!"  {programName} compress [-c CODEC] [--zstd-level LEVEL] [-b SIZE] INPUT OUTPUT",
   s!"  {programName} decompress INPUT OUTPUT",
   s!"  {programName} inspect [--blocks] [--json] FILE",
   s!"  {programName} --help | --version"]

/-- The response to a command with some outcome. -/
def Response.ofOutcome (o : Outcome) : Response :=
  match o.result with
  | .ok none => { disk := o.disk, output := o.output }
  | .ok (some summary) =>
      { disk := o.disk, output := o.output, errors := summary.lines,
        timed := some summary.rawBytes }
  | .error complaint =>
      { disk := o.disk, output := o.output, errors := complaint.lines, code := 1 }

/-- The response to a request. -/
def respond (libs : Libraries) (disk : Disk) (stdin : Bytes) : Request → Response
  | .run command => .ofOutcome (run libs disk stdin command)
  | .version => { disk, output := Text.ofLines [s!"{programName} {programVersion}"] }
  | .help => { disk, output := Text.ofLines usage }
  | .misuse => { disk, errors := usage, code := 2 }

/-- How long it took to put some raw bytes through a command. -/
def timingLines (rawBytes nanoseconds : Nat) : List String :=
  let seconds := Decimal.Magnitude.ofRatio nanoseconds (10 ^ 9)
  [summaryLine "throughput  " (Quantity.rate rawBytes (.finite false seconds)),
   summaryLine "elapsed     " (seconds.toFixed 3 ++ "s")]

end Command

end FramedStream
