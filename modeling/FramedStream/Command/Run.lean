import FramedStream.Command.Copying
import FramedStream.Report
import FramedStream.Writer

/-!
# Running commands

* A compression looks up the codec, opens the input, makes the output and only then starts the
  stream, so a block size that is refused leaves an empty output.
* A decompression takes the header off the input before it makes the output.
* An inspection writes nothing to the disk.

The standard output gets what is written to `-` and the reports. Outputs are made when they are
opened: a command that names one file as input and output empties it before it is read.

All commands are run with the libraries that the program is put together with.
-/

namespace FramedStream

namespace Command

/-- A complaint about a codec that is none. -/
def unknownCodec (name : String) : Complaint :=
  ⟨s!"unknown codec '{name}'. Valid options: passthrough, zstd, lz4", []⟩

/-- The codec of a name. -/
def codecOf (libs : Libraries) (name : String) (level : Int) : Except Complaint Codec :=
  match Codec.ofName? name level libs with
  | some codec => .ok codec
  | none => .error (unknownCodec name)

/-- A line of a summary. -/
def summaryLine (title text : String) : String := s!"  {title}: {text}"

/-! ### Compression -/

/-- The summary of a compression. -/
def compressSummary (w : Writer) : Summary :=
  { rawBytes := w.stats.rawBytes
    lines :=
      [summaryLine "codec       " w.codec.name,
       summaryLine "block size  " (Quantity.size w.blockSize),
       summaryLine "blocks      " (toString w.stats.blocks),
       summaryLine "raw size    " (Quantity.size w.stats.rawBytes),
       summaryLine "compressed  " (Quantity.size w.stats.framedBytes),
       summaryLine "ratio       "
         (Report.ratioText (Report.ratioOf w.stats.rawBytes w.stats.framedBytes))] }

/-- Write all of an input and close the writer. A writer that fails is given up. No codec that a
command can name is ever interrupted, so no write is made again. -/
def writeInput (w : Writer) (path : String) (contents : Except PathFailure Bytes) :
    Except Complaint (Option Summary) × Writer :=
  match contents with
  | .error f => (.error (.about "compressing" path [f.message]), w.drop)
  | .ok bytes =>
      match w.write bytes with
      | (.error failure, w) => (.error (.about "compressing" path [failure.text]), w.drop)
      | (.ok _, w) =>
          match w.close with
          | (.error e, w) =>
              (.error ⟨"closing output stream", Complaint.reasons e⟩, w)
          | (.ok (), w) => (.ok (some (compressSummary w)), w)

/-- What is left of an input once an output was emptied. -/
def remaining (input : Input) (output : Target) : Except PathFailure Bytes :=
  if input.location.isSome ∧ input.location = output.location then .ok [] else input.contents

/-- Compress an input. -/
def runCompress (libs : Libraries) (disk : Disk) (stdin : Bytes) (input output codec : String)
    (level : Int) (blockSize : Nat) : Outcome :=
  match codecOf libs codec level with
  | .error c => { disk, result := .error c }
  | .ok codec =>
      match Input.ofName disk stdin input with
      | .error c => { disk, result := .error c }
      | .ok source =>
          match Target.create disk output with
          | .error c => { disk, result := .error c }
          | .ok (target, disk) =>
              match Writer.create .unlimited codec blockSize with
              | (.error e, sink) =>
                  target.deliver disk sink.toList
                    (.error (.about "starting stream on" output (Complaint.reasons e)))
              | (.ok w, _) =>
                  let (result, w) := writeInput w input (remaining source target)
                  target.deliver disk w.sink.toList result

/-! ### Decompression -/

/-- The summary of a decompression. -/
def decompressSummary (codec : Codec) (blocks rawBytes : Nat) : Summary :=
  { rawBytes
    lines :=
      [summaryLine "codec       " codec.name,
       summaryLine "blocks      " (toString blocks),
       summaryLine "raw size    " (Quantity.size rawBytes)] }

/-- Copy what a stream holds to an output, which may be the file of the stream. -/
def copyOut (input : Input) (target : Target) (r : Reader) : Copied :=
  match input.contents with
  | .ok contents =>
      if input.location.isSome ∧ input.location = target.location then
        Copied.inPlace contents r
      else Copied.ofReader r
  | .error _ => Copied.ofReader r

/-- Decompress an input. -/
def runDecompress (libs : Libraries) (disk : Disk) (stdin : Bytes) (input output : String) :
    Outcome :=
  match Input.ofName disk stdin input with
  | .error c => { disk, result := .error c }
  | .ok source =>
      match Reader.openBundled source.toSource libs with
      | .error e =>
          { disk, result := .error (.about "reading header of" input (Complaint.reasons e)) }
      | .ok r =>
          match Target.create disk output with
          | .error c => { disk, result := .error c }
          | .ok (target, disk) =>
              let copied := copyOut source target r
              target.deliver disk copied.bytes <|
                match copied.result with
                | .ok blocks => .ok (some (decompressSummary r.codec blocks copied.bytes.length))
                | .error failure => .error (.about "decompressing" input [failure.text])

/-! ### Inspection -/

/-- The lines of a report. -/
def reportLines (report : Report) (blocks json : Bool) : List String :=
  if json then [(report.json blocks).pretty] else report.text blocks

/-- The report on a file. -/
def examine (libs : Libraries) (disk : Disk) (file : String) : Except Complaint Report :=
  match Input.ofPath disk file with
  | .error f => .error (.about "opening" file [f.message])
  | .ok input =>
      match Reader.openBundled input.toSource libs with
      | .error e => .error (.ofError e)
      | .ok r => (Report.ofReader file r).mapError Complaint.ofError

/-- Inspect a file. -/
def runInspect (libs : Libraries) (disk : Disk) (file : String) (blocks json : Bool) : Outcome :=
  match examine libs disk file with
  | .error c => { disk, result := .error c }
  | .ok report =>
      { disk, output := Text.ofLines (reportLines report blocks json), result := .ok none }

/-- An inspection changes nothing on the disk. -/
theorem disk_runInspect (libs : Libraries) (disk : Disk) (file : String) (blocks json : Bool) :
    (runInspect libs disk file blocks json).disk = disk := by
  unfold runInspect
  split <;> rfl

/-- Run a command. -/
def run (libs : Libraries) (disk : Disk) (stdin : Bytes) : Command → Outcome
  | compress input output codec level blockSize =>
      runCompress libs disk stdin input output codec level blockSize
  | decompress input output => runDecompress libs disk stdin input output
  | inspect file blocks json => runInspect libs disk file blocks json

end Command

end FramedStream
