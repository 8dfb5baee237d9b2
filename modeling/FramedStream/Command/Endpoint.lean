import FramedStream.Command.Outcome
import FramedStream.Reader.Input

/-!
# The endpoints of commands

An input is a file, a directory or the standard input. A directory can be opened as well as a
file; it is the first read that fails. An output is a file, which is made or emptied, or the
standard output.
-/

namespace FramedStream

namespace Command

/-- An opened input: where it is on the disk, if it is there, and what it delivers. -/
structure Input where
  location : Option Location
  contents : Except PathFailure Bytes

/-- An opened output: where it is on the disk, unless it is the standard output. -/
structure Target where
  location : Option Location

namespace Input

/-- The file or directory of a path. -/
def ofPath (disk : Disk) (path : String) : Except PathFailure Input :=
  (disk.lookup path).map fun (location, entry) =>
    { location := some location
      contents :=
        match entry with
        | .file contents => .ok contents
        | .directory => .error .isDirectory }

/-- The input of a command. -/
def ofName (disk : Disk) (stdin : Bytes) (path : String) : Except Complaint Input :=
  if isStandard path then .ok { location := none, contents := .ok stdin }
  else
    match ofPath disk path with
    | .ok input => .ok input
    | .error f => .error (.about "opening input file" path [f.message])

/-- An input as a source. -/
def toSource (i : Input) : Source :=
  match i.contents with
  | .ok contents => .ofBytes contents
  | .error f => { rest := [], script := [.fail f.toIo] }

end Input

namespace Target

/-- Make or empty the output of a command. -/
def create (disk : Disk) (path : String) : Except Complaint (Target × Disk) :=
  if isStandard path then .ok (⟨none⟩, disk)
  else
    match disk.create path with
    | .ok (location, disk) => .ok (⟨some location⟩, disk)
    | .error f => .error (.about "creating output file" path [f.message])

/-- What a command leaves behind that wrote these bytes. -/
def deliver (t : Target) (disk : Disk) (bytes : Bytes)
    (result : Except Complaint (Option Summary)) : Outcome :=
  match t.location with
  | none => { disk, output := bytes, result }
  | some location => { disk := disk.put location bytes, result }

end Target

end Command

end FramedStream
