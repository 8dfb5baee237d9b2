import FramedStream.Error

/-!
# Files and directories

A disk says what stands at each location. A path is resolved step by step from the root or from
the working directory: `.` stays, `..` goes up, and any other step needs a directory to go down
from.

A location stands for a file or a directory, which may be reached by several names. A step to a name
goes where the links of that name lead (`leads`), so two paths name the same file just if they are
resolved to the same location.

* `lookup` finds what a path names. A slash at the end insists on a directory;
* `create` makes an empty file or empties the one that is there. It needs the directory and
  refuses to make one;
* `put` gives a file its contents.

`create_eq_ok` and the lemmas on `put` say that nothing else on the disk changes, and the links of a
disk stay as they are.
-/

namespace FramedStream

/-- A place on a disk: the steps that lead there from the root. -/
abbrev Location := List String

/-- What stands at a location. -/
inductive Entry
  | directory
  | file (contents : Bytes)
  deriving DecidableEq, Repr

/-- Why a path is refused. -/
inductive PathFailure
  | notFound
  | notDirectory
  | isDirectory
  | tooLarge
  | nameTooLong
  | linkLoop
  deriving DecidableEq, Repr

/-- A disk, with the directory in which relative paths start. The root is always a directory. -/
structure Disk where
  entry : Location → Option Entry
  workingDirectory : Location
  /-- Where the name at a location leads: to the location itself, unless the name is a link, or is
  one of several names of a file of which another one stands for it. -/
  leads : Location → Except PathFailure Location := .ok

/-- The number of a failure. -/
def PathFailure.code : PathFailure → Nat
  | notFound => 2
  | notDirectory => 20
  | isDirectory => 21
  | tooLarge => 27
  | nameTooLong => 36
  | linkLoop => 40

/-- A failure in words, without its number. -/
def PathFailure.text : PathFailure → String
  | notFound => "No such file or directory"
  | notDirectory => "Not a directory"
  | isDirectory => "Is a directory"
  | tooLarge => "File too large"
  | nameTooLong => "File name too long"
  | linkLoop => "Too many levels of symbolic links"

/-- A failure in words. -/
def PathFailure.message (f : PathFailure) : String :=
  s!"{f.text} (os error {f.code})"

/-- A failure as one of I/O. -/
def PathFailure.toIo (f : PathFailure) : IoFailure := ⟨.other, f.message⟩

namespace Disk

/-- A disk with nothing on it but its root. -/
def empty (workingDirectory : Location) : Disk := { entry := fun _ => none, workingDirectory }

/-- The longest name of an entry, in bytes. -/
def maxName : Nat := 255

/-- The longest path, in bytes. -/
def maxPath : Nat := 4095

/-- What stands at a location. -/
def entryAt (d : Disk) (location : Location) : Option Entry :=
  if location.isEmpty then some .directory else d.entry location

/-- The disk after a file was given its contents. -/
def put (d : Disk) (location : Location) (contents : Bytes) : Disk :=
  { d with entry := fun l => if l = location then some (.file contents) else d.entry l }

@[simp] theorem entry_put_self (d : Disk) (location : Location) (contents : Bytes) :
    (d.put location contents).entry location = some (.file contents) := by
  simp [put]

theorem entry_put_of_ne (d : Disk) {location other : Location} (contents : Bytes)
    (h : other ≠ location) : (d.put location contents).entry other = d.entry other := by
  simp [put, h]

@[simp] theorem put_put (d : Disk) (location : Location) (first second : Bytes) :
    (d.put location first).put location second = d.put location second := by
  simp only [put, mk.injEq, and_self, and_true]
  funext other
  split <;> rfl

/-- The steps of a path. -/
def stepsOf (path : String) : List String :=
  (path.splitOn "/").filter (· ≠ "")

/-- Where a path starts. -/
def startOf (d : Disk) (path : String) : Location :=
  if path.startsWith "/" then [] else d.workingDirectory

/-- Whether a path has a slash at its end. -/
def endsInSlash (path : String) : Bool := path.endsWith "/"

/-- Whether a step only moves between directories. -/
def isDot (name : String) : Bool := name == "." || name == ".."

/-- The location to which a step leads from a directory. -/
def target (d : Disk) (location : Location) (name : String) : Except PathFailure Location :=
  if name = "." then .ok location
  else if name = ".." then .ok location.dropLast
  else d.leads (location ++ [name])

/-- One step, whatever is found there. -/
def step (d : Disk) (location : Location) (name : String) : Except PathFailure Location :=
  match d.entryAt location with
  | none => .error .notFound
  | some (.file _) => .error .notDirectory
  | some .directory =>
      if maxName < name.utf8ByteSize then .error .nameTooLong
      else d.target location name

/-- One step to something that exists. -/
def enter (d : Disk) (location : Location) (name : String) : Except PathFailure Location :=
  match d.step location name with
  | .error f => .error f
  | .ok there => if (d.entryAt there).isNone then .error .notFound else .ok there

/-- The location of something that exists, at the end of some steps. -/
def walk (d : Disk) (location : Location) (steps : List String) :
    Except PathFailure Location :=
  steps.foldlM d.enter location

/-- Paths that name nothing, whatever the disk. -/
def refuse? (path : String) : Option PathFailure :=
  if path.isEmpty then some .notFound
  else if maxPath < path.utf8ByteSize then some .nameTooLong
  else none

/-- What a path names. -/
def lookup (d : Disk) (path : String) : Except PathFailure (Location × Entry) :=
  match refuse? path with
  | some f => .error f
  | none =>
      match d.walk (d.startOf path) (stepsOf path) with
      | .error f => .error f
      | .ok location =>
          match d.entryAt location with
          | none => .error .notFound
          | some .directory => .ok (location, .directory)
          | some (.file contents) =>
              if endsInSlash path then .error .notDirectory
              else .ok (location, .file contents)

/-- The location of the file that a path names, whether it exists or not. -/
def fileAt (d : Disk) (path : String) : Except PathFailure Location :=
  match refuse? path with
  | some f => .error f
  | none =>
      match (stepsOf path).getLast? with
      | none => .error .isDirectory
      | some name =>
          match d.walk (d.startOf path) (stepsOf path).dropLast with
          | .error f => .error f
          | .ok parent =>
              match d.entryAt parent with
              | none => .error .notFound
              | some (.file _) => .error .notDirectory
              | some .directory =>
                  if isDot name || endsInSlash path then .error .isDirectory
                  else
                    match d.step parent name with
                    | .error f => .error f
                    | .ok location =>
                        if d.entryAt location = some .directory then .error .isDirectory
                        else .ok location

/-- Make an empty file, or empty the one that is there. -/
def create (d : Disk) (path : String) : Except PathFailure (Location × Disk) :=
  (d.fileAt path).map fun location => (location, d.put location [])

/-- Making a file changes nothing but that file. -/
theorem create_eq_ok {d d' : Disk} {path : String} {location : Location} :
    d.create path = .ok (location, d') ↔
      d.fileAt path = .ok location ∧ d' = d.put location [] := by
  unfold create
  cases d.fileAt path with
  | error f => simp [Except.map]
  | ok there =>
    simp only [Except.map, Except.ok.injEq, Prod.mk.injEq]
    constructor
    · rintro ⟨rfl, rfl⟩
      exact ⟨rfl, rfl⟩
    · rintro ⟨rfl, rfl⟩
      exact ⟨rfl, rfl⟩

end Disk

end FramedStream
