import FramedStream.Command.Response

/-!
# The program

The program looks at the places on the real disk that its paths lead through, lets the command
run on what it found, and then writes what has changed. The links that it comes upon on the way are
followed; the names of a file that has several of them are files of their own here.
-/

namespace FramedStream

namespace Program

/-- What stands at a location of the real disk. -/
def entryOnDisk (location : Location) : IO (Option Entry) := do
  let path := System.mkFilePath ("/" :: location)
  if ← path.isDir then return some .directory
  else if ← path.pathExists then return some (.file (← IO.FS.readBinFile path).toList)
  else return none

/-- Where the links of a name on the real disk lead, if they lead anywhere. -/
def leadsOnDisk (location : Location) : IO Location := do
  try
    let path ← IO.FS.realPath (System.mkFilePath ("/" :: location))
    return Disk.stepsOf path.toString
  catch _ => return location

/-- The locations that a path leads through on the real disk, each behind the name that leads
there. -/
def trailOnDisk (disk : Disk) (path : String) : IO (List (Location × Location)) := do
  let start := disk.startOf path
  let mut trail := [(start, start)]
  let mut location := start
  for name in Disk.stepsOf path do
    if name = ".." then location := location.dropLast
    else if name ≠ "." then
      let named := location ++ [name]
      location ← leadsOnDisk named
      trail := (named, location) :: trail
    trail := (location, location) :: trail
  return trail

/-- The entries at some locations of the real disk. -/
def entriesOnDisk (locations : List Location) : IO (List (Location × Entry)) := do
  let entries ← locations.mapM fun location => return (location, ← entryOnDisk location)
  return entries.filterMap fun (location, entry) => entry.map fun entry => (location, entry)

/-- Write the files at some locations that a command has changed. -/
def save (old new : Disk) (locations : List Location) : IO Unit := do
  for location in locations do
    match new.entry location with
    | some (.file bytes) =>
        if old.entry location ≠ some (.file bytes) then
          IO.FS.writeBinFile (System.mkFilePath ("/" :: location)) ⟨bytes.toArray⟩
    | _ => pure ()

/-- All bytes of an input, after those read already. -/
partial def readAll (input : IO.FS.Stream) (got : ByteArray) : IO ByteArray := do
  let piece ← input.read 65536
  if piece.isEmpty then return got else readAll input (got ++ piece)

/-- Respond to a request, with the time it takes. -/
def perform (request : Command.Request) : IO UInt32 := do
  let workingDirectory := Disk.stepsOf (← IO.currentDir).toString
  let nowhere := Disk.empty workingDirectory
  let (paths, readsInput) := match request with
    | .run command => (command.paths, command.readsStandardInput)
    | _ => ([], false)
  let trail := (← paths.mapM (trailOnDisk nowhere)).flatten
  let locations := (trail.map (·.2)).eraseDups
  let entries ← entriesOnDisk locations
  let disk : Disk :=
    { nowhere with
      entry := fun location => entries.lookup location
      leads := fun location => .ok ((trail.lookup location).getD location) }
  let stdin ← if readsInput then readAll (← IO.getStdin) .empty else pure .empty
  let start ← IO.monoNanosNow
  let response := Command.respond .plain disk stdin.toList request
  save disk response.disk locations
  (← IO.getStdout).write ⟨response.output.toArray⟩
  (← IO.getStdout).flush
  let elapsed := (← IO.monoNanosNow) - start
  let timing := match response.timed with
    | some rawBytes => Command.timingLines rawBytes elapsed
    | none => []
  for line in response.errors ++ timing do
    IO.eprintln line
  return response.code

end Program

end FramedStream

/-- Respond to the arguments of the command line. -/
def main (args : List String) : IO UInt32 :=
  FramedStream.Program.perform (FramedStream.Command.Request.ofArguments args)
