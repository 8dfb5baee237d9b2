import FramedStream.Command
import FramedStream.Command.Disk
import FramedStream.Text.Quoted

/-!
# What commands leave behind

A command leaves a disk, what it put on the standard output, and a result: a summary where one is
given, or a complaint. A complaint states what failed and why, the outermost reason first.
-/

namespace FramedStream

namespace Command

/-- Why a command failed. -/
structure Complaint where
  message : String
  causes : List String := []
  deriving DecidableEq, Repr

/-- What a command tells when it is done, and how many raw bytes went through it. -/
structure Summary where
  lines : List String
  rawBytes : Nat
  deriving DecidableEq, Repr

/-- What a command leaves behind. -/
structure Outcome where
  disk : Disk
  output : Bytes := []
  result : Except Complaint (Option Summary)

namespace Complaint

/-- A cause among several. -/
def numbered (cause : String) (index : Nat) : String :=
  Text.padLeft 5 ' ' (toString index) ++ ": " ++ cause

/-- The lines of some causes. -/
def causeLines : List String → List String
  | [] => []
  | [cause] => ["", "Caused by:", "    " ++ cause]
  | causes => ["", "Caused by:"] ++ causes.zipIdx.map fun (cause, index) => numbered cause index

/-- The lines of a complaint. -/
def lines (c : Complaint) : List String :=
  s!"Error: {c.message}" :: causeLines c.causes

/-- What an error of the library gives as reasons: its words, and below them the words of an I/O
failure by themselves. -/
def reasons : Error → List String
  | .io failure => [(Error.io failure).message, failure.text]
  | e => [e.message]

/-- A complaint about an error of the library. -/
def ofError (e : Error) : Complaint := ⟨e.message, (reasons e).drop 1⟩

/-- A complaint about something that was done with a path. -/
def about (doing path : String) (causes : List String) : Complaint :=
  ⟨s!"{doing} {Text.quoted path}", causes⟩

end Complaint

/-- The exit code of a result. -/
def exitCode {α : Type} : Except Complaint α → UInt32
  | .ok _ => 0
  | .error _ => 1

end Command

end FramedStream
