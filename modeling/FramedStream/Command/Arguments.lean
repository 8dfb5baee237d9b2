import FramedStream.Command
import FramedStream.Decimal.Digits

/-!
# Command line arguments

Arguments are read from left to right into a draft, and the first that does not fit ends the
reading.

* A switch is `--name`, or `-n` if it has a letter. A switch with a value takes it from the same
  argument (`--name=value`, `-nvalue`, `-n=value`) or else from the next one, which must not look
  like a switch itself.
* `--` ends the switches. A lone `-` is no switch.
* No switch may be given twice.
* `-h` and `--help` ask for help as soon as they are reached.
-/

namespace FramedStream

namespace Command

/-- Why the arguments are not read to their end. -/
inductive Halt
  | misuse
  | help
  deriving DecidableEq, Repr

/-- What a switch does to the draft; a value that does not fit is refused. -/
inductive Effect (α : Type)
  | flag (set : α → Option α)
  | value (set : String → α → Option α)

/-- A switch. -/
structure Switch (α : Type) where
  long : String
  short : Option Char := none
  effect : Effect α

/-- The arguments of a command: its switches, and what becomes of any other argument. -/
structure Usage (α : Type) where
  switches : List (Switch α)
  place : String → α → Option α

/-- The draft after a switch, or a switch that still wants its value. -/
inductive Progress (α : Type)
  | drafted (draft : α)
  | wanting (set : String → α → Option α)

/-- Whether an argument is taken for a switch. -/
def isSwitch (arg : String) : Bool :=
  match arg.toList with
  | '-' :: _ :: _ => true
  | _ => false

/-- Refusal as misuse. -/
def orMisuse {α : Type} : Option α → Except Halt α
  | some a => .ok a
  | none => .error .misuse

namespace Usage

variable {α : Type}

/-- A long switch, with what stands after the equals sign if there is one. -/
def long (u : Usage α) (name : String) (attached : Option String) (draft : α) :
    Except Halt (Progress α) :=
  match u.switches.find? (·.long = name) with
  | none => .error (if name = "help" ∧ attached.isNone then .help else .misuse)
  | some switch =>
      match switch.effect, attached with
      | .flag set, none => (orMisuse (set draft)).map .drafted
      | .flag _, some _ => .error .misuse
      | .value set, some value => (orMisuse (set value draft)).map .drafted
      | .value set, none => .ok (.wanting set)

/-- The letters of short switches. The first that takes a value has the rest for it. -/
def short (u : Usage α) : (letters : List Char) → (draft : α) → Except Halt (Progress α)
  | [], draft => .ok (.drafted draft)
  | c :: letters, draft =>
      match u.switches.find? (·.short = some c) with
      | none => .error (if c = 'h' then .help else .misuse)
      | some switch =>
          match switch.effect, letters with
          | .flag set, letters =>
              match set draft with
              | none => .error .misuse
              | some draft => u.short letters draft
          | .value set, [] => .ok (.wanting set)
          | .value set, '=' :: value | .value set, value =>
              (orMisuse (set (String.ofList value) draft)).map .drafted

/-- An argument that is taken for a switch. -/
def switch (u : Usage α) (arg : String) (draft : α) : Except Halt (Progress α) :=
  match arg.toList with
  | '-' :: '-' :: name =>
      match name.span (· ≠ '=') with
      | (name, []) => u.long (String.ofList name) none draft
      | (name, _ :: value) => u.long (String.ofList name) (some (String.ofList value)) draft
  | _ :: letters => u.short letters draft
  | [] => .error .misuse

/-- Arguments none of which is taken for a switch. -/
def readPlain (u : Usage α) (args : List String) (draft : α) : Except Halt α :=
  args.foldlM (fun draft arg => orMisuse (u.place arg draft)) draft

/-- Arguments, from left to right. -/
def read (u : Usage α) : (args : List String) → (draft : α) → Except Halt α
  | [], draft => .ok draft
  | arg :: args, draft =>
      if arg = "--" then u.readPlain args draft
      else if isSwitch arg then
        match u.switch arg draft, args with
        | .error halt, _ => .error halt
        | .ok (.drafted draft), args => u.read args draft
        | .ok (.wanting _), [] => .error .misuse
        | .ok (.wanting set), value :: args =>
            if isSwitch value then .error .misuse
            else
              match set value draft with
              | none => .error .misuse
              | some draft => u.read args draft
      else
        match u.place arg draft with
        | none => .error .misuse
        | some draft => u.read args draft

end Usage

/-! ### The three commands -/

/-- A setting that must not have been given before. -/
def once {α : Type} (old : Option α) (new : Option α) : Option (Option α) :=
  match old, new with
  | none, some a => some (some a)
  | _, _ => none

/-- One more path, if there is room for it and it is not empty. -/
def addPath (most : Nat) (paths : List String) (path : String) : Option (List String) :=
  if path.isEmpty ∨ most ≤ paths.length then none else some (paths ++ [path])

/-- The arguments of a compression, as far as they were given. -/
structure CompressDraft where
  paths : List String := []
  codec : Option String := none
  level : Option Int := none
  blockSize : Option Nat := none

/-- A level, in 32 bits. -/
def level? (value : String) : Option Int :=
  (Decimal.intOf? value.toList).filter fun n => -2 ^ 31 ≤ n ∧ n < 2 ^ 31

/-- A block size, in 64 bits. -/
def blockSize? (value : String) : Option Nat :=
  (Decimal.natOf? value.toList).filter (· < 2 ^ 64)

/-- The arguments of a compression. -/
def compressUsage : Usage CompressDraft where
  switches :=
    [{ long := "codec", short := some 'c'
       effect := .value fun value d =>
         (once d.codec (some value)).map fun codec => { d with codec } },
     { long := "zstd-level"
       effect := .value fun value d =>
         (once d.level (level? value)).map fun level => { d with level } },
     { long := "block-size", short := some 'b'
       effect := .value fun value d =>
         (once d.blockSize (blockSize? value)).map fun blockSize => { d with blockSize } }]
  place path d := (addPath 2 d.paths path).map fun paths => { d with paths }

/-- The arguments of a decompression. -/
def decompressUsage : Usage (List String) where
  switches := []
  place path paths := addPath 2 paths path

/-- The arguments of an inspection, as far as they were given. -/
structure InspectDraft where
  paths : List String := []
  blocks : Bool := false
  json : Bool := false

/-- The arguments of an inspection. -/
def inspectUsage : Usage InspectDraft where
  switches :=
    [{ long := "blocks"
       effect := .flag fun d => if d.blocks then none else some { d with blocks := true } },
     { long := "json"
       effect := .flag fun d => if d.json then none else some { d with json := true } }]
  place path d := (addPath 1 d.paths path).map fun paths => { d with paths }

/-- A compression. -/
def readCompress (args : List String) : Except Halt Command := do
  let d ← compressUsage.read args {}
  match d.paths with
  | [input, output] =>
      return compress input output (d.codec.getD defaultCodec) (d.level.getD Codec.defaultLevel)
        (d.blockSize.getD defaultBlockSize)
  | _ => throw .misuse

/-- A decompression. -/
def readDecompress (args : List String) : Except Halt Command := do
  match ← decompressUsage.read args [] with
  | [input, output] => return decompress input output
  | _ => throw .misuse

/-- An inspection. -/
def readInspect (args : List String) : Except Halt Command := do
  let d ← inspectUsage.read args {}
  match d.paths with
  | [file] => return inspect file d.blocks d.json
  | _ => throw .misuse

/-! ### All arguments -/

/-- What the arguments ask for. -/
inductive Request
  | run (command : Command)
  | version
  | help
  | misuse
  deriving DecidableEq, Repr

/-- What the arguments of a command ask for. -/
def Request.ofCommand : Except Halt Command → Request
  | .ok command => .run command
  | .error .help => .help
  | .error .misuse => .misuse

/-- Short switches in front of a command. The first of them decides. -/
def Request.ofLetters : List Char → Request
  | 'V' :: _ => .version
  | 'h' :: _ => .help
  | _ => .misuse

/-- Whether help exists on these words. -/
def isTopic : List String → Bool
  | [] => true
  | [topic] => ["compress", "decompress", "inspect", "help"].contains topic
  | _ => false

/-- What the arguments ask for. -/
def Request.ofArguments : List String → Request
  | [] => .misuse
  | "compress" :: args => .ofCommand (readCompress args)
  | "decompress" :: args => .ofCommand (readDecompress args)
  | "inspect" :: args => .ofCommand (readInspect args)
  | "help" :: topic => if isTopic topic then .help else .misuse
  | "--version" :: _ => .version
  | "--help" :: _ => .help
  | arg :: _ =>
      match arg.toList with
      | '-' :: '-' :: _ => .misuse
      | '-' :: letters => .ofLetters letters
      | _ => .misuse

end Command

end FramedStream
