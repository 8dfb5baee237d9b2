import FramedStream.Factor
import FramedStream.Zstd.Literals

/-!
# The sequences of a block

After its literals a block tells how they are put together: each sequence takes some literals and
then copies from what came before. Count of literals, length and distance are each given by a
code (`lengthCode`, `copyCode`, `2 ^ code` for distances) and extra bits. The codes come from
three decoders of finite states, whose tables are predefined, of a single code, described in the
block, or those of the block before.

* `Tables.read?` reads the count of sequences and the tables;
* `History` keeps the last three distances, which have codes of their own;
* `execute?` carries out a block.
-/

namespace FramedStream.Zstd

open Fse (Distribution)

/-- What a code stands for: a number to which extra bits are added. -/
structure Range where
  base : Nat
  bits : Nat
  deriving Repr, Inhabited, DecidableEq

/-- The ranges that follow one another from `base` on with these widths. -/
def rangesFrom (base : Nat) : List Nat → List Range
  | [] => []
  | bits :: rest => ⟨base, bits⟩ :: rangesFrom (base + 2 ^ bits) rest

/-- The counts of literals that the codes stand for. -/
def literalRanges : Array Range :=
  (rangesFrom 0 (List.replicate 16 0 ++
    [1, 1, 1, 1, 2, 2, 3, 3, 4, 6, 7, 8, 9, 10, 11, 12, 13, 14, 15, 16])).toArray

/-- The lengths of copies that the codes stand for. -/
def copyRanges : Array Range :=
  (rangesFrom 3 (List.replicate 32 0 ++
    [1, 1, 1, 1, 2, 2, 3, 3, 4, 4, 5, 7, 8, 9, 10, 11, 12, 13, 14, 15, 16])).toArray

/-- The greatest code of a distance. -/
def maxDistanceCode : Nat := 31

/-! ### Tables -/

/-- The predefined distribution of the codes for counts of literals. -/
def literalDistribution : Distribution :=
  ⟨6, [4, 3, 2, 2, 2, 2, 2, 2, 2, 2, 2, 2, 2, 1, 1, 1, 2, 2, 2, 2, 2, 2, 2, 2, 2, 3, 2, 1, 1, 1,
    1, 1, -1, -1, -1, -1]⟩

/-- The predefined distribution of the codes for lengths of copies. -/
def copyDistribution : Distribution :=
  ⟨6, [1, 4, 3, 2, 2, 2, 2, 2, 2, 1, 1, 1, 1, 1, 1, 1, 1, 1, 1, 1, 1, 1, 1, 1, 1, 1, 1, 1, 1, 1,
    1, 1, 1, 1, 1, 1, 1, 1, 1, 1, 1, 1, 1, 1, 1, 1, -1, -1, -1, -1, -1, -1, -1]⟩

/-- The predefined distribution of the codes for distances. -/
def distanceDistribution : Distribution :=
  ⟨5, [1, 1, 1, 1, 1, 1, 2, 2, 2, 1, 1, 1, 1, 1, 1, 1, 1, 1, 1, 1, 1, 1, 1, 1, -1, -1, -1, -1,
    -1]⟩

/-- The decoders of the three codes. -/
structure Tables where
  literals : Fse.Table
  distances : Fse.Table
  copies : Fse.Table

/-- Read one table in the way that `mode` says, and the bytes after it. -/
def readTable? (mode maxCode maxAccuracy : Nat) (predefined : Distribution)
    (before : Option Fse.Table) (bytes : Bytes) : Option (Fse.Table × Bytes) :=
  match mode with
  | 0 => some (.ofDistribution predefined, bytes)
  | 1 =>
      match bytes with
      | [] => none
      | code :: rest => if maxCode < code.toNat then none else some (.single code.toNat, rest)
  | 2 =>
      (Distribution.read? maxCode maxAccuracy bytes.toArray).map fun (d, size) =>
        (.ofDistribution d, bytes.drop size)
  | _ => before.map (·, bytes)

/-- The count of sequences, and the bytes after it. -/
def readCount? : Bytes → Option (Nat × Bytes)
  | [] => none
  | head :: rest =>
      if head < 128 then some (head.toNat, rest)
      else if head < 255 then
        match rest with
        | [] => none
        | low :: rest => some ((head.toNat - 128) * 256 + low.toNat, rest)
      else
        (Bytes.split? 2 rest).map fun (field, rest) => (Bytes.toNatLE field + 0x7f00, rest)

/-- Read the three tables. Two bits for each say how it is given, and two bits are reserved. -/
def Tables.read? (before : Option Tables) : Bytes → Option (Tables × Bytes)
  | [] => none
  | modes :: bytes =>
      let modes := modes.toNat
      if modes % 4 ≠ 0 then none
      else do
        let (literals, bytes) ← readTable? (modes / 64) 35 9 literalDistribution
          (before.map (·.literals)) bytes
        let (distances, bytes) ← readTable? (modes / 16 % 4) maxDistanceCode 8
          distanceDistribution (before.map (·.distances)) bytes
        let (copies, bytes) ← readTable? (modes / 4 % 4) 52 9 copyDistribution
          (before.map (·.copies)) bytes
        some (⟨literals, distances, copies⟩, bytes)

/-! ### Distances -/

/-- The last three distances, the latest first. -/
structure History where
  first : Nat
  second : Nat
  third : Nat
  deriving Repr, DecidableEq

namespace History

/-- What a frame starts with. -/
def initial : History := ⟨1, 4, 8⟩

/-- The distance that a number stands for, and the history with it. Above 3 the number is the
distance and 3. From 1 to 3 it chooses from the history, one further back if the copy follows
another one directly, and then after the third comes the first less 1. -/
def resolve (h : History) (number literals : Nat) : Nat × History :=
  if 3 < number then (number - 3, ⟨number - 3, h.first, h.second⟩)
  else
    match number + (if literals = 0 then 1 else 0) with
    | 1 => (h.first, h)
    | 2 => (h.second, ⟨h.second, h.first, h.third⟩)
    | 3 => (h.third, ⟨h.third, h.first, h.second⟩)
    | _ => (h.first - 1, ⟨h.first - 1, h.first, h.second⟩)

end History

/-! ### Execution -/

/-- What a block has made so far. -/
structure Progress where
  out : Array UInt8
  /-- How many of the literals of the block are used. -/
  used : Nat
  history : History

/-- Where a block may write and copy from: the end of the room and the start of the frame. -/
structure Bounds where
  room : Nat
  frameStart : Nat

/-- Take literals and copy. It fails if there are too few literals, the copy starts before the
frame or the room ends. -/
def Progress.step? (bounds : Bounds) (literals : Array UInt8) (p : Progress)
    (count distance length : Nat) (history : History) : Option Progress :=
  if literals.size < p.used + count then none
  else
    let out := p.out ++ literals.extract p.used (p.used + count)
    if bounds.room < out.size + length then none
    else if distance = 0 ∨ out.size - bounds.frameStart < distance then none
    else some ⟨copyBack out distance length, p.used + count, history⟩

/-- Carry out `count` sequences and check that their stream is used up. The states move between
two sequences, not after the last one. -/
def runSequences? (bounds : Bounds) (literals : Array UInt8) (tables : Tables) :
    (count : Nat) → (lit dist copy : Fse.Cell) → BitReader → Progress → Option Progress
  | 0, _, _, _, r, p => if r.isFinished then some p else none
  | count + 1, lit, dist, copy, r, p =>
      let (extra, r) := r.read dist.symbol
      let number := 2 ^ dist.symbol + extra
      let copyRange := copyRanges.getD copy.symbol default
      let (extra, r) := r.read copyRange.bits
      let length := copyRange.base + extra
      let literalRange := literalRanges.getD lit.symbol default
      let (extra, r) := r.read literalRange.bits
      let literalCount := literalRange.base + extra
      let (distance, history) := p.history.resolve number literalCount
      match p.step? bounds literals literalCount distance length history with
      | none => none
      | some p =>
          if count = 0 then (if r.isFinished then some p else none)
          else
            let (lit, r) := tables.literals.next lit r
            let (copy, r) := tables.copies.next copy r
            let (dist, r) := tables.distances.next dist r
            runSequences? bounds literals tables count lit dist copy r p

/-- The literals that no sequence has taken end the block. -/
def Progress.finish? (bounds : Bounds) (literals : Array UInt8) (p : Progress) :
    Option Progress :=
  let out := p.out ++ literals.extract p.used literals.size
  if bounds.room < out.size then none else some { p with out, used := literals.size }

/-- Carry out the sequences of a block, which are the rest of its bytes. The tables of a block
without sequences are those before it. -/
def execute? (bounds : Bounds) (out : Array UInt8) (literals : Array UInt8) (history : History)
    (before : Option Tables) (bytes : Bytes) : Option (Progress × Option Tables) := do
  let (count, bytes) ← readCount? bytes
  let start : Progress := ⟨out, 0, history⟩
  if count = 0 then
    if bytes.isEmpty then (start.finish? bounds literals).map (·, before) else none
  else
    let (tables, bytes) ← Tables.read? before bytes
    let r ← BitReader.ofBytes? bytes.toArray
    let (lit, r) := tables.literals.start r
    let (dist, r) := tables.distances.start r
    let (copy, r) := tables.copies.start r
    let p ← runSequences? bounds literals tables count lit dist copy r start
    (p.finish? bounds literals).map (·, some tables)

end FramedStream.Zstd
