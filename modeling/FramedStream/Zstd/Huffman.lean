import FramedStream.Zstd.Fse

/-!
# Huffman codes of literals

A code is given by weights: a symbol of weight `w > 0` has a code of `accuracy + 1 - w` bits, and
the weights of a complete code stand for shares `2 ^ (w - 1)` that add up to `2 ^ accuracy`. The
weight of the last symbol is not written, because it follows from the others.

* `readWeights?` reads a description, direct or compressed by finite states;
* `complete?` adds the weight that is not written;
* `Table.ofWeights` builds the table, and `readTable?` does all of these;
* `Table.lookUp` decodes one symbol or two.
-/

namespace FramedStream.Zstd.Huffman

open Fse (Distribution Cell)

/-- The greatest weight, and the greatest number of bits of a code. -/
def maxBits : Nat := 12

/-- The most weights that a description may give. -/
def maxWeights : Nat := 255

/-- A decoder: for each value of `accuracy` bits, the symbol that starts there and the number of
bits of its code. -/
structure Table where
  accuracy : Nat
  cells : Array (UInt8 × Nat)
  /-- Whether one look-up may give two symbols. -/
  inPairs : Bool
  deriving Repr

/-! ### Weights -/

/-- Read weights that were compressed by two alternating states, until the stream is overrun: the
state that was to move gives nothing more, and the other its last symbol. The weights come out
last first. -/
def readAlternating (table : Fse.Table) :
    (most : Nat) → (cell other : Cell) → BitReader → List Nat → Option (List Nat)
  | 0, _, _, _, _ => none
  | most + 1, cell, other, r, weights =>
      let (moved, r) := table.next cell r
      let weights := cell.symbol :: weights
      if most = 0 then none
      else if r.overrun then some (other.symbol :: weights)
      else readAlternating table most other moved r weights

/-- The weights of a description compressed by finite states. Its table must not need more space
than one of accuracy 6 over 12 symbols. -/
def readCompressed? (bytes : Bytes) : Option (List Nat) :=
  match Distribution.read? 255 6 bytes.toArray with
  | none => none
  | some (d, size) =>
      if 88 < 2 ^ d.accuracy + (2 * d.shares.length + 2 ^ d.accuracy + 11) / 4 then none
      else
        match BitReader.ofBytes? (bytes.drop size).toArray with
        | none => none
        | some r =>
            let table := Fse.Table.ofDistribution d
            let (first, r) := table.start r
            let (second, r) := table.start r
            if r.overrun then none
            else (readAlternating table maxWeights first second r []).map List.reverse

/-- The `count` weights in half bytes, the high half first. -/
def halves (count : Nat) (bytes : Bytes) : List Nat :=
  (bytes.flatMap fun b => [b.toNat / 16, b.toNat % 16]).take count

/-- Read the weights of a description, and the bytes after it. -/
def readWeights? : Bytes → Option (List Nat × Bytes)
  | [] => none
  | head :: bytes =>
      if head < 128 then
        match Bytes.split? head.toNat bytes with
        | none => none
        | some (description, rest) => (readCompressed? description).map (·, rest)
      else
        let count := head.toNat - 127
        (Bytes.split? ((count + 1) / 2) bytes).map fun (description, rest) =>
          (halves count description, rest)

/-- The share of a weight, in halves. -/
def share (weight : Nat) : Nat := 2 ^ weight / 2

/-- The weights with the last one, and the accuracy, if the shares that are given leave a power of
two and the shortest codes come in pairs. -/
def complete? (weights : List Nat) : Option (List Nat × Nat) :=
  let total := (weights.map share).sum
  if weights.any (maxBits < ·) || total = 0 then none
  else
    let accuracy := total.log2 + 1
    let rest := 2 ^ accuracy - total
    if maxBits < accuracy || 2 ^ rest.log2 ≠ rest then none
    else
      let weights := weights ++ [rest.log2 + 1]
      let ones := weights.count 1
      if ones < 2 || ones % 2 = 1 then none else some (weights, accuracy)

/-! ### Decoding -/

/-- The table of complete weights: the longest codes first, and codes of one length in the order
of their symbols. -/
def Table.ofWeights (weights : List Nat) (accuracy : Nat) : Table :=
  let cells :=
    (List.range accuracy).flatMap fun i =>
      weights.zipIdx.flatMap fun (weight, symbol) =>
        if weight = i + 1 then List.replicate (2 ^ i) (UInt8.ofNat symbol, accuracy - i) else []
  ⟨accuracy, cells.toArray, false⟩

/-- Read the description of a code, and the bytes after it. -/
def readTable? (bytes : Bytes) : Option (Table × Bytes) :=
  match readWeights? bytes with
  | none => none
  | some (weights, rest) =>
      (complete? weights).map fun (weights, accuracy) => (.ofWeights weights accuracy, rest)

/-- What a look-up gives: a symbol, perhaps another one, and the bits of both. -/
structure Found where
  symbol : UInt8
  another : Option UInt8
  bits : Nat
  deriving Repr, DecidableEq

namespace Table

/-- The accuracy that a look-up has at least. -/
def leastWidth : Nat := 11

/-- The bits that a look-up looks at. -/
def width (table : Table) : Nat := max leastWidth table.accuracy

/-- The symbol whose code a value of `width` bits starts with, and the number of its bits. -/
def cell (table : Table) (value : Nat) : UInt8 × Nat :=
  table.cells.getD (value / 2 ^ (table.width - table.accuracy)) (0, 0)

/-- Decode a value of `width` bits. It gives a second symbol if the table works in pairs and the
codes of both lie within these bits. -/
def lookUp (table : Table) (value : Nat) : Found :=
  let (symbol, bits) := table.cell value
  if table.inPairs then
    let (another, more) := table.cell (value * 2 ^ bits % 2 ^ table.width)
    if bits + more ≤ table.width then ⟨symbol, some another, bits + more⟩
    else ⟨symbol, none, bits⟩
  else ⟨symbol, none, bits⟩

end Table

/-- The time that decoding is expected to take: once for the table, and for each 256 symbols. -/
structure Cost where
  table : Nat
  symbols : Nat
  deriving Repr

/-- The whole time for some number of symbols. -/
def Cost.total (cost : Cost) (size : Nat) : Nat := cost.table + cost.symbols * (size / 256)

/-- What single symbols and pairs cost, by the compressed size in sixteenths of the size. -/
def costs : List (Cost × Cost) :=
  [(⟨0, 0⟩, ⟨1, 1⟩), (⟨0, 0⟩, ⟨1, 1⟩), (⟨150, 216⟩, ⟨381, 119⟩), (⟨170, 205⟩, ⟨514, 112⟩),
   (⟨177, 199⟩, ⟨539, 110⟩), (⟨197, 194⟩, ⟨644, 107⟩), (⟨221, 192⟩, ⟨735, 107⟩),
   (⟨256, 189⟩, ⟨881, 106⟩), (⟨359, 188⟩, ⟨1167, 109⟩), (⟨582, 187⟩, ⟨1570, 114⟩),
   (⟨688, 187⟩, ⟨1712, 122⟩), (⟨825, 186⟩, ⟨1965, 136⟩), (⟨976, 185⟩, ⟨2131, 150⟩),
   (⟨1180, 186⟩, ⟨2070, 175⟩), (⟨1377, 185⟩, ⟨1731, 202⟩), (⟨1412, 185⟩, ⟨1695, 202⟩)]

/-- Whether pairs are expected to be faster, by a margin of a part in 32, for literals of a size
that are compressed to `codedSize` bytes. -/
def favoursPairs (size codedSize : Nat) : Bool :=
  let ratio := if size ≤ codedSize then 15 else codedSize * 16 / size
  match costs[ratio]? with
  | none => false
  | some (singles, pairs) =>
      pairs.total size + pairs.total size / 32 < singles.total size

end FramedStream.Zstd.Huffman
