import FramedStream.Zstd.Streams

/-!
# The literals of a block

A block starts with its literals, which are stored in one of four ways: verbatim, as one repeated
byte, Huffman coded with the description of the code, or Huffman coded by the code of an earlier
block. The first bits say which way it is and how wide the sizes are.

Verbatim literals are read where they stand if enough bytes follow them. All others are unpacked
first, and have to be kept somewhere until the sequences of the block take them.
-/

namespace FramedStream.Zstd

/-- The free bytes that are kept after literals, and after what a block makes: both are copied in
pieces of this size, so a copy may run over by less than that. -/
def margin : Nat := 32

/-- Literals, the code that later blocks may use again, and the bytes after them. -/
structure Literals where
  bytes : Array UInt8
  code : Option Huffman.Table
  rest : Bytes
  /-- Whether they are read where they stand. -/
  inPlace : Bool

namespace Literals

/-- The size of verbatim or repeated literals and the bytes after the sizes. -/
def readPlainSize? (bytes : Bytes) : Option (Nat × Bytes) :=
  match bytes with
  | [] => none
  | head :: _ =>
      match head.toNat / 4 % 4 with
      | 1 => (Bytes.split? 2 bytes).map fun (field, rest) => (Bytes.toNatLE field / 16, rest)
      | 3 => (Bytes.split? 3 bytes).map fun (field, rest) => (Bytes.toNatLE field / 16, rest)
      | _ => (Bytes.split? 1 bytes).map fun (field, rest) => (Bytes.toNatLE field / 8, rest)

/-- Whether coded literals are in four streams, their size, their coded size, and the bytes after
the sizes. -/
def readCodedSizes? (bytes : Bytes) : Option (Bool × Nat × Nat × Bytes) :=
  match bytes with
  | [] => none
  | head :: _ =>
      let format := head.toNat / 4 % 4
      let (width, bits) := if format < 2 then (3, 10) else if format = 2 then (4, 14) else (5, 18)
      if (bytes.take 5).length < 5 then none
      else
        (Bytes.split? width bytes).map fun (field, rest) =>
          let number := Bytes.toNatLE field / 16
          (format ≠ 0, number % 2 ^ bits, number / 2 ^ bits % 2 ^ bits, rest)

/-- Decode Huffman coded literals. -/
def decodeCoded? (table : Huffman.Table) (inFour : Bool) (size : Nat) (bytes : Bytes) :
    Option (Array UInt8) :=
  if inFour then Huffman.decodeFour? table size bytes else Huffman.decode? table size #[] bytes

/-- Read the literals of a block, at most `most` of them. -/
def read? (most : Nat) (code : Option Huffman.Table) (bytes : Bytes) : Option Literals :=
  match bytes with
  | [] | [_] => none
  | head :: _ =>
      match head.toNat % 4 with
      | 0 => do
          let (size, rest) ← readPlainSize? bytes
          if most < size then none
          else
            let (literals, rest) ← Bytes.split? size rest
            some ⟨literals.toArray, code, rest, margin ≤ rest.length⟩
      | 1 => do
          let (size, rest) ← readPlainSize? bytes
          if most < size then none
          else
            match rest with
            | [] => none
            | byte :: rest => some ⟨Array.replicate size byte, code, rest, false⟩
      | 2 => do
          let (inFour, size, codedSize, rest) ← readCodedSizes? bytes
          if most < size then none
          else
            let (coded, rest) ← Bytes.split? codedSize rest
            let (table, coded) ← Huffman.readTable? coded
            let inPairs := inFour && Huffman.favoursPairs size codedSize
            let table := { table with inPairs }
            let literals ← decodeCoded? table inFour size coded
            some ⟨literals, some table, rest, false⟩
      | _ => do
          let table ← code
          let (inFour, size, codedSize, rest) ← readCodedSizes? bytes
          if most < size then none
          else
            let (coded, rest) ← Bytes.split? codedSize rest
            let literals ← decodeCoded? table inFour size coded
            some ⟨literals, code, rest, false⟩

end Literals

end FramedStream.Zstd
