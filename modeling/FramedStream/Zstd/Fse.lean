import FramedStream.Zstd.Bits

/-!
# Finite state entropy

A distribution gives each symbol a share of the `2 ^ accuracy` states of a decoder. A share of
-1 is that of a symbol that is rarer than one state: it gets one, from the end of the table, and
takes all bits anew.

* `Distribution.read?` reads the description of a distribution;
* `Table.ofDistribution` spreads the symbols over the states;
* `Table.start` and `Table.next` are the steps of a decoder.
-/

namespace FramedStream.Zstd.Fse

/-- The share of each symbol, from symbol 0 on. -/
structure Distribution where
  accuracy : Nat
  shares : List Int
  deriving Repr

namespace Distribution

/-- The symbols that a repeat count after an unused symbol skips, and the bit after the count:
threes go on. -/
def readSkip (bytes : Array UInt8) (place : Nat) : (most : Nat) → Nat × Nat
  | 0 => (0, place)
  | most + 1 =>
      match bitsFrom bytes place 2 with
      | 3 =>
          let (skipped, place) := readSkip bytes (place + 2) most
          (skipped + 3, place)
      | skipped => (skipped, place + 2)

/-- Read shares as long as states remain, for at most `most` more symbols. What `remaining`
counts is one more than the states that remain. The shares come out last first, with the bit
after them. -/
def readShares (bytes : Array UInt8) :
    (most remaining place : Nat) → List Int → Option (List Int × Nat)
  | 0, _, _, _ => none
  | most + 1, remaining, place, shares =>
      let width := remaining.log2
      let spare := 2 ^ (width + 1) - 1 - remaining
      let short := bitsFrom bytes place width
      let (value, place) :=
        if short < spare then (short, place + width)
        else
          let long := bitsFrom bytes place (width + 1)
          (if 2 ^ width ≤ long then long - spare else long, place + (width + 1))
      let remaining := remaining - (if value = 0 then 1 else value - 1)
      let shares := ((value : Int) - 1) :: shares
      if remaining ≤ 1 then (if remaining = 1 then some (shares, place) else none)
      else if value = 1 then
        let (skipped, place) := readSkip bytes place most
        if skipped < most then
          readShares bytes (most - skipped) remaining place (List.replicate skipped 0 ++ shares)
        else none
      else readShares bytes most remaining place shares
termination_by most => most
decreasing_by
  · exact Nat.lt_succ_of_le (Nat.sub_le _ _)
  · exact Nat.lt_succ_self _

/-- Read a distribution over the symbols up to `maxSymbol`, of an accuracy up to `maxAccuracy`,
and tell how many bytes it takes. -/
def read? (maxSymbol maxAccuracy : Nat) (bytes : Array UInt8) : Option (Distribution × Nat) :=
  let accuracy := bitsFrom bytes 0 4 + 5
  if maxAccuracy < accuracy then none
  else
    match readShares bytes (maxSymbol + 1) (2 ^ accuracy + 1) 4 [] with
    | none => none
    | some (shares, place) =>
        let size := (place + 7) / 8
        if bytes.size < size then none else some (⟨accuracy, shares.reverse⟩, size)

end Distribution

/-- A state of a decoder: its symbol, and how the next state is found. -/
structure Cell where
  symbol : Nat
  bits : Nat
  base : Nat
  deriving Repr, Inhabited

/-- The states of a decoder. -/
structure Table where
  accuracy : Nat
  cells : Array Cell
  deriving Repr

namespace Table

/-- The table of a symbol that needs no bits. -/
def single (symbol : Nat) : Table := ⟨0, #[⟨symbol, 0, 0⟩]⟩

/-- Each symbol as often as its share says. -/
def spreadSymbols (shares : List Int) : List Nat :=
  (shares.zipIdx).flatMap fun (share, symbol) => List.replicate share.toNat symbol

/-- The symbols that are rarer than one state. -/
def rareSymbols (shares : List Int) : List Nat :=
  (shares.zipIdx).filterMap fun (share, symbol) => if share = -1 then some symbol else none

/-- The symbol of each state. Rare symbols stand at the end, the last state first; the others
take the remaining states in steps of five eighths of the table and three. -/
def symbols (d : Distribution) : Array Nat :=
  let size := 2 ^ d.accuracy
  let rare := rareSymbols d.shares
  let step := size / 2 + size / 8 + 3
  let places :=
    ((List.range size).map fun i => i * step % size).filter fun place => place + rare.length < size
  let table :=
    (rare.zipIdx).foldl (fun table (symbol, i) => table.setIfInBounds (size - 1 - i) symbol)
      (Array.replicate size 0)
  (places.zip (spreadSymbols d.shares)).foldl
    (fun table (place, symbol) => table.setIfInBounds place symbol) table

/-- Number the states of each symbol from its share on; a state then takes as many bits as bring
its number up to the size of the table. -/
def number (accuracy : Nat) (counts : Array Nat) : List Nat → List Cell
  | [] => []
  | symbol :: rest =>
      let count := counts.getD symbol 1
      let bits := accuracy - count.log2
      ⟨symbol, bits, count * 2 ^ bits - 2 ^ accuracy⟩ ::
        number accuracy (counts.setIfInBounds symbol (count + 1)) rest

/-- The decoder of a distribution. -/
def ofDistribution (d : Distribution) : Table :=
  let counts := d.shares.map fun share => if share = -1 then 1 else share.toNat
  ⟨d.accuracy, (number d.accuracy counts.toArray (symbols d).toList).toArray⟩

/-- The state that a stream starts with. -/
def start (t : Table) (r : BitReader) : Cell × BitReader :=
  let (state, r) := r.read t.accuracy
  (t.cells.getD state default, r)

/-- The state after another. -/
def next (t : Table) (cell : Cell) (r : BitReader) : Cell × BitReader :=
  let (offset, r) := r.read cell.bits
  (t.cells.getD (cell.base + offset) default, r)

end Table

end FramedStream.Zstd.Fse
