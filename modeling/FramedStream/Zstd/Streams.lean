import FramedStream.Zstd.Huffman

/-!
# Streams of coded literals

Coded literals are one stream, or four streams that hold a quarter of them each.

* A stream on its own has to be used up exactly (`decode?`).
* Four streams of at least eight bytes are decoded abreast (`Lanes`): five look-ups in each of them
  make a turn, and there are turns as long as none of them can leave the bytes or give more than
  its quarter; then each stream gives the rest of its quarter. The end of a stream is not looked
  at. Bits may be left over, and a stream that runs out goes on with the bytes before it. Only when
  the turns are over it must not have done so by a byte or more.
* Other four streams are decoded one by one.
-/

namespace FramedStream.Zstd.Huffman

/-! ### A stream on its own -/

/-- Decode `count` symbols after those gathered. If the last look-up gives a symbol more, the bits
of that one may be missing. -/
def decodeOnto (table : Table) : (count : Nat) → Array UInt8 → BitReader → Array UInt8 × BitReader
  | 0, gathered, r => (gathered, r)
  | 1, gathered, r =>
      let found := table.lookUp (r.peekAround table.width)
      (gathered.push found.symbol,
        match found.another with
        | none => r.skip found.bits
        | some _ => { r with left := r.left - found.bits })
  | count + 2, gathered, r =>
      let found := table.lookUp (r.peek table.width)
      let gathered := gathered.push found.symbol
      match found.another with
      | none => decodeOnto table (count + 1) gathered (r.skip found.bits)
      | some another => decodeOnto table count (gathered.push another) (r.skip found.bits)

/-- Decode a stream of `count` symbols, which has to be used up by them. -/
def decode? (table : Table) (count : Nat) (gathered : Array UInt8) (bytes : Bytes) :
    Option (Array UInt8) :=
  match BitReader.ofBytes? bytes.toArray with
  | none => none
  | some r =>
      let (symbols, r) := decodeOnto table count gathered r
      if r.isFinished then some symbols else none

/-! ### Streams abreast -/

/-- One of the streams: its first byte among the bytes of all, what there is left to read, what it
has given, and how many symbols are due. -/
structure Lane where
  start : Nat
  reader : BitReader
  symbols : Array UInt8
  due : Nat

namespace Lane

/-- The bytes of all streams up to the next bit of this one. -/
def height (lane : Lane) : Nat := (lane.reader.left + 7) / 8

/-- A look-up in a stream that has enough bits. -/
def lookUp (table : Table) (lane : Lane) : Lane :=
  let found := table.lookUp (lane.reader.peek table.width)
  let reader := lane.reader.skip found.bits
  let symbols := lane.symbols.push found.symbol
  match found.another with
  | none => { lane with reader, symbols, due := lane.due - 1 }
  | some another => { lane with reader, symbols := symbols.push another, due := lane.due - 2 }

/-- Five look-ups. -/
def turn (table : Table) (lane : Lane) : Lane :=
  ((((lane.lookUp table).lookUp table).lookUp table).lookUp table).lookUp table

/-- Give `due` symbols more, whatever the stream holds. -/
def finishOnto (table : Table) : (due : Nat) → Array UInt8 → BitReader → Array UInt8
  | 0, gathered, _ => gathered
  | 1, gathered, r => gathered.push (table.lookUp (r.peekAround table.width)).symbol
  | due + 2, gathered, r =>
      let found := table.lookUp (r.peekAround table.width)
      let gathered := gathered.push found.symbol
      match found.another with
      | none => finishOnto table (due + 1) gathered (r.skipAround found.bits)
      | some another => finishOnto table due (gathered.push another) (r.skipAround found.bits)

/-- The symbols of the whole quarter. -/
def finish (table : Table) (lane : Lane) : Array UInt8 :=
  finishOnto table lane.due lane.symbols lane.reader

end Lane

/-- The four streams. -/
structure Lanes where
  first : Lane
  second : Lane
  third : Lane
  fourth : Lane

namespace Lanes

/-- A turn takes less than this many bytes from a stream. -/
def turnBytes : Nat := 7

/-- A stream is read in pieces of this many bytes. -/
def wordBytes : Nat := 8

/-- Decode five look-ups in each stream. -/
def turn (table : Table) (lanes : Lanes) : Lanes :=
  ⟨lanes.first.turn table, lanes.second.turn table, lanes.third.turn table,
    lanes.fourth.turn table⟩

/-- The turns for which the first stream stays within the bytes and no stream gives more than is
due. Without pairs all streams give the same, and the last one is the shortest. -/
def safeTurns (table : Table) (lanes : Lanes) : Nat :=
  let byInput := (lanes.first.height - wordBytes) / turnBytes
  let byOutput :=
    if table.inPairs then
      min (min (lanes.first.due / 10) (lanes.second.due / 10))
        (min (lanes.third.due / 10) (lanes.fourth.due / 10))
    else lanes.fourth.due / 5
  min byInput byOutput

/-- Whether the streams are still at one above the other. -/
def areOrdered (lanes : Lanes) : Bool :=
  lanes.first.height ≤ lanes.second.height && lanes.second.height ≤ lanes.third.height &&
    lanes.third.height ≤ lanes.fourth.height

/-- Take turns, at most so many. Each time the last stream has come down to `goal` symbols due, see
whether there are safe turns, and go on until it has given the least that these can give. -/
def run (table : Table) : (turns : Nat) → (goal : Nat) → Lanes → Lanes
  | 0, _, lanes => lanes
  | turns + 1, goal, lanes =>
      if goal < lanes.fourth.due then run table turns goal (lanes.turn table)
      else
        let least := 5 * lanes.safeTurns table
        if least = 0 || !lanes.areOrdered then lanes
        else run table turns (lanes.fourth.due - least) (lanes.turn table)

/-- Whether no stream is a byte or more below its first one. -/
def areInside (lanes : Lanes) : Bool :=
  [lanes.first, lanes.second, lanes.third, lanes.fourth].all fun lane => lane.start ≤ lane.height

/-- Decode all that is due. -/
def decode? (table : Table) (lanes : Lanes) : Option (Array UInt8) :=
  let lanes := lanes.run table lanes.fourth.due lanes.fourth.due
  if lanes.areInside then
    some (lanes.first.finish table ++ lanes.second.finish table ++ lanes.third.finish table ++
      lanes.fourth.finish table)
  else none

end Lanes

/-! ### Four streams -/

/-- The bytes of the sizes in front of four streams. -/
def jumpBytes : Nat := 6

/-- Decode `count` symbols from four streams. The sizes of the first three stand in front, and
each of these has a fourth of the symbols, rounded up. -/
def decodeFour? (table : Table) (count : Nat) (bytes : Bytes) : Option (Array UInt8) :=
  if count < 6 || (bytes.take 10).length < 10 then none
  else do
    let (jumps, rest) ← Bytes.split? jumpBytes bytes
    let quarter := (count + 3) / 4
    let last := count - 3 * quarter
    let (first, rest) ← Bytes.split? (Bytes.toNatLE (jumps.take 2)) rest
    let (second, rest) ← Bytes.split? (Bytes.toNatLE ((jumps.drop 2).take 2)) rest
    let (third, fourth) ← Bytes.split? (Bytes.toNatLE (jumps.drop 4)) rest
    if table.accuracy ≤ Table.leastWidth ∧ last ≠ 0 ∧
        [first, second, third, fourth].all (Lanes.wordBytes ≤ ·.length) then
      let all := bytes.toArray
      let lane (start size due : Nat) : Lane := ⟨start, .endingAt all (start + size), #[], due⟩
      let start₂ := jumpBytes + first.length
      let start₃ := start₂ + second.length
      let start₄ := start₃ + third.length
      Lanes.decode? table ⟨lane jumpBytes first.length quarter, lane start₂ second.length quarter,
        lane start₃ third.length quarter, lane start₄ fourth.length last⟩
    else
      let out ← decode? table quarter #[] first
      let out ← decode? table quarter out second
      let out ← decode? table quarter out third
      decode? table last out fourth

end FramedStream.Zstd.Huffman
