import FramedStream.Digest.Words

/-!
# XXH3

The 64-bit XXH3 digest with seed 0 and the standard secret. Inputs of up to 16, 128, 240 bytes
and longer ones are each mixed in a way of their own.
-/

namespace FramedStream.Digest.Xxh3

/-- The standard secret. -/
def secret : Array UInt8 := #[
  0xb8, 0xfe, 0x6c, 0x39, 0x23, 0xa4, 0x4b, 0xbe, 0x7c, 0x01, 0x81, 0x2c, 0xf7, 0x21, 0xad, 0x1c,
  0xde, 0xd4, 0x6d, 0xe9, 0x83, 0x90, 0x97, 0xdb, 0x72, 0x40, 0xa4, 0xa4, 0xb7, 0xb3, 0x67, 0x1f,
  0xcb, 0x79, 0xe6, 0x4e, 0xcc, 0xc0, 0xe5, 0x78, 0x82, 0x5a, 0xd0, 0x7d, 0xcc, 0xff, 0x72, 0x21,
  0xb8, 0x08, 0x46, 0x74, 0xf7, 0x43, 0x24, 0x8e, 0xe0, 0x35, 0x90, 0xe6, 0x81, 0x3a, 0x26, 0x4c,
  0x3c, 0x28, 0x52, 0xbb, 0x91, 0xc3, 0x00, 0xcb, 0x88, 0xd0, 0x65, 0x8b, 0x1b, 0x53, 0x2e, 0xa3,
  0x71, 0x64, 0x48, 0x97, 0xa2, 0x0d, 0xf9, 0x4e, 0x38, 0x19, 0xef, 0x46, 0xa9, 0xde, 0xac, 0xd8,
  0xa8, 0xfa, 0x76, 0x3f, 0xe3, 0x9c, 0x34, 0x3f, 0xf9, 0xdc, 0xbb, 0xc7, 0xc7, 0x0b, 0x4f, 0x1d,
  0x8a, 0x51, 0xe0, 0x4b, 0xcd, 0xb4, 0x59, 0x31, 0xc8, 0x9f, 0x7e, 0xc9, 0xd9, 0x78, 0x73, 0x64,
  0xea, 0xc5, 0xac, 0x83, 0x34, 0xd3, 0xeb, 0xc3, 0xc5, 0x81, 0xa0, 0xff, 0xfa, 0x13, 0x63, 0xeb,
  0x17, 0x0d, 0xdd, 0x51, 0xb7, 0xf0, 0xda, 0x49, 0xd3, 0x16, 0x55, 0x26, 0x29, 0xd4, 0x68, 0x9e,
  0x2b, 0x16, 0xbe, 0x58, 0x7d, 0x47, 0xa1, 0xfc, 0x8f, 0xf8, 0xb8, 0xd1, 0x7a, 0xd0, 0x31, 0xce,
  0x45, 0xcb, 0x3a, 0x8f, 0x95, 0x16, 0x04, 0x28, 0xaf, 0xd7, 0xfb, 0xca, 0xbb, 0x4b, 0x40, 0x7e]

/-- The 64-bit word of the secret at a place. -/
def key (place : Nat) : UInt64 := word64At secret place

/-- Spread a word over all its bits. -/
def spread (x : UInt64) : UInt64 :=
  let x := (x ^^^ x >>> 37) * 0x165667919E3779F9
  x ^^^ x >>> 32

/-- Up to 16 bytes. -/
def short (bytes : Array UInt8) : UInt64 :=
  let size := bytes.size
  if 8 < size then
    let low := word64At bytes 0 ^^^ (key 24 ^^^ key 32)
    let high := word64At bytes (size - 8) ^^^ (key 40 ^^^ key 48)
    spread (size.toUInt64 + swapBytes low + high + foldedProduct low high)
  else if 4 ≤ size then
    let word := word32At bytes (size - 4) + word32At bytes 0 <<< 32
    let x := word ^^^ (key 8 ^^^ key 16)
    let x := (x ^^^ rotate x 49 ^^^ rotate x 24) * 0x9FB21C651E98DF25
    let x := (x ^^^ (x >>> 35 + size.toUInt64)) * 0x9FB21C651E98DF25
    x ^^^ x >>> 28
  else if 1 ≤ size then
    let word :=
      byteAt bytes 0 <<< 16 ||| byteAt bytes (size / 2) <<< 24 ||| byteAt bytes (size - 1) |||
        size.toUInt64 <<< 8
    Digest.spread (word ^^^ (word32At secret 0 ^^^ word32At secret 4))
  else Digest.spread (key 56 ^^^ key 64)

/-- Mix the 16 bytes at a place with the secret. -/
def mix (bytes : Array UInt8) (place keyPlace : Nat) : UInt64 :=
  foldedProduct (word64At bytes place ^^^ key keyPlace)
    (word64At bytes (place + 8) ^^^ key (keyPlace + 8))

/-- From 17 to 128 bytes: pairs of pieces, from the two ends inwards. -/
def medium (bytes : Array UInt8) : UInt64 :=
  let size := bytes.size
  let pair (i : Nat) : UInt64 :=
    mix bytes (16 * i) (32 * i) + mix bytes (size - 16 * (i + 1)) (32 * i + 16)
  let pairs := (size - 1) / 32 + 1
  spread ((List.range pairs).foldl (fun x i => x + pair i) (size.toUInt64 * prime₁))

/-- From 129 to 240 bytes: pieces of 16, the first eight of them apart. -/
def upper (bytes : Array UInt8) : UInt64 :=
  let size := bytes.size
  let x :=
    (List.range 8).foldl (fun x i => x + mix bytes (16 * i) (16 * i)) (size.toUInt64 * prime₁)
  let x :=
    (List.range (size / 16 - 8)).foldl
      (fun x i => x + mix bytes (16 * (i + 8)) (16 * i + 3)) (spread x)
  spread (x + mix bytes (size - 16) 119)

/-- The lanes before the first stripe. -/
def initialLanes : Array UInt64 :=
  #[prime32₃, prime₁, prime₂, prime₃, prime₄, prime32₂, prime₅, prime32₁]

/-- Take a stripe of 64 bytes into the lanes. -/
def takeStripe (bytes : Array UInt8) (place keyPlace : Nat) (lanes : Array UInt64) :
    Array UInt64 :=
  (List.range 8).foldl
    (fun (lanes : Array UInt64) i =>
      let word := word64At bytes (place + 8 * i)
      let keyed := word ^^^ key (keyPlace + 8 * i)
      let product := (keyed &&& (0xffffffff : UInt64)) * (keyed >>> 32)
      let neighbour := if i % 2 = 0 then i + 1 else i - 1
      (lanes.modify neighbour fun x => x + word).modify i
        (fun x => x + product))
    lanes

/-- Take `count` stripes from a place on, each with the secret eight bytes further. -/
def takeStripes (bytes : Array UInt8) (place : Nat) : (count : Nat) → Array UInt64 → Array UInt64
  | 0, lanes => lanes
  | count + 1, lanes =>
      takeStripe bytes (place + 64 * count) (8 * count) (takeStripes bytes place count lanes)

/-- Scramble the lanes at the end of a run of 16 stripes. -/
def scramble (lanes : Array UInt64) : Array UInt64 :=
  lanes.mapIdx fun i (x : UInt64) => (x ^^^ x >>> 47 ^^^ key (128 + 8 * i)) * prime32₁

/-- Take `count` full runs. -/
def takeRuns (bytes : Array UInt8) : (count : Nat) → Array UInt64 → Array UInt64
  | 0, lanes => lanes
  | count + 1, lanes =>
      scramble (takeStripes bytes (1024 * count) 16 (takeRuns bytes count lanes))

/-- Combine the lanes. -/
def merge (lanes : Array UInt64) (start : UInt64) : UInt64 :=
  spread ((List.range 4).foldl
    (fun x i =>
      x + foldedProduct (lanes.getD (2 * i) 0 ^^^ key (11 + 16 * i))
        (lanes.getD (2 * i + 1) 0 ^^^ key (19 + 16 * i)))
    start)

/-- More than 240 bytes. -/
def long (bytes : Array UInt8) : UInt64 :=
  let size := bytes.size
  let runs := (size - 1) / 1024
  let lanes := takeRuns bytes runs initialLanes
  let lanes := takeStripes bytes (1024 * runs) ((size - 1 - 1024 * runs) / 64) lanes
  let lanes := takeStripe bytes (size - 64) 121 lanes
  merge lanes (size.toUInt64 * prime₁)

/-- The digest of some bytes. -/
def digest (bytes : Array UInt8) : UInt64 :=
  if bytes.size ≤ 16 then short bytes
  else if bytes.size ≤ 128 then medium bytes
  else if bytes.size ≤ 240 then upper bytes
  else long bytes

end FramedStream.Digest.Xxh3
