import FramedStream.Bytes

/-!
# Words for digests

What the digests share: reading words out of an array, least significant byte first, mixing
words, and the primes by which they multiply.
-/

namespace FramedStream.Digest

def prime32₁ : UInt64 := 0x9E3779B1
def prime32₂ : UInt64 := 0x85EBCA77
def prime32₃ : UInt64 := 0xC2B2AE3D
def prime₁ : UInt64 := 0x9E3779B185EBCA87
def prime₂ : UInt64 := 0xC2B2AE3D27D4EB4F
def prime₃ : UInt64 := 0x165667B19E3779F9
def prime₄ : UInt64 := 0x85EBCA77C2B2AE63
def prime₅ : UInt64 := 0x27D4EB2F165667C5

/-- The byte at a place, or zero beyond the end. -/
def byteAt (bytes : Array UInt8) (place : Nat) : UInt64 :=
  (bytes.getD place 0).toUInt64

/-- The 32-bit word at a place. -/
def word32At (bytes : Array UInt8) (place : Nat) : UInt64 :=
  byteAt bytes place ||| byteAt bytes (place + 1) <<< 8 ||| byteAt bytes (place + 2) <<< 16 |||
    byteAt bytes (place + 3) <<< 24

/-- The 64-bit word at a place. -/
def word64At (bytes : Array UInt8) (place : Nat) : UInt64 :=
  word32At bytes place ||| word32At bytes (place + 4) <<< 32

/-- Rotate a word to the left. -/
def rotate (x count : UInt64) : UInt64 :=
  x <<< count ||| x >>> (64 - count)

/-- The word with its bytes in the opposite order. -/
def swapBytes (x : UInt64) : UInt64 :=
  (List.range 8).foldl (fun y i => y <<< 8 ||| (x >>> (8 * i).toUInt64) &&& 0xff) 0

/-- The two halves of the product of two words, combined. -/
def foldedProduct (x y : UInt64) : UInt64 :=
  let product := x.toNat * y.toNat
  UInt64.ofNat product ^^^ UInt64.ofNat (product / 2 ^ 64)

/-- Spread a word over all its bits. -/
def spread (x : UInt64) : UInt64 :=
  let x := (x ^^^ x >>> 33) * prime₂
  let x := (x ^^^ x >>> 29) * prime₃
  x ^^^ x >>> 32

end FramedStream.Digest
