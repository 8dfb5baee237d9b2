import FramedStream.Digest.Words

/-!
# XXH64

The 64-bit digest by which a Zstandard frame checks its content, with seed 0. Stripes of 32 bytes
go into four lanes, the rest is taken in pieces of eight, four and one.
-/

namespace FramedStream.Digest.Xxh64

/-- Take a word into a lane. -/
def mix (lane word : UInt64) : UInt64 :=
  rotate (lane + word * prime₂) 31 * prime₁

/-- The four lanes. -/
structure Lanes where
  a : UInt64
  b : UInt64
  c : UInt64
  d : UInt64

/-- The lanes before the first stripe. -/
def Lanes.initial : Lanes := ⟨prime₁ + prime₂, prime₂, 0, 0 - prime₁⟩

/-- Take `count` stripes from a place on. -/
def Lanes.takeStripes (bytes : Array UInt8) : (count place : Nat) → Lanes → Lanes
  | 0, _, lanes => lanes
  | count + 1, place, lanes =>
      takeStripes bytes count (place + 32)
        ⟨mix lanes.a (word64At bytes place), mix lanes.b (word64At bytes (place + 8)),
          mix lanes.c (word64At bytes (place + 16)), mix lanes.d (word64At bytes (place + 24))⟩

/-- Combine the lanes. -/
def Lanes.merge (lanes : Lanes) : UInt64 :=
  [lanes.a, lanes.b, lanes.c, lanes.d].foldl
    (fun x lane => (x ^^^ mix 0 lane) * prime₁ + prime₄)
    (rotate lanes.a 1 + rotate lanes.b 7 + rotate lanes.c 12 + rotate lanes.d 18)

/-- Take `count` words of eight bytes from a place on. -/
def takeWords (bytes : Array UInt8) : (count place : Nat) → UInt64 → UInt64
  | 0, _, x => x
  | count + 1, place, x =>
      takeWords bytes count (place + 8)
        (rotate (x ^^^ mix 0 (word64At bytes place)) 27 * prime₁ + prime₄)

/-- Take `count` bytes from a place on. -/
def takeBytes (bytes : Array UInt8) : (count place : Nat) → UInt64 → UInt64
  | 0, _, x => x
  | count + 1, place, x =>
      takeBytes bytes count (place + 1) (rotate (x ^^^ byteAt bytes place * prime₅) 11 * prime₁)

/-- The digest of some bytes. -/
def digest (bytes : Array UInt8) : UInt64 :=
  let size := bytes.size
  let x :=
    if size < 32 then prime₅
    else (Lanes.initial.takeStripes bytes (size / 32) 0).merge
  let x := x + size.toUInt64
  let rest := size % 32
  let place := size - rest
  let x := takeWords bytes (rest / 8) place x
  let place := place + rest / 8 * 8
  let x :=
    if rest % 8 < 4 then x
    else rotate (x ^^^ word32At bytes place * prime₁) 23 * prime₂ + prime₃
  let place := if rest % 8 < 4 then place else place + 4
  spread (takeBytes bytes (rest % 4) place x)

end FramedStream.Digest.Xxh64
