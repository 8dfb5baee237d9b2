import FramedStream.Factor

/-!
# LZ4 blocks

A block is a series of phrases and a last run of literals. A phrase is a token whose high half is
the count of literals and whose low half is the length of the copy less 4, the literals, the
distance as two bytes, least significant first. A half of 15 is continued in bytes that are added
up as long as they are 255.

* `decode` reads a block into a given room. It fails where input is missing, also if nothing
  follows a copy, at a distance of 0 or beyond what there is, and where the room ends;
* `encode` writes one, with no copy in the last 5 bytes and none that starts in the last 12, as
  decoders may demand.
-/

namespace FramedStream.Lz4

/-- Why a block does not decode. -/
inductive Fault
  | truncated
  | badDistance
  | noRoom
  deriving DecidableEq, Repr

/-- A fault in words. -/
def Fault.message : Fault → String
  | truncated => "the block ends too early"
  | badDistance => "a copy starts before the block"
  | noRoom => "the block is larger than it should be"

/-- The greatest value of half a token, which means that the length goes on. -/
def half : Nat := 15

/-- The length of the shortest copy. -/
def leastCopy : Nat := 4

/-! ### Decoding -/

/-- Add up the bytes by which a length goes on. -/
def continueLength (sum : Nat) : Bytes → Option (Nat × Bytes)
  | [] => none
  | b :: input =>
      if b = 255 then continueLength (sum + 255) input else some (sum + b.toNat, input)

/-- The length that starts with half a token, and the input after it. -/
def readLength (nibble : Nat) (input : Bytes) : Option (Nat × Bytes) :=
  if nibble < half then some (nibble, input) else continueLength half input

theorem length_continueLength {sum n : Nat} {input rest : Bytes}
    (h : continueLength sum input = some (n, rest)) : rest.length < input.length := by
  induction input generalizing sum with
  | nil => simp [continueLength] at h
  | cons b input ih =>
    simp only [continueLength] at h
    split at h
    · have := ih h
      simp only [List.length_cons]
      omega
    · simp_all

theorem length_readLength {nibble n : Nat} {input rest : Bytes}
    (h : readLength nibble input = some (n, rest)) : rest.length ≤ input.length := by
  unfold readLength at h
  split at h
  · simp_all
  · exact Nat.le_of_lt (length_continueLength h)

/-- Decode the input into the rest of the room. -/
def decodeOnto (room : Nat) (out : Array UInt8) (input : Bytes) : Except Fault (Array UInt8) :=
  match input with
  | [] => .error .truncated
  | token :: afterToken =>
      match hlit : readLength (token.toNat / 16) afterToken with
      | none => .error .truncated
      | some (count, afterLength) =>
          let literals := afterLength.take count
          if literals.length < count then .error .truncated
          else if room < out.size + count then .error .noRoom
          else
            match hlo : afterLength.drop count with
            | [] => .ok (out ++ literals)
            | [_] => .error .truncated
            | lo :: hi :: afterDistance =>
                match hcopy : readLength (token.toNat % 16) afterDistance with
                | none => .error .truncated
                | some (extra, rest) =>
                    let out := out ++ literals
                    let distance := Bytes.toNatLE [lo, hi]
                    if room < out.size + (extra + leastCopy) then .error .noRoom
                    else if distance = 0 ∨ out.size < distance then .error .badDistance
                    else
                      have : rest.length < (token :: afterToken).length := by
                        have h₁ := length_readLength hlit
                        have h₂ := length_readLength hcopy
                        have h₃ := congrArg List.length hlo
                        simp only [List.length_drop, List.length_cons] at h₃ ⊢
                        omega
                      decodeOnto room (copyBack out distance (extra + leastCopy)) rest
termination_by input.length
decreasing_by exact this

/-- Decode a block of at most `room` bytes. -/
def decode (room : Nat) (input : Bytes) : Except Fault Bytes :=
  (decodeOnto room #[] input).map Array.toList

/-! ### Encoding -/

/-- What follows a half token of a length. -/
def lengthBytes (n : Nat) : Bytes :=
  if n < half then []
  else List.replicate ((n - half) / 255) 255 ++ [UInt8.ofNat ((n - half) % 255)]

/-- The token of a count of literals and the length of a copy less 4. -/
def token (literals copy : Nat) : UInt8 :=
  UInt8.ofNat (min literals half * 16 + min copy half)

/-- The bytes of a phrase. -/
def encodePhrase (p : Phrase) : Bytes :=
  token p.literals.length (p.length - leastCopy) :: lengthBytes p.literals.length ++ p.literals ++
    Bytes.ofNatLE 2 p.distance ++ lengthBytes (p.length - leastCopy)

/-- The bytes of the last literals. -/
def encodeTail (literals : Bytes) : Bytes :=
  token literals.length 0 :: lengthBytes literals.length ++ literals

/-- What a phrase of a block may be. -/
def limits : Limits :=
  { leastLength := leastCopy, greatestDistance := 65535, startBeforeEnd := 12, literalsAtEnd := 5 }

/-- The block of a factoring. -/
def encodeFactoring (f : Factoring) : Bytes :=
  f.phrases.flatMap encodePhrase ++ encodeTail f.tail

/-- Encode bytes as a block. -/
def encode (raw : Bytes) : Bytes :=
  encodeFactoring (factor limits raw)

/-- A bound on the size of the block of `n` bytes. -/
def maxEncodedLength (n : Nat) : Nat := 20 + n * 110 / 100

end FramedStream.Lz4
