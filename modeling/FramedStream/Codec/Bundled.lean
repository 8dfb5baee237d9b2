import FramedStream.Codec.Library
import FramedStream.Codec.Payload
import FramedStream.Reader

/-!
# The bundled codecs

Three codecs are bundled: `passthrough` keeps blocks verbatim, `zstd` and `lz4` have them compressed
by one of the given `Libraries` (`ofLibrary`). All three put the raw length in front (`Payload`).
None of them reacts to how often it was called.

`Codec.ofId` finds the codec that a header names, `Codec.ofName?` the one that a user names, and
`Reader.openBundled` opens a stream of any of them.
-/

namespace FramedStream

namespace Codec

/-- Blocks as they are. -/
def passthrough : Codec where
  id := 0
  name := "passthrough"
  maxCompressedLength n := Payload.rawLengthSize + n
  compress _ raw _ := .ok (.ofBytes (Payload.encode raw.length raw))
  declaredLength _ payload := Payload.declaredLength "passthrough" payload
  decompress _ payload room :=
    match Payload.decode "passthrough" payload with
    | .error e => .error e
    | .ok (_, body) =>
        if body.length ≠ room then .error (.format (.verbatimSize body.length room))
        else .ok (.ofBytes body)

/-- The raw length in front of what a library makes of a block. -/
def ofLibrary (id : UInt16) (name : String) (bound : Nat → Nat)
    (compress decompress : Bytes → Nat → Except String Bytes) : Codec where
  id
  name
  maxCompressedLength n := Payload.rawLengthSize + bound n
  compress _ raw room :=
    match compress raw (room - Payload.rawLengthSize) with
    | .ok body => .ok (.ofBytes (Payload.encode raw.length body))
    | .error reason => .error (.codec name reason)
  declaredLength _ payload := Payload.declaredLength name payload
  decompress _ payload room :=
    match Payload.decode name payload with
    | .error e => .error e
    | .ok (_, body) =>
        match decompress body room with
        | .ok raw => .ok (.ofBytes raw)
        | .error reason => .error (.format (.undecodable name reason))

/-- Zstandard frames, made with some effort. -/
def zstd (level : Int) (libs : Libraries) : Codec :=
  ofLibrary 1 "zstd" Zstd.maxEncodedLength (libs.zstdCompress level) libs.zstdDecompress

/-- The level of a codec that is chosen by its id. -/
def defaultLevel : Int := 3

/-- LZ4 blocks. -/
def lz4 (libs : Libraries) : Codec :=
  ofLibrary 2 "lz4" Lz4.maxEncodedLength libs.lz4Compress libs.lz4Decompress

/-- The bundled codec of an id. -/
def ofId (id : UInt16) (libs : Libraries) : Except Damage Codec :=
  if id = 0 then .ok passthrough
  else if id = 1 then .ok (zstd defaultLevel libs)
  else if id = 2 then .ok (lz4 libs)
  else .error (.unknownCodec id)

/-- The bundled codec of a name or of a short form of one. -/
def ofName? (name : String) (level : Int) (libs : Libraries) : Option Codec :=
  if name = "passthrough" ∨ name = "pass" ∨ name = "none" then some passthrough
  else if name = "zstd" ∨ name = "z" then some (zstd level libs)
  else if name = "lz4" ∨ name = "l" then some (lz4 libs)
  else none

end Codec

namespace Reader

/-- A reader of a whole stream of whichever bundled codec its header names. -/
def openBundled (source : Source) (libs : Libraries) : Except Error Reader :=
  match Header.readFrom source with
  | (.error e, _) => .error e
  | (.ok header, source) =>
      match Codec.ofId header.codecId libs with
      | .error damage => .error (.format damage)
      | .ok codec => ofParts source header codec

end Reader

end FramedStream
