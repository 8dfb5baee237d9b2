import FramedStream.Sink
import FramedStream.Source

/-!
# The stream header

The header names the format version of the stream, the oldest reader version that can decode it,
and the codec of its blocks. All numbers are written with the most significant byte first; two
reserved bytes at the end are written as zero and not looked at.

* `encode` and `decode` go from headers to bytes and back;
* `readFrom` takes a header off a source.
-/

namespace FramedStream

/-- The header of a stream. -/
structure Header where
  version : UInt32
  minCompatible : UInt32
  codecId : UInt16
  deriving DecidableEq, Repr, Inhabited

namespace Header

/-- The header that a writer gives to a stream of some codec. -/
def current (codecId : UInt16) : Header :=
  ⟨formatVersion, minCompatibleVersion, codecId⟩

/-- The `headerSize` bytes of a header. -/
def encode (h : Header) : Bytes :=
  magic ++ Bytes.ofNatBE 4 h.version.toNat ++ Bytes.ofNatBE 4 h.minCompatible.toNat ++
    Bytes.ofNatBE 2 h.codecId.toNat ++ [0, 0]

/-- The header in `headerSize` bytes, unless they do not start with the magic or the stream needs
a newer reader. -/
def decode (bytes : Bytes) : Except Damage Header :=
  if bytes.take 8 ≠ magic then .error .badMagic
  else
    let h : Header :=
      { version := .ofNat (Bytes.toNatBE ((bytes.drop 8).take 4))
        minCompatible := .ofNat (Bytes.toNatBE ((bytes.drop 12).take 4))
        codecId := .ofNat (Bytes.toNatBE ((bytes.drop 16).take 2)) }
    if formatVersion < h.minCompatible then .error (.tooNew h.version h.minCompatible)
    else .ok h

/-- Take a header off a source. A source that ends too early holds no stream. -/
def readFrom (s : Source) : Except Error Header × Source :=
  let filled := s.fill headerSize
  let result : Except Error Header :=
    match filled.stop with
    | .full => (decode filled.bytes).mapError .format
    | .ended => .error (.format .shortHeader)
    | .failed failure =>
        if failure.kind = .unexpectedEof then .error (.format .shortHeader)
        else .error (.io failure)
  (result, filled.source)

/-- Write a header to a sink. -/
def writeTo (h : Header) (sink : Sink) : Except Error Unit × Sink :=
  match sink.writeAll h.encode with
  | (.ok (), sink) => (.ok (), sink)
  | (.error failure, sink) => (.error (.io failure), sink)

@[simp] theorem length_encode (h : Header) : h.encode.length = headerSize := by
  simp [encode, magic, headerSize]

end Header

end FramedStream
