import FramedStream.Codec

/-!
# Payloads with a raw length

Every bundled codec puts the raw size of a block in front of the compressed bytes, as four bytes
with the least significant first.
-/

namespace FramedStream

namespace Payload

/-- The width of the raw length. -/
def rawLengthSize : Nat := 4

/-- A payload of a raw length and compressed bytes. -/
def encode (rawLength : Nat) (body : Bytes) : Bytes :=
  Bytes.ofNatLE rawLengthSize rawLength ++ body

/-- The raw length and the compressed bytes of a payload of the named codec. -/
def decode (codec : String) (payload : Bytes) : Except Error (Nat × Bytes) :=
  if payload.length < rawLengthSize then
    .error (.format (.shortPayload codec payload.length))
  else .ok (Bytes.toNatLE (payload.take rawLengthSize), payload.drop rawLengthSize)

/-- The raw length that a payload declares. -/
def declaredLength (codec : String) (payload : Bytes) : Except Error Nat :=
  (decode codec payload).map Prod.fst

@[simp] theorem length_encode (rawLength : Nat) (body : Bytes) :
    (encode rawLength body).length = rawLengthSize + body.length := by
  simp [encode]

theorem decode_encode (codec : String) (rawLength : Nat) (body : Bytes)
    (h : rawLength < 2 ^ 32) : decode codec (encode rawLength body) = .ok (rawLength, body) := by
  have hlen : (Bytes.ofNatLE rawLengthSize rawLength).length = rawLengthSize :=
    Bytes.length_ofNatLE _ _
  have hlong : ¬ (encode rawLength body).length < rawLengthSize := by
    simp [encode, rawLengthSize]
  rw [decode, if_neg hlong, encode, List.take_left' hlen, List.drop_left' hlen,
    Bytes.toNatLE_ofNatLE]
  rw [Nat.mod_eq_of_lt (by simpa [rawLengthSize] using h)]

end Payload

end FramedStream
