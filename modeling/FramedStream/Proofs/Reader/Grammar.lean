import FramedStream.Layout

/-!
# The grammar of the records

Behind its header a stream is a sequence of records. Which payloads may stand in them is up to the
codec: `block?` gives the block of a payload, `limit` bounds the payload.

* `Parses` is the grammar, `Admits` says it of one payload;
* `exists_parse`, `Parses.longest`: from any bytes there is one longest sequence of records to be
  parsed, and it is found by parsing on until no record follows.
-/

namespace FramedStream

/-- A payload that may stand in a record. -/
structure Admits (limit : Nat) (block? : Bytes → Option Bytes) (payload : Bytes) : Prop where
  positive : 1 ≤ payload.length
  bounded : payload.length ≤ limit
  decodes : (block? payload).isSome

/-- Bytes from which the records of some payloads can be parsed, and what is left then. -/
inductive Parses (limit : Nat) (block? : Bytes → Option Bytes) :
    (bytes : Bytes) → (payloads : List Bytes) → (rest : Bytes) → Prop
  | done (rest : Bytes) : Parses limit block? rest [] rest
  | record {payload bytes rest : Bytes} {payloads : List Bytes}
      (admits : Admits limit block? payload) (h : Parses limit block? bytes payloads rest) :
      Parses limit block? (record payload ++ bytes) (payload :: payloads) rest

/-- No record can be parsed from the bytes. -/
def Stuck (limit : Nat) (block? : Bytes → Option Bytes) (bytes : Bytes) : Prop :=
  ¬∃ payload rest, Admits limit block? payload ∧ bytes = record payload ++ rest

variable {limit : Nat} {block? : Bytes → Option Bytes}

/-- Where no record can be parsed, a whole record is one without a block. -/
theorem Stuck.block?_eq_none {payload rest : Bytes}
    (h : Stuck limit block? (record payload ++ rest)) (hpos : 1 ≤ payload.length)
    (hlimit : payload.length ≤ limit) : block? payload = none := by
  cases hblock : block? payload with
  | none => rfl
  | some block => exact absurd ⟨payload, rest, ⟨hpos, hlimit, by rw [hblock]; rfl⟩, rfl⟩ h

/-- A record says where it ends. -/
theorem record_append_inj {payload payload' rest rest' : Bytes} (hlt : payload.length < 2 ^ 32)
    (hlt' : payload'.length < 2 ^ 32) (h : record payload ++ rest = record payload' ++ rest') :
    payload = payload' ∧ rest = rest' := by
  simp only [record, List.append_assoc] at h
  obtain ⟨hfield, htail⟩ := List.append_inj h (by simp)
  have hlength : payload.length = payload'.length := by
    have hnat := congrArg Bytes.toNatBE hfield
    have hfull : 256 ^ blockLengthSize = 2 ^ 32 := by decide
    rwa [Bytes.toNatBE_ofNatBE, Bytes.toNatBE_ofNatBE, hfull, Nat.mod_eq_of_lt hlt,
      Nat.mod_eq_of_lt hlt'] at hnat
  exact List.append_inj htail hlength

/-- Where a record stands of which the payload has no block, no other can be parsed. -/
theorem stuck_of_block?_eq_none {payload : Bytes} (hlimit : limit < 2 ^ 32)
    (hlt : payload.length < 2 ^ 32) (hnone : block? payload = none) (rest : Bytes) :
    Stuck limit block? (record payload ++ rest) := by
  rintro ⟨payload', rest', admits, heq⟩
  obtain ⟨rfl, -⟩ := record_append_inj hlt (Nat.lt_of_le_of_lt admits.bounded hlimit) heq
  have hdecodes := admits.decodes
  rw [hnone] at hdecodes
  cases hdecodes

/-- Bytes that start with the length of a payload and hold as much start with a record. -/
theorem eq_record_append {bytes : Bytes} {length : Nat} (hlong : 4 ≤ bytes.length)
    (hlength : length = Bytes.toNatBE (bytes.take 4)) (hpayload : length ≤ (bytes.drop 4).length) :
    bytes = record ((bytes.drop 4).take length) ++ (bytes.drop 4).drop length := by
  have htake : (bytes.take 4).length = 4 := by rw [List.length_take]; omega
  have hfield := Bytes.ofNatBE_toNatBE (bytes.take 4)
  rw [htake, ← hlength] at hfield
  rw [record, List.length_take, Nat.min_eq_left hpayload, blockLengthSize, hfield,
    List.append_assoc, List.take_append_drop, List.take_append_drop]

/-- Records of admitted payloads can be parsed, whatever follows. -/
theorem parses_records {payloads : List Bytes}
    (h : ∀ payload ∈ payloads, Admits limit block? payload) (rest : Bytes) :
    Parses limit block? (payloads.flatMap record ++ rest) payloads rest := by
  induction payloads with
  | nil => exact .done rest
  | cons payload payloads ih =>
    obtain ⟨hpayload, hpayloads⟩ := List.forall_mem_cons.1 h
    rw [List.flatMap_cons, List.append_assoc]
    exact .record hpayload (ih hpayloads)

/-- The records that were parsed and what is left make up the bytes. -/
theorem Parses.eq_append {bytes rest : Bytes} {payloads : List Bytes}
    (h : Parses limit block? bytes payloads rest) :
    bytes = payloads.flatMap FramedStream.record ++ rest := by
  induction h with
  | done => rfl
  | record _ _ ih => rw [ih, List.flatMap_cons, List.append_assoc]

/-- What is left where nothing more can be parsed does not depend on the way: every other sequence
of records is an initial part. -/
theorem Parses.longest (hlimit : limit < 2 ^ 32) {bytes rest rest' : Bytes}
    {payloads payloads' : List Bytes} (h : Parses limit block? bytes payloads rest)
    (hstuck : Stuck limit block? rest) (h' : Parses limit block? bytes payloads' rest') :
    payloads' <+: payloads := by
  -- on the other sequence: the two agree as long as it goes on, since a record says where it ends
  induction h' generalizing payloads with
  | done => exact List.nil_prefix
  | @record payload' bytes' rest' payloads' admits' _ ih =>
    generalize hbytes : FramedStream.record payload' ++ bytes' = bytes at h
    cases h with
    | done => exact absurd ⟨_, _, admits', hbytes.symm⟩ hstuck
    | record admits h =>
      obtain ⟨rfl, rfl⟩ := record_append_inj (Nat.lt_of_le_of_lt admits'.bounded hlimit)
        (Nat.lt_of_le_of_lt admits.bounded hlimit) hbytes
      exact (List.prefix_cons_inj _).2 (ih h)

/-- Parsing comes to an end, since no record is empty. -/
theorem exists_parse (limit : Nat) (block? : Bytes → Option Bytes) (bytes : Bytes) :
    ∃ payloads rest, Parses limit block? bytes payloads rest ∧ Stuck limit block? rest := by
  obtain ⟨size, hsize⟩ : ∃ size, size = bytes.length := ⟨_, rfl⟩
  induction size using Nat.strongRecOn generalizing bytes with
  | ind size ih =>
    by_cases hrecord : ∃ payload rest, Admits limit block? payload ∧ bytes = record payload ++ rest
    case neg => exact ⟨[], bytes, .done bytes, hrecord⟩
    obtain ⟨payload, rest, admits, rfl⟩ := hrecord
    have hless : rest.length < size := by
      rw [hsize, List.length_append, length_record, blockLengthSize]
      omega
    obtain ⟨payloads, rest', hparses, hrest⟩ := ih _ hless rest rfl
    exact ⟨payload :: payloads, rest', .record admits hparses, hrest⟩

end FramedStream
