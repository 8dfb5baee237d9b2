import FramedStream.Codec.Bundled

/-!
# What the bundled codecs make of a payload

A payload of a bundled codec is the raw size of a block, as four bytes, and a body that has to turn
into exactly so many bytes. `Payload.block?` says which block that is, if any. It sees nothing but
the payload.

* `Codec.Implements` is what a reader needs to know of a codec: which payloads it decodes, and that
  it complains of all others by a format error or by a number that gives them away;
* `Codec.implements_ofId`: each of the bundled codecs implements `Payload.block?`.
-/

namespace FramedStream

namespace Payload

/-- The block of a payload: what `body?` turns the body into, if that is of the declared size, and
the size is neither zero nor beyond `maxBlockSize`. -/
def block? (body? : Bytes → Nat → Option Bytes) (payload : Bytes) : Option Bytes :=
  let size := Bytes.toNatLE (payload.take 4)
  if payload.length < 4 ∨ size = 0 ∨ maxBlockSize < size then none
  else (body? (payload.drop 4) size).filter (·.length = size)

theorem block?_eq_some {body? : Bytes → Nat → Option Bytes} {payload block : Bytes} :
    block? body? payload = some block ↔
      4 ≤ payload.length ∧ Bytes.toNatLE (payload.take 4) = block.length ∧ block ≠ [] ∧
        block.length ≤ maxBlockSize ∧ body? (payload.drop 4) block.length = some block := by
  simp only [block?]
  constructor
  · intro h
    split at h
    · cases h
    next hsize =>
    obtain ⟨hbody, hlength⟩ := Option.filter_eq_some_iff.1 h
    have hlength : block.length = Bytes.toNatLE (payload.take 4) := by simpa using hlength
    rw [← hlength] at hbody hsize
    refine ⟨by omega, hlength.symm, ?_, by omega, hbody⟩
    rintro rfl
    exact hsize (.inr (.inl rfl))
  · rintro ⟨hlong, hlength, hne, hmax, hbody⟩
    have hpos := List.length_pos_iff.2 hne
    rw [hlength, if_neg (by omega), hbody]
    simp

theorem decode_of_lt {name : String} {payload : Bytes} (h : payload.length < 4) :
    decode name payload = .error (.format (.shortPayload name payload.length)) := by
  have hshort : payload.length < rawLengthSize := h
  rw [decode, if_pos hshort]

theorem decode_of_le {name : String} {payload : Bytes} (h : 4 ≤ payload.length) :
    decode name payload = .ok (Bytes.toNatLE (payload.take 4), payload.drop 4) := by
  have hlong : ¬payload.length < rawLengthSize := Nat.not_lt.2 h
  rw [decode, if_neg hlong]
  rfl

end Payload

namespace Codec

/-- A codec that decodes the payloads of which `block?` knows the block. For these it reports what
is there, for the others it fails with a format error or reports what is not. -/
structure Implements (c : Codec) (block? : Bytes → Option Bytes) : Prop where
  accepts : ∀ payload block, block? payload = some block →
    block ≠ [] ∧ block.length ≤ maxBlockSize ∧
      (∀ call, c.declaredLength call payload = .ok block.length) ∧
      ∀ call, ∃ more, c.decompress call payload block.length = .ok ⟨block.length, block ++ more⟩
  refuses : ∀ payload, block? payload = none → ∀ call call',
    (∃ damage, c.declaredLength call payload = .error (.format damage)) ∨
      ∃ size, c.declaredLength call payload = .ok size ∧
        ((size = 0 ∨ maxBlockSize < size) ∨
          (∃ damage, c.decompress call' payload size = .error (.format damage)) ∨
          ∃ output, c.decompress call' payload size = .ok output ∧ output.reported ≠ size)

/-- A codec that leaves the body of its payloads to `run`. -/
theorem implements_of_run {c : Codec} {body? : Bytes → Nat → Option Bytes} (name : String)
    (run : Bytes → Nat → Except Damage Bytes)
    (hdeclared : ∀ call payload,
      c.declaredLength call payload = Payload.declaredLength name payload)
    (hdecompress : ∀ call payload size, c.decompress call payload size =
      (Payload.decode name payload).bind fun parts =>
        ((run parts.2 size).map Output.ofBytes).mapError .format)
    (hrun : ∀ body block,
      run body block.length = .ok block ↔ body? body block.length = some block) :
    c.Implements (Payload.block? body?) where
  accepts payload block h := by
    obtain ⟨hlong, hlength, hne, hmax, hbody⟩ := Payload.block?_eq_some.1 h
    refine ⟨hne, hmax, fun call => ?_, fun call => ⟨[], ?_⟩⟩
    · rw [hdeclared, Payload.declaredLength, Payload.decode_of_le hlong, ← hlength]
      rfl
    · rw [hdecompress, Payload.decode_of_le hlong, Except.bind, (hrun _ _).2 hbody, List.append_nil]
      rfl
  refuses payload h call call' := by
    by_cases hlong : payload.length < 4
    · refine .inl ⟨.shortPayload name payload.length, ?_⟩
      rw [hdeclared, Payload.declaredLength, Payload.decode_of_lt hlong]
      rfl
    have hlong := Nat.not_lt.1 hlong
    refine .inr ⟨Bytes.toNatLE (payload.take 4), ?_, ?_⟩
    · rw [hdeclared, Payload.declaredLength, Payload.decode_of_le hlong]
      rfl
    -- the declared size is there, so it is out of bounds or the body does not turn into as much
    by_cases hsize : Bytes.toNatLE (payload.take 4) = 0 ∨
        maxBlockSize < Bytes.toNatLE (payload.take 4)
    · exact .inl hsize
    refine .inr ?_
    rw [hdecompress, Payload.decode_of_le hlong, Except.bind]
    cases hresult : run (payload.drop 4) (Bytes.toNatLE (payload.take 4)) with
    | error damage => exact .inl ⟨damage, rfl⟩
    | ok raw =>
      refine .inr ⟨.ofBytes raw, rfl, fun hreported => ?_⟩
      have hlength : Bytes.toNatLE (payload.take 4) = raw.length := hreported.symm
      rw [hlength] at hresult hsize
      have hne : raw ≠ [] := by
        rintro rfl
        exact hsize (.inl rfl)
      have hsome := Payload.block?_eq_some.2
        ⟨hlong, hlength, hne, by omega, (hrun _ _).1 hresult⟩
      rw [h] at hsome
      cases hsome

theorem implements_passthrough :
    passthrough.Implements (Payload.block? fun body _ => some body) := by
  refine implements_of_run "passthrough"
    (fun body size => if body.length ≠ size then .error (.verbatimSize body.length size)
      else .ok body) (fun _ _ => rfl) (fun _ payload size => ?_) (fun body block => ?_)
  · simp only [passthrough]
    cases Payload.decode "passthrough" payload with
    | error e => rfl
    | ok parts =>
      simp only [Except.bind]
      split <;> rfl
  · by_cases hsize : body.length = block.length
    · simp [hsize]
    · simp only [ne_eq, hsize, not_false_eq_true, if_true, reduceCtorEq, Option.some.injEq,
        false_iff]
      rintro rfl
      exact hsize rfl

theorem implements_ofLibrary (id : UInt16) (name : String) (bound : Nat → Nat)
    (compress decompress : Bytes → Nat → Except String Bytes) :
    (ofLibrary id name bound compress decompress).Implements
      (Payload.block? fun body size => (decompress body size).toOption) := by
  refine implements_of_run name
    (fun body size => (decompress body size).mapError (.undecodable name))
    (fun _ _ => rfl) (fun _ payload size => ?_) (fun body block => ?_)
  · simp only [ofLibrary]
    cases Payload.decode name payload with
    | error e => rfl
    | ok parts =>
      simp only [Except.bind]
      cases decompress parts.2 size <;> rfl
  · cases decompress body block.length with
    | error reason => exact ⟨nofun, nofun⟩
    | ok raw => exact ⟨fun h => congrArg some (Except.ok.inj h),
        fun h => congrArg Except.ok (Option.some.inj h)⟩

/-- What a bundled codec turns a body into that declares some size. -/
def body? (libs : Libraries) (id : UInt16) (body : Bytes) (size : Nat) : Option Bytes :=
  if id = 0 then some body
  else if id = 1 then (libs.zstdDecompress body size).toOption
  else (libs.lz4Decompress body size).toOption

/-- The longest payload that a reader takes for a bundled codec. -/
def payloadLimit (id : UInt16) : Nat :=
  4 + if id = 0 then maxBlockSize
    else if id = 1 then Zstd.maxEncodedLength maxBlockSize
    else Lz4.maxEncodedLength maxBlockSize

theorem payloadLimit_lt (id : UInt16) : payloadLimit id < 2 ^ 32 := by
  unfold payloadLimit
  split
  · decide
  split <;> decide

/-- There is a bundled codec for each of three ids. -/
theorem ofId_of_le (libs : Libraries) {id : UInt16} (h : id.toNat ≤ 2) :
    ∃ c, ofId id libs = .ok c ∧ c.id = id ∧
      c.maxCompressedLength maxBlockSize = payloadLimit id := by
  have hcases : id = 0 ∨ id = 1 ∨ id = 2 := by
    simp only [← UInt16.toNat_inj, UInt16.reduceToNat]
    omega
  rcases hcases with rfl | rfl | rfl
  · exact ⟨passthrough, rfl, rfl, rfl⟩
  · exact ⟨zstd defaultLevel libs, rfl, rfl, rfl⟩
  · exact ⟨lz4 libs, rfl, rfl, rfl⟩

theorem ofId_of_lt (libs : Libraries) {id : UInt16} (h : 2 < id.toNat) :
    ofId id libs = .error (.unknownCodec id) := by
  have h₀ : id ≠ 0 := by rintro rfl; simp at h
  have h₁ : id ≠ 1 := by rintro rfl; simp at h
  have h₂ : id ≠ 2 := by rintro rfl; simp at h
  rw [ofId, if_neg h₀, if_neg h₁, if_neg h₂]

theorem implements_ofId {libs : Libraries} {id : UInt16} {c : Codec} (h : ofId id libs = .ok c) :
    c.Implements (Payload.block? (body? libs id)) := by
  unfold ofId at h
  split at h
  · next hid =>
    cases h
    have hbody : body? libs id = fun body _ => some body := by
      funext body size
      rw [body?, if_pos hid]
    exact hbody ▸ implements_passthrough
  split at h
  · next h₀ h₁ =>
    cases h
    have hbody : body? libs id = fun body size => (libs.zstdDecompress body size).toOption := by
      funext body size
      rw [body?, if_neg h₀, if_pos h₁]
    exact hbody ▸ implements_ofLibrary _ _ _ _ _
  split at h
  · next h₀ h₁ _ =>
    cases h
    have hbody : body? libs id = fun body size => (libs.lz4Decompress body size).toOption := by
      funext body size
      rw [body?, if_neg h₀, if_neg h₁]
    exact hbody ▸ implements_ofLibrary _ _ _ _ _
  · cases h

end Codec

end FramedStream
