import FramedStream.Proofs.Reader.Blocks

/-!
# What a reader accepts

Whatever bytes there are in memory: `Opens` says whether they start with a header of a bundled
codec, and the grammar of the records says how far they can be read. A reader opens the former and
reads all of the latter, and everything else it calls a format error.
-/

namespace FramedStream

namespace Reader

/-- The codec id in a header. -/
def codecIdOf (bytes : Bytes) : UInt16 := .ofNat (Bytes.toNatBE ((bytes.drop 16).take 2))

/-- Bytes that start with the header of a stream that can be read. The version and the reserved
bytes may be anything. -/
structure Opens (bytes : Bytes) : Prop where
  long : 20 ≤ bytes.length
  magic : bytes.take 8 = magic
  compatible : Bytes.toNatBE ((bytes.drop 12).take 4) ≤ formatVersion.toNat
  codec : Bytes.toNatBE ((bytes.drop 16).take 2) ≤ 2

theorem toNat_codecIdOf (bytes : Bytes) :
    (codecIdOf bytes).toNat = Bytes.toNatBE ((bytes.drop 16).take 2) := by
  have hlt := Bytes.toNatBE_lt ((bytes.drop 16).take 2)
  have hpow : 256 ^ ((bytes.drop 16).take 2).length ≤ 256 ^ 2 :=
    Nat.pow_le_pow_right (by omega) (List.length_take_le _ _)
  rw [codecIdOf, UInt16.toNat_ofNat']
  exact Nat.mod_eq_of_lt (by omega)

/-- The header at the start of some bytes, whatever it says. -/
def headerOf (bytes : Bytes) : Header where
  version := .ofNat (Bytes.toNatBE ((bytes.drop 8).take 4))
  minCompatible := .ofNat (Bytes.toNatBE ((bytes.drop 12).take 4))
  codecId := codecIdOf bytes

theorem decode_take (bytes : Bytes) :
    Header.decode (bytes.take 20) =
      if bytes.take 8 ≠ magic then .error .badMagic
      else if formatVersion < (headerOf bytes).minCompatible then
        .error (.tooNew (headerOf bytes).version (headerOf bytes).minCompatible)
      else .ok (headerOf bytes) := by
  have htake : (bytes.take 20).take 8 = bytes.take 8 := by
    rw [List.take_take, Nat.min_eq_left (by omega)]
  have hfield : ∀ start width, start + width ≤ 20 →
      ((bytes.take 20).drop start).take width = (bytes.drop start).take width := by
    intro start width h
    rw [List.drop_take, List.take_take, Nat.min_eq_left (by omega)]
  simp only [Header.decode, htake, hfield 8 4 (by omega), hfield 12 4 (by omega),
    hfield 16 2 (by omega)]
  rfl

/-- What a reader makes of the start of bytes in memory, check by check. -/
theorem readFrom_ofBytes (bytes : Bytes) :
    Header.readFrom (.ofBytes bytes) =
      (if bytes.length < 20 then .error (.format .shortHeader)
        else if bytes.take 8 ≠ magic then .error (.format .badMagic)
        else if formatVersion < (headerOf bytes).minCompatible then
          .error (.format (.tooNew (headerOf bytes).version (headerOf bytes).minCompatible))
        else .ok (headerOf bytes), .ofBytes (bytes.drop 20)) := by
  simp only [Header.readFrom, headerSize, Source.fill_ofBytes, Prod.mk.injEq, and_true]
  by_cases hlong : 20 ≤ bytes.length
  · rw [if_pos hlong, if_neg (Nat.not_lt.2 hlong)]
    simp only [decode_take]
    split
    · rfl
    split <;> rfl
  · rw [if_neg hlong, if_pos (Nat.not_le.1 hlong)]

theorem tooNew_iff (bytes : Bytes) :
    formatVersion < (headerOf bytes).minCompatible ↔
      formatVersion.toNat < Bytes.toNatBE ((bytes.drop 12).take 4) := by
  have hlt := Bytes.toNatBE_lt ((bytes.drop 12).take 4)
  have hpow : 256 ^ ((bytes.drop 12).take 4).length ≤ 256 ^ 4 :=
    Nat.pow_le_pow_right (by omega) (List.length_take_le _ _)
  rw [headerOf, UInt32.lt_iff_toNat_lt, UInt32.toNat_ofNat', Nat.mod_eq_of_lt (by omega)]

/-- Bytes in memory are opened if they start with such a header, and then what follows it is before
the reader. -/
theorem openBundled_of_opens (libs : Libraries) {bytes : Bytes} (h : Opens bytes) :
    ∃ r, openBundled (.ofBytes bytes) libs = .ok r ∧ r.blocksRead = 0 ∧
      Ready (Codec.payloadLimit (codecIdOf bytes))
        (Payload.block? (Codec.body? libs (codecIdOf bytes))) r (bytes.drop 20) := by
  have hid : (codecIdOf bytes).toNat ≤ 2 := by
    rw [toNat_codecIdOf]
    exact h.codec
  obtain ⟨c, hc, hcid, hlimit⟩ := Codec.ofId_of_le libs hid
  have hcompatible : ¬formatVersion < (headerOf bytes).minCompatible := by
    rw [tooNew_iff]
    exact Nat.not_lt.2 h.compatible
  have hheader : (headerOf bytes).codecId = codecIdOf bytes := rfl
  simp only [openBundled, readFrom_ofBytes, if_neg (Nat.not_lt.2 h.long),
    if_neg (not_not_intro h.magic), if_neg hcompatible, hheader, hc, ofParts, hcid, ne_eq,
    not_true_eq_false, if_false]
  exact ⟨_, rfl, rfl, rfl, Codec.implements_ofId hc, hlimit, rfl⟩

/-- All other bytes are refused as damaged. -/
theorem openBundled_of_not_opens (libs : Libraries) {bytes : Bytes} (h : ¬Opens bytes) :
    ∃ damage, openBundled (.ofBytes bytes) libs = .error (.format damage) := by
  simp only [openBundled, readFrom_ofBytes]
  by_cases hshort : bytes.length < 20
  · rw [if_pos hshort]
    exact ⟨_, rfl⟩
  rw [if_neg hshort]
  by_cases hmagic : bytes.take 8 ≠ magic
  · rw [if_pos hmagic]
    exact ⟨_, rfl⟩
  rw [if_neg hmagic]
  by_cases hnew : formatVersion < (headerOf bytes).minCompatible
  · rw [if_pos hnew]
    exact ⟨_, rfl⟩
  rw [if_neg hnew]
  rw [tooNew_iff] at hnew
  -- everything else is in order, so it is the codec
  have hid : 2 < (codecIdOf bytes).toNat := by
    rw [toNat_codecIdOf]
    exact Nat.lt_of_not_le fun hcodec =>
      h ⟨Nat.not_lt.1 hshort, Decidable.not_not.1 hmagic, Nat.not_lt.1 hnew, hcodec⟩
  have hheader : (headerOf bytes).codecId = codecIdOf bytes := rfl
  simp only [hheader, Codec.ofId_of_lt libs hid]
  exact ⟨_, rfl⟩

/-- A reader opens exactly the bytes that start with a header of a bundled codec, and then reads
exactly the longest sequence of records that can be parsed behind it. The block of each record is a
function of its payload. Then the stream ends if nothing is left, and is damaged if anything is. -/
theorem accepts_exactly_the_grammar (libs : Libraries) (bytes : Bytes) :
    (¬Opens bytes ∧ ∃ damage, openBundled (.ofBytes bytes) libs = .error (.format damage)) ∨
    (Opens bytes ∧ ∃ r, openBundled (.ofBytes bytes) libs = .ok r ∧
      let limit := Codec.payloadLimit (codecIdOf bytes)
      let block? := Payload.block? (Codec.body? libs (codecIdOf bytes))
      ∃ payloads rest last, Parses limit block? (bytes.drop 20) payloads rest ∧
        (∀ payloads' rest', Parses limit block? (bytes.drop 20) payloads' rest' →
          payloads' <+: payloads) ∧
        (r.nextBlocks (payloads.length + 1)).1 =
          payloads.map (fun payload => .ok (block? payload)) ++ [last] ∧
        ((rest = [] ∧ last = .ok none) ∨
          rest ≠ [] ∧ ∃ damage, last = .error (.format damage))) := by
  by_cases hopens : Opens bytes
  case neg => exact .inl ⟨hopens, openBundled_of_not_opens libs hopens⟩
  obtain ⟨r, hopen, -, hready⟩ := openBundled_of_opens libs hopens
  have hfield := Codec.payloadLimit_lt (codecIdOf bytes)
  obtain ⟨payloads, rest, hparses, hstuck⟩ := exists_parse _ _ (bytes.drop 20)
  obtain ⟨r', hready', -, hrun⟩ := nextBlocks_parses hfield hparses hready
  refine .inr ⟨hopens, r, hopen, payloads, rest, r'.nextBlock.1, hparses,
    fun _ _ => hparses.longest hfield hstuck, by rw [hrun 1]; rfl, ?_⟩
  by_cases hrest : rest = []
  · subst hrest
    obtain ⟨r'', hend, -⟩ := nextBlock_end hready'
    exact .inl ⟨rfl, by rw [hend]⟩
  · exact .inr ⟨hrest, nextBlock_stuck hready' hfield hrest hstuck⟩

end Reader

end FramedStream
