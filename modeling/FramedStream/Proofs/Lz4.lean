import FramedStream.Lz4.Block

/-!
# LZ4 blocks decode to what was encoded

The decoder takes a block apart where the encoder put it together, one phrase after the other
(`decodeOnto_encodePhrase`). What a phrase adds is only known from the bytes before it, so the
induction over the phrases is for any such bytes.

* `decode_encode`: the block of some bytes decodes to them, in just the room that they need;
* `length_encode_le`: it stays within `maxEncodedLength`. A phrase may be longer than what it
  stands for, but by no more than a tenth.
-/

namespace FramedStream

namespace Lz4

/-! ### Lengths -/

theorem continueLength_replicate (sum count : Nat) {last : Nat} (hlast : last < 255)
    (rest : Bytes) :
    continueLength sum (List.replicate count 255 ++ [UInt8.ofNat last] ++ rest) =
      some (sum + 255 * count + last, rest) := by
  induction count generalizing sum with
  | zero =>
    have hne : UInt8.ofNat last ≠ 255 := by
      intro h
      have := congrArg UInt8.toNat h
      simp at this
      omega
    have hto : (UInt8.ofNat last).toNat = last := by simp; omega
    simp [continueLength, hne, hto]
  | succ count ih =>
    rw [List.replicate_succ, List.cons_append, List.cons_append, continueLength, if_pos rfl, ih]
    congr 2
    omega

/-- A length is read back from half a token and the bytes by which it goes on. -/
theorem readLength_lengthBytes (n : Nat) (rest : Bytes) :
    readLength (min n half) (lengthBytes n ++ rest) = some (n, rest) := by
  unfold readLength lengthBytes
  by_cases h : n < half
  · rw [if_pos h, Nat.min_eq_left (Nat.le_of_lt h), if_pos h]
    rfl
  · have hle : half ≤ n := Nat.not_lt.1 h
    rw [if_neg h, Nat.min_eq_right hle, if_neg (Nat.lt_irrefl _),
      continueLength_replicate _ _ (Nat.mod_lt _ (by decide))]
    congr 2
    omega

theorem toNat_token (literals copy : Nat) :
    (token literals copy).toNat = min literals half * 16 + min copy half := by
  have hhalf : half = 15 := rfl
  rw [token, UInt8.toNat_ofNat', Nat.mod_eq_of_lt]
  omega

theorem token_div (literals copy : Nat) : (token literals copy).toNat / 16 = min literals half := by
  have hhalf : half = 15 := rfl
  rw [toNat_token]
  omega

theorem token_mod (literals copy : Nat) : (token literals copy).toNat % 16 = min copy half := by
  have hhalf : half = 15 := rfl
  rw [toNat_token]
  omega

/-! ### Phrases -/

theorem decodeOnto_encodeTail {room : Nat} {out : Array UInt8} {literals : Bytes}
    (hroom : out.size + literals.length ≤ room) :
    decodeOnto room out (encodeTail literals) = .ok (out ++ literals) := by
  have hcount := readLength_lengthBytes literals.length literals
  rw [← token_div literals.length 0] at hcount
  rw [encodeTail, List.cons_append, decodeOnto]
  split
  · next h => rw [hcount] at h; cases h
  next count after h =>
  rw [hcount] at h
  obtain ⟨rfl, rfl⟩ := Prod.mk.inj (Option.some.inj h)
  rw [List.take_length, if_neg (Nat.lt_irrefl _), if_neg (Nat.not_lt.2 hroom)]
  split
  · rfl
  · next h => simp at h
  · next h => simp at h

/-- A phrase that fits is carried out, and the decoder goes on behind it. -/
theorem decodeOnto_encodePhrase {room : Nat} {out : Array UInt8} {p : Phrase} {rest : Bytes}
    (hfits : p.fits limits out.size = true)
    (hroom : out.size + p.size ≤ room) :
    decodeOnto room out (encodePhrase p ++ rest) = decodeOnto room (p.expandOnto out) rest := by
  obtain ⟨hpos, hfar, hback, hleast⟩ := Phrase.fits_iff.1 hfits
  have hleast : leastCopy ≤ p.length := hleast
  have hsize : p.size = p.literals.length + p.length := rfl
  have hfar : p.distance < 256 ^ 2 := Nat.lt_of_le_of_lt hfar (by decide)
  have hcopy : p.length - leastCopy + leastCopy = p.length := Nat.sub_add_cancel hleast
  -- what is left after each of the two lengths
  have hcount := readLength_lengthBytes p.literals.length
    (p.literals ++ (Bytes.ofNatLE 2 p.distance ++ (lengthBytes (p.length - leastCopy) ++ rest)))
  have hextra := readLength_lengthBytes (p.length - leastCopy) rest
  have hbytes : Bytes.ofNatLE 2 p.distance =
      [UInt8.ofNat p.distance, UInt8.ofNat (p.distance / 256)] := rfl
  have hdistance : Bytes.toNatLE [UInt8.ofNat p.distance, UInt8.ofNat (p.distance / 256)] =
      p.distance := by
    rw [← hbytes, Bytes.toNatLE_ofNatLE, Nat.mod_eq_of_lt hfar]
  rw [← token_div p.literals.length (p.length - leastCopy)] at hcount
  rw [← token_mod p.literals.length (p.length - leastCopy)] at hextra
  rw [hbytes, List.cons_append, List.cons_append, List.nil_append] at hcount
  simp only [encodePhrase, hbytes, List.cons_append, List.append_assoc, List.nil_append]
  rw [decodeOnto]
  split
  · next h => rw [hcount] at h; cases h
  next count after h =>
  rw [hcount] at h
  obtain ⟨rfl, rfl⟩ := Prod.mk.inj (Option.some.inj h)
  simp only [List.take_left, Nat.lt_irrefl, if_false]
  rw [if_neg (by omega)]
  split
  · next h => simp at h
  · next h => simp at h
  next lo hi afterDistance h =>
  rw [List.drop_left] at h
  cases h
  split
  · next h => rw [hextra] at h; cases h
  next extra rest' h =>
  rw [hextra] at h
  obtain ⟨rfl, rfl⟩ := Prod.mk.inj (Option.some.inj h)
  rw [hdistance, hcopy, size_append_bytes, if_neg (by omega), if_neg (by omega)]
  rfl

/-- Phrases that fit and the last literals are carried out one after the other. -/
theorem decodeOnto_phrases {room : Nat} {out : Array UInt8} {phrases : List Phrase} {tail : Bytes}
    (hfits : Factoring.phrasesFit limits out.size phrases = true)
    (hroom : (phrases.foldl Phrase.expandOnto out).size + tail.length ≤ room) :
    decodeOnto room out (phrases.flatMap encodePhrase ++ encodeTail tail) =
      .ok (phrases.foldl Phrase.expandOnto out ++ tail) := by
  -- the bytes made so far grow from phrase to phrase
  induction phrases generalizing out with
  | nil => exact decodeOnto_encodeTail hroom
  | cons p phrases ih =>
    rw [Factoring.phrasesFit, Bool.and_eq_true] at hfits
    obtain ⟨hfits, hrest⟩ := hfits
    rw [← p.size_expandOnto] at hrest
    have hgrows := size_le_foldl Phrase.size_expandOnto (p.expandOnto out) phrases
    rw [List.foldl_cons] at hroom
    rw [p.size_expandOnto] at hgrows
    rw [List.flatMap_cons, List.append_assoc, decodeOnto_encodePhrase hfits (by omega),
      ih hrest hroom, List.foldl_cons]

/-- The block of some bytes decodes to them. -/
theorem decode_encode (raw : Bytes) : decode raw.length (encode raw) = .ok raw := by
  have hfits : Factoring.phrasesFit limits (#[] : Array UInt8).size (factor limits raw).phrases =
      true := valid_factor limits raw
  have hexpand : ((factor limits raw).phrases.foldl Phrase.expandOnto #[]).toList ++
      (factor limits raw).tail = raw := expand_factor limits raw
  have hsize := congrArg List.length hexpand
  rw [List.length_append, Array.length_toList] at hsize
  rw [decode, encode, encodeFactoring, decodeOnto_phrases hfits (Nat.le_of_eq hsize)]
  rw [Except.map, Array.toList_appendList, hexpand]

/-! ### The bound -/

theorem length_lengthBytes_le (n : Nat) : 15 * (lengthBytes n).length ≤ n := by
  have hhalf : half = 15 := rfl
  unfold lengthBytes
  split
  · exact Nat.zero_le _
  · rw [List.length_append, List.length_replicate, List.length_singleton]
    omega

/-- A phrase takes at most a tenth more than what it stands for. -/
theorem length_encodePhrase_le {p : Phrase} (hleast : leastCopy ≤ p.length) :
    100 * (encodePhrase p).length ≤ 110 * p.size := by
  have hfour : leastCopy = 4 := rfl
  have hsize : p.size = p.literals.length + p.length := rfl
  have hcount := length_lengthBytes_le p.literals.length
  have hextra := length_lengthBytes_le (p.length - leastCopy)
  simp only [encodePhrase, List.length_append, List.length_cons, Bytes.length_ofNatLE]
  omega

theorem length_phrases_le {size : Nat} {phrases : List Phrase} (out : Array UInt8)
    (hfits : Factoring.phrasesFit limits size phrases = true) :
    100 * (phrases.flatMap encodePhrase).length + 110 * out.size ≤
      110 * (phrases.foldl Phrase.expandOnto out).size := by
  induction phrases generalizing size out with
  | nil => simp
  | cons p phrases ih =>
    rw [Factoring.phrasesFit, Bool.and_eq_true] at hfits
    obtain ⟨hfits, hrest⟩ := hfits
    obtain ⟨-, -, -, hleast⟩ := Phrase.fits_iff.1 hfits
    have hphrase := length_encodePhrase_le hleast
    have hrest := ih (p.expandOnto out) hrest
    rw [p.size_expandOnto] at hrest
    rw [List.flatMap_cons, List.length_append, List.foldl_cons]
    omega

/-- A block stays within the bound for its bytes. -/
theorem length_encode_le (raw : Bytes) : (encode raw).length ≤ maxEncodedLength raw.length := by
  have hsize := congrArg List.length (expand_factor limits raw)
  have hphrases := length_phrases_le #[] (valid_factor limits raw)
  have htail := length_lengthBytes_le (factor limits raw).tail.length
  rw [Factoring.expand, List.length_append, Array.length_toList] at hsize
  simp only [encode, encodeFactoring, encodeTail, maxEncodedLength, List.length_append,
    List.length_cons]
  rw [Array.size_empty] at hphrases
  omega

end Lz4

end FramedStream
