import FramedStream.Lz4.Block

/-!
# A block of LZ4 ends where it ends

A block carries no length, yet it cannot be cut or continued: where it is cut, input is missing or
bytes are, and whatever follows the last literals is taken for a copy, which makes more bytes.

* `Measures` reads the lengths of a block, one constructor for each way in which a phrase ends, and
  `measures_of_decode` says that a block that decodes makes as much;
* `Measures.compare`: of two blocks one of which continues the other, it makes at least a whole copy
  more;
* `first_of_decode`: a block that makes anything starts with literals.
-/

namespace FramedStream.Lz4

/-! ### The lengths of a block -/

/-- A block in which the lengths of the literals and copies add up to some size. Where the copies
come from does not matter. -/
inductive Measures : (input : Bytes) → (size : Nat) → Prop
  | last {token : UInt8} {afterToken literals : Bytes}
      (count : readLength (token.toNat / 16) afterToken = some (literals.length, literals)) :
      Measures (token :: afterToken) literals.length
  | copy {token lo hi : UInt8} {afterToken literals afterDistance rest : Bytes} {extra size : Nat}
      (count : readLength (token.toNat / 16) afterToken =
        some (literals.length, literals ++ lo :: hi :: afterDistance))
      (length : readLength (token.toNat % 16) afterDistance = some (extra, rest))
      (more : Measures rest size) :
      Measures (token :: afterToken) (literals.length + (extra + leastCopy) + size)

theorem measures_of_ok {room : Nat} {out made : Array UInt8} {input : Bytes}
    (h : decodeOnto room out input = .ok made) :
    ∃ size, Measures input size ∧ made.size = out.size + size := by
  fun_induction decodeOnto room out input with
  | case5 out token afterToken count afterLength hlit literals hlong hroom hrest =>
    -- the input ends behind the literals
    have hall : literals = afterLength := by
      have hsplit := List.take_append_drop count afterLength
      rwa [hrest, List.append_nil] at hsplit
    have hcount : literals.length = count := by
      have hle : literals.length ≤ count := List.length_take_le _ _
      omega
    cases h
    rw [← hcount, ← hall] at hlit
    exact ⟨literals.length, .last hlit, size_append_bytes _ _⟩
  | case10 out token afterToken count afterLength hlit literals hlong hroom lo hi afterDistance
      hrest extra rest hcopy out' distance hfits hnear hless ih =>
    have hall : literals ++ lo :: hi :: afterDistance = afterLength := by
      rw [← hrest]
      exact List.take_append_drop count afterLength
    have hcount : literals.length = count := by
      have hle : literals.length ≤ count := List.length_take_le _ _
      omega
    have hsize : out'.size = out.size + literals.length := size_append_bytes _ _
    rw [← hcount, ← hall] at hlit
    obtain ⟨size, hmore, hmade⟩ := ih h
    refine ⟨_, .copy hlit hcopy hmore, ?_⟩
    rw [hmade, size_copyBack, hsize]
    omega
  | _ => cases h

theorem measures_of_decode {room : Nat} {input raw : Bytes} (h : decode room input = .ok raw) :
    Measures input raw.length := by
  rw [decode] at h
  cases honto : decodeOnto room #[] input with
  | error fault => rw [honto] at h; cases h
  | ok made =>
    obtain ⟨size, hmeasures, hmade⟩ := measures_of_ok honto
    rw [honto] at h
    cases h
    rw [Array.size_empty, Nat.zero_add, ← Array.length_toList] at hmade
    exact hmade ▸ hmeasures

/-! ### What is read is read -/

theorem continueLength_append {sum n : Nat} {input rest : Bytes}
    (h : continueLength sum input = some (n, rest)) (more : Bytes) :
    continueLength sum (input ++ more) = some (n, rest ++ more) := by
  induction input generalizing sum with
  | nil => cases h
  | cons b input ih =>
    rw [continueLength] at h
    rw [List.cons_append, continueLength]
    split at h
    · next hb => rw [if_pos hb, ih h]
    · next hb =>
      cases h
      rw [if_neg hb]

theorem readLength_append {nibble n : Nat} {input rest : Bytes}
    (h : readLength nibble input = some (n, rest)) (more : Bytes) :
    readLength nibble (input ++ more) = some (n, rest ++ more) := by
  unfold readLength at h ⊢
  split at h
  · next hnibble =>
    cases h
    rw [if_pos hnibble]
  · next hnibble => rw [if_neg hnibble, continueLength_append h]

/-! ### Blocks of which one continues the other -/

/-- If a block can be continued at all, this makes at least a whole copy more. -/
theorem Measures.compare {input more : Bytes} {size size' : Nat} (h : Measures input size)
    (h' : Measures (input ++ more) size') :
    more = [] ∧ size' = size ∨ more ≠ [] ∧ size + leastCopy ≤ size' := by
  induction h generalizing size' with
  | @last token afterToken literals count =>
    have hcount := readLength_append count more
    rw [List.cons_append] at h'
    cases h' with
    | last count' =>
      rw [hcount] at count'
      obtain ⟨hlength, hrest⟩ := Prod.mk.inj (Option.some.inj count')
      have hmore : more = [] := by
        have := congrArg List.length hrest
        rw [List.length_append] at this
        exact List.length_eq_zero_iff.1 (by omega)
      exact .inl ⟨hmore, hlength.symm⟩
    | copy count' =>
      -- what follows the last literals is taken for a copy
      rw [hcount] at count'
      obtain ⟨hlength, hrest⟩ := Prod.mk.inj (Option.some.inj count')
      obtain ⟨rfl, rfl⟩ := List.append_inj hrest hlength
      exact .inr ⟨List.cons_ne_nil _ _, by omega⟩
  | @copy token lo hi afterToken literals afterDistance rest extra size count length _ ih =>
    have hcount := readLength_append count more
    have hextra := readLength_append length more
    rw [List.cons_append] at h'
    rw [List.append_assoc] at hcount
    cases h' with
    | last count' =>
      rw [hcount] at count'
      obtain ⟨hlength, hrest⟩ := Prod.mk.inj (Option.some.inj count')
      have := congrArg List.length hrest
      rw [List.length_append, List.cons_append, List.length_cons] at this
      omega
    | copy count' length' more' =>
      rw [hcount] at count'
      obtain ⟨hlength, hrest⟩ := Prod.mk.inj (Option.some.inj count')
      obtain ⟨rfl, htail⟩ := List.append_inj hrest hlength
      cases htail
      cases hextra.symm.trans length'
      rcases ih more' with ⟨hmore, rfl⟩ | ⟨hmore, hsize⟩
      · exact .inl ⟨hmore, rfl⟩
      · exact .inr ⟨hmore, by omega⟩

/-! ### The first token -/

/-- A token without literals leaves the rest of the input as it is. -/
theorem readLength_of_lt {n count : Nat} {input rest : Bytes} (hn : n < 16)
    (h : readLength (n / 16) input = some (count, rest)) : count = 0 := by
  rw [Nat.div_eq_of_lt hn] at h
  cases h
  rfl

/-- A block that makes something starts with literals: there is nothing to be copied yet. -/
theorem first_of_decodeOnto {room : Nat} {input : Bytes} {made : Array UInt8}
    (h : decodeOnto room #[] input = .ok made) (hne : made ≠ #[]) :
    ∃ token next rest, input = token :: next :: rest ∧ 16 ≤ token.toNat := by
  cases input with
  | nil => rw [decodeOnto] at h; cases h
  | cons token afterToken =>
    rw [decodeOnto] at h
    split at h
    · cases h
    next count afterLength hlit =>
    have hlength := length_readLength hlit
    by_cases htoken : 16 ≤ token.toNat
    · cases afterToken with
      | cons next rest => exact ⟨token, next, rest, rfl, htoken⟩
      | nil =>
        -- nothing follows the token, so there are no literals and no copy
        obtain rfl := List.length_eq_zero_iff.1 (Nat.le_zero.1 hlength)
        simp only [List.take_nil, Array.appendList_nil] at h
        split at h
        · cases h
        split at h
        · cases h
        split at h
        · cases h
          exact absurd rfl hne
        · cases h
        · next hlo =>
          rw [List.drop_nil] at hlo
          cases hlo
    · obtain rfl := readLength_of_lt (Nat.not_le.1 htoken) hlit
      simp only [List.take_zero, Array.appendList_nil] at h
      split at h
      · cases h
      split at h
      · cases h
      split at h
      · cases h
        exact absurd rfl hne
      · cases h
      · split at h
        · cases h
        split at h
        · cases h
        rw [Array.size_empty, if_pos (Nat.eq_zero_or_pos _)] at h
        cases h

theorem first_of_decode {room : Nat} {input raw : Bytes} (h : decode room input = .ok raw)
    (hne : raw ≠ []) : ∃ token next rest, input = token :: next :: rest ∧ 16 ≤ token.toNat := by
  rw [decode] at h
  cases honto : decodeOnto room #[] input with
  | error fault => rw [honto] at h; cases h
  | ok made =>
    rw [honto] at h
    cases h
    refine first_of_decodeOnto honto ?_
    rintro rfl
    exact hne rfl

end FramedStream.Lz4
