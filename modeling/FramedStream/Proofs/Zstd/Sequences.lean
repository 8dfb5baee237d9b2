import FramedStream.Proofs.Zstd.Bits

/-!
# The sequence of a phrase

The block of a phrase has one sequence, and each of its codes is the only one of its table.

* `findCode_spec`: a number in one of the ranges is its base and extra bits;
* `execute?_encodeSequence`: the bytes of the sequence, carried out with the literals of the
  phrase, make what the phrase stands for.
-/

namespace FramedStream.Zstd

open Bytes (toNatLE ofNatLE)

/-! ### Codes -/

theorem exists_range {base number : Nat} {widths : List Nat} (hbase : base ≤ number)
    (hlt : number < base + (widths.map (2 ^ ·)).sum) :
    ∃ range ∈ rangesFrom base widths,
      range.base ≤ number ∧ number < range.base + 2 ^ range.bits := by
  induction widths generalizing base with
  | nil =>
    simp only [List.map_nil, List.sum_nil, Nat.add_zero] at hlt
    omega
  | cons bits widths ih =>
    simp only [List.map_cons, List.sum_cons] at hlt
    by_cases hfirst : number < base + 2 ^ bits
    · exact ⟨⟨base, bits⟩, List.mem_cons_self, hbase, hfirst⟩
    · obtain ⟨range, hmem, hrange⟩ := ih (show base + 2 ^ bits ≤ number by omega) (by omega)
      exact ⟨range, List.mem_cons_of_mem _ hmem, hrange⟩

/-- A number as the code of a range and what is to be added to its base. -/
structure Coded (ranges : Array Range) (number code extra : Nat) : Prop where
  size : code < ranges.size
  sum : (ranges.getD code default).base + extra = number
  bits : extra < 2 ^ (ranges.getD code default).bits

/-- A number in one of the ranges is coded. -/
theorem findCode_spec {ranges : Array Range} {number : Nat}
    (h : ∃ range ∈ ranges.toList, range.base ≤ number ∧ number < range.base + 2 ^ range.bits) :
    ∃ code extra, findCode ranges number = (code, extra, (ranges.getD code default).bits) ∧
      Coded ranges number code extra := by
  obtain ⟨range, hmem, hlow, hhigh⟩ := h
  have hfound := Array.findIdx?_eq_some_of_exists
    (p := fun range => range.base ≤ number && number < range.base + 2 ^ range.bits)
    ⟨range, Array.mem_def.2 hmem, by simp [hlow, hhigh]⟩
  obtain ⟨hsize, hat, -⟩ := Array.findIdx?_eq_some_iff_getElem.1 hfound
  rw [Bool.and_eq_true, decide_eq_true_iff, decide_eq_true_iff] at hat
  obtain ⟨hbase, hlt⟩ := hat
  have hget := Array.getElem_eq_getD (h := hsize) default
  rw [hget] at hbase hlt
  refine ⟨_, _, by rw [findCode, hfound], hsize, ?_, ?_⟩
  · exact Nat.add_sub_cancel' hbase
  · omega

theorem findCode_literals {number : Nat} (h : number < maxBlock) :
    ∃ code extra, findCode literalRanges number =
        (code, extra, (literalRanges.getD code default).bits) ∧
      Coded literalRanges number code extra :=
  findCode_spec (exists_range (Nat.zero_le number) (Nat.lt_of_lt_of_le h (by decide)))

theorem findCode_copies {number : Nat} (hleast : 3 ≤ number) (h : number ≤ maxBlock) :
    ∃ code extra, findCode copyRanges number =
        (code, extra, (copyRanges.getD code default).bits) ∧ Coded copyRanges number code extra :=
  findCode_spec (exists_range hleast (Nat.lt_of_le_of_lt h (by decide)))

/-- A number is a power of two, whose exponent is the code, and what is to be added to it. -/
theorem exists_log2 {number : Nat} (hpos : 0 < number) :
    ∃ extra, number = 2 ^ number.log2 + extra ∧ extra < 2 ^ number.log2 := by
  obtain ⟨hle, hlt⟩ := (Nat.log2_eq_iff (Nat.ne_of_gt hpos)).1 rfl
  obtain ⟨extra, hsum⟩ := Nat.exists_eq_add_of_le hle
  rw [Nat.pow_succ] at hlt
  exact ⟨extra, hsum, by omega⟩

theorem log2_le_maxDistanceCode {number : Nat} (hpos : 0 < number) (h : number < 2 ^ 32) :
    number.log2 ≤ maxDistanceCode := by
  have hlt := (Nat.log2_lt (Nat.ne_of_gt hpos)).2 h
  exact Nat.le_of_lt_succ hlt

/-! ### The sequence -/

theorem readTable?_code {maxCode maxAccuracy code : Nat} {predefined : Fse.Distribution}
    {before : Option Fse.Table} {rest : Bytes} (hle : code ≤ maxCode) (hlt : maxCode < 256) :
    readTable? 1 maxCode maxAccuracy predefined before (UInt8.ofNat code :: rest) =
      some (.single code, rest) := by
  have hto : (UInt8.ofNat code).toNat = code := by
    rw [UInt8.toNat_ofNat', Nat.mod_eq_of_lt (by omega)]
  show (if maxCode < (UInt8.ofNat code).toNat then none
    else some (Fse.Table.single (UInt8.ofNat code).toNat, rest)) = _
  rw [hto, if_neg (Nat.not_lt.2 hle)]

/-- Three tables of one code each. -/
theorem Tables.read?_codes {before : Option Tables} {literalCode distanceCode copyCode : Nat}
    {rest : Bytes} (hliteral : literalCode ≤ 35) (hdistance : distanceCode ≤ maxDistanceCode)
    (hcopy : copyCode ≤ 52) :
    Tables.read? before (0x54 :: UInt8.ofNat literalCode :: UInt8.ofNat distanceCode ::
        UInt8.ofNat copyCode :: rest) =
      some (⟨.single literalCode, .single distanceCode, .single copyCode⟩, rest) := by
  have hmodes : (0x54 : UInt8).toNat = 84 := rfl
  simp only [Tables.read?, hmodes, Nat.reduceMod, Nat.reduceDiv, ne_eq, not_true_eq_false, if_false]
  simp only [readTable?_code hliteral (by decide), readTable?_code hdistance (by decide),
    readTable?_code hcopy (by decide), Option.bind_eq_bind, Option.bind_some]

@[simp] theorem Fse.Table.start_single (code : Nat) (r : BitReader) :
    (Fse.Table.single code).start r = (⟨code, 0, 0⟩, r) := by
  rw [start, single, BitReader.read_zero]
  rfl

/-- All literals and the copy of a phrase that is as far back as the frame goes at most. -/
theorem Progress.step?_phrase {bounds : Bounds} {out : Array UInt8} {p : Phrase}
    {history history' : History} (hpos : 1 ≤ p.distance)
    (hback : bounds.frameStart + p.distance ≤ out.size + p.literals.length)
    (hroom : out.size + p.size ≤ bounds.room) :
    Progress.step? bounds p.literals.toArray ⟨out, 0, history⟩ p.literals.length p.distance p.length
      history' = some ⟨p.expandOnto out, p.literals.length, history'⟩ := by
  have hsize : p.size = p.literals.length + p.length := rfl
  have hout : out ++ p.literals.toArray.extract 0 (0 + p.literals.length) = out ++ p.literals := by
    apply Array.toList_inj.1
    simp
  rw [Progress.step?, if_neg (by simp)]
  simp only [hout, size_append_bytes]
  rw [if_neg (by omega), if_neg (by omega), Nat.zero_add]
  rfl

/-- Everything that a phrase needs to be a block: a copy that starts in the frame, and room. -/
structure PhraseFits (bounds : Bounds) (size : Nat) (p : Phrase) : Prop where
  literals : p.literals.length < maxBlock
  distance : 1 ≤ p.distance
  near : p.distance ≤ maxBlock
  back : bounds.frameStart + p.distance ≤ size + p.literals.length
  least : 3 ≤ p.length
  length : p.length ≤ maxBlock
  room : size + p.size ≤ bounds.room

/-- The extra bits of a sequence, those of the distance first. -/
def sequenceBits (distanceExtra copyExtra copyBits literalExtra literalBits : Nat) : Nat :=
  distanceExtra * 2 ^ (copyBits + literalBits) + (copyExtra * 2 ^ literalBits + literalExtra)

/-- The number of the distance is the end mark and its own extra bits. -/
theorem marked_eq {number code extra : Nat} (h : number = 2 ^ code + extra)
    (copyExtra copyBits literalExtra literalBits : Nat) :
    (number * 2 ^ copyBits + copyExtra) * 2 ^ literalBits + literalExtra =
      2 ^ (code + (copyBits + literalBits)) +
        sequenceBits extra copyExtra copyBits literalExtra literalBits := by
  rw [h, sequenceBits]
  simp only [Nat.pow_add, Nat.add_mul, Nat.mul_assoc, Nat.add_assoc]

/-- One sequence, whose stream holds just its extra bits. -/
theorem runSequences?_one {bounds : Bounds} {out : Array UInt8} {p : Phrase}
    (h : PhraseFits bounds out.size p) {lcode lextra ccode cextra dcode dextra : Nat}
    (hl : Coded literalRanges p.literals.length lcode lextra)
    (hc : Coded copyRanges p.length ccode cextra)
    (hd : p.distance + 3 = 2 ^ dcode + dextra) {r : BitReader}
    (hr : r.Holds
      (dcode + ((copyRanges.getD ccode default).bits + (literalRanges.getD lcode default).bits))
      (sequenceBits dextra cextra (copyRanges.getD ccode default).bits lextra
        (literalRanges.getD lcode default).bits))
    (tables : Tables) (history : History) :
    runSequences? bounds p.literals.toArray tables 1 ⟨lcode, 0, 0⟩ ⟨dcode, 0, 0⟩ ⟨ccode, 0, 0⟩ r
        ⟨out, 0, history⟩ =
      some ⟨p.expandOnto out, p.literals.length,
        ⟨p.distance, history.first, history.second⟩⟩ := by
  -- the extra bits come in this order: distance, copy, literals
  obtain ⟨hdistance, hr⟩ := hr.read (digits_lt hc.bits hl.bits)
  obtain ⟨hcopy, hr⟩ := hr.read hl.bits
  obtain ⟨hliteral, hr⟩ := hr.read_last
  have hresolve : history.resolve (2 ^ dcode + dextra) p.literals.length =
      (p.distance, ⟨p.distance, history.first, history.second⟩) := by
    have hpos := h.distance
    rw [← hd, History.resolve, if_pos (by omega), Nat.add_sub_cancel]
  simp only [runSequences?, hdistance, hcopy, hliteral, hc.sum, hl.sum, hresolve,
    Progress.step?_phrase h.distance h.back h.room, hr.isFinished, if_true]

/-- No literals are left after a phrase. -/
theorem Progress.finish?_phrase {bounds : Bounds} {made : Array UInt8} {literals : Bytes}
    {history : History} (hroom : made.size ≤ bounds.room) :
    Progress.finish? bounds literals.toArray ⟨made, literals.length, history⟩ =
      some ⟨made, literals.length, history⟩ := by
  have hmade : made ++ literals.toArray.extract literals.length literals.length = made := by
    rw [Array.extract_eq_empty_of_le (Nat.min_le_left _ _), Array.append_empty]
  simp only [Progress.finish?, List.size_toArray, hmade]
  rw [if_neg (Nat.not_lt.2 hroom)]

/-- The sequence of a phrase makes what the phrase stands for. -/
theorem execute?_encodeSequence {bounds : Bounds} {out : Array UInt8} {p : Phrase}
    (h : PhraseFits bounds out.size p) (history : History) (before : Option Tables) :
    ∃ history' tables, execute? bounds out p.literals.toArray history before (encodeSequence p) =
      some (⟨p.expandOnto out, p.literals.length, history'⟩, some tables) := by
  obtain ⟨lcode, lextra, hlfind, hl⟩ := findCode_literals h.literals
  obtain ⟨ccode, cextra, hcfind, hc⟩ := findCode_copies h.least h.length
  have hnear : p.distance ≤ 131072 := h.near
  obtain ⟨dextra, hd, hdlt⟩ := exists_log2 (show 0 < p.distance + 3 by omega)
  have hdcode := log2_le_maxDistanceCode (show 0 < p.distance + 3 by omega) (by omega)
  have hmarked := marked_eq hd cextra (copyRanges.getD ccode default).bits lextra
    (literalRanges.getD lcode default).bits
  obtain ⟨r, hr, hholds⟩ :=
    BitReader.ofBytes?_encodeBits (digits_lt hdlt (digits_lt hc.bits hl.bits))
  have hcount : ∀ rest, readCount? (1 :: rest) = some (1, rest) := fun _ => rfl
  have hroom : (p.expandOnto out).size ≤ bounds.room := by
    rw [p.size_expandOnto]
    exact h.room
  rw [encodeSequence, hlfind, hcfind]
  simp only [hmarked, List.cons_append, List.nil_append]
  rw [execute?, hcount]
  simp only [Option.bind_eq_bind, Option.bind_some, Nat.one_ne_zero, if_false,
    Tables.read?_codes (Nat.le_of_lt_succ hl.size) hdcode (Nat.le_of_lt_succ hc.size)]
  rw [sequenceBits, hr]
  simp only [Option.bind_some, Fse.Table.start_single, runSequences?_one h hl hc hd hholds,
    Progress.finish?_phrase hroom, Option.map_some]
  exact ⟨_, _, rfl⟩

end FramedStream.Zstd
