import FramedStream.Zstd.Encode

/-!
# Bits as digits of a number

The bytes of a bitstream are one number, and its bits are digits of it (`bitsFrom_eq`).

`BitReader.Holds` is the state of a stream by the number that is left in it. A stream that was
written for a number holds it (`ofBytes?_encodeBits`), each reading takes the high digits away
(`Holds.read`), and when no digit is left the stream is finished.
-/

namespace FramedStream.Zstd

open Bytes (toNatLE ofNatLE ofNatLE_succ length_ofNatLE toNatLE_ofNatLE)

theorem toNat_getD (bytes : Bytes) (place : Nat) :
    (bytes.toArray.getD place 0).toNat = toNatLE bytes / 256 ^ place % 256 := by
  rw [Array.getD_eq_getD_getElem?, List.getElem?_toArray]
  induction bytes generalizing place with
  | nil => simp [toNatLE]
  | cons b bytes ih =>
    have hb := b.toNat_lt
    cases place with
    | zero =>
      simp only [List.getElem?_cons_zero, Option.getD_some, toNatLE, Nat.pow_zero]
      omega
    | succ place =>
      have hdiv : toNatLE (b :: bytes) / 256 = toNatLE bytes := by
        rw [toNatLE]
        omega
      rw [List.getElem?_cons_succ, ih, Nat.pow_succ', ← Nat.div_div_eq_div_mul, hdiv]

theorem window_eq (bytes : Bytes) (first count : Nat) :
    window bytes.toArray first count = toNatLE bytes / 256 ^ first % 256 ^ count := by
  induction count generalizing first with
  | zero => simp [window, Nat.mod_one]
  | succ count ih =>
    rw [window, ih, toNat_getD, Nat.pow_succ' (n := count), Nat.mod_mul, Nat.div_div_eq_div_mul,
      ← Nat.pow_succ]

/-- Bits are digits to base 2. -/
theorem bitsFrom_eq (bytes : Bytes) (low count : Nat) :
    bitsFrom bytes.toArray low count = toNatLE bytes / 2 ^ low % 2 ^ count := by
  have hbytes : ∀ n, 256 ^ n = 2 ^ (8 * n) := fun n => Nat.pow_mul 2 8 n ▸ rfl
  have hlow : 2 ^ low = 256 ^ (low / 8) * 2 ^ (low % 8) := by
    rw [hbytes, ← Nat.pow_add]
    congr 1
    omega
  have hwidth : 256 ^ ((low % 8 + count + 7) / 8) =
      2 ^ (low % 8) * 2 ^ (8 * ((low % 8 + count + 7) / 8) - low % 8) := by
    rw [hbytes, ← Nat.pow_add]
    congr 1
    omega
  rw [bitsFrom, window_eq, hwidth, Nat.mod_mul_right_div_self, hlow, ← Nat.div_div_eq_div_mul]
  exact Nat.mod_mod_of_dvd _ (Nat.pow_dvd_pow 2 (by omega))

/-- A number of high and low digits. -/
theorem digits_lt {count width high low : Nat} (hhigh : high < 2 ^ count) (hlow : low < 2 ^ width) :
    high * 2 ^ width + low < 2 ^ (count + width) := by
  have hmul := Nat.mul_le_mul_right (2 ^ width) hhigh
  rw [Nat.succ_mul, ← Nat.pow_add] at hmul
  omega

namespace BitReader

/-- A stream in which `width` bits are left, which make the number `n`. -/
structure Holds (r : BitReader) (width n : Nat) : Prop where
  left : r.left = width
  overrun : r.overrun = false
  digits : toNatLE r.bytes.toList % 2 ^ width = n

/-- The next bits are the high digits, and the low ones stay. -/
theorem Holds.read {r : BitReader} {width count high low : Nat}
    (h : r.Holds (count + width) (high * 2 ^ width + low)) (hlow : low < 2 ^ width) :
    (r.read count).1 = high ∧ (r.read count).2.Holds width low := by
  obtain ⟨hleft, hoverrun, hdigits⟩ := h
  have hle : count ≤ r.left := by omega
  have hwidth : r.left - count = width := by omega
  have hpow : 2 ^ (count + width) = 2 ^ width * 2 ^ count := by rw [Nat.add_comm, Nat.pow_add]
  rw [hpow] at hdigits
  have hhigh : (high * 2 ^ width + low) / 2 ^ width = high := by
    rw [Nat.mul_comm, Nat.mul_add_div (Nat.two_pow_pos _), Nat.div_eq_of_lt hlow, Nat.add_zero]
  refine ⟨?_, ?_, ?_, ?_⟩
  · show r.peek count = high
    rw [peek, if_pos hle, hwidth, bitsFrom_eq r.bytes.toList, ← Nat.mod_mul_right_div_self, hdigits,
      hhigh]
  · exact hwidth
  · show (r.overrun || decide (r.left < count)) = false
    rw [hoverrun, decide_eq_false (Nat.not_lt.2 hle), Bool.or_self]
  · show toNatLE r.bytes.toList % 2 ^ width = low
    rw [← Nat.mod_mod_of_dvd _ (Nat.dvd_mul_right (2 ^ width) (2 ^ count)), hdigits, Nat.mul_comm,
      Nat.mul_add_mod, Nat.mod_eq_of_lt hlow]

/-- The last bits of a stream. -/
theorem Holds.read_last {r : BitReader} {count n : Nat} (h : r.Holds count n) :
    (r.read count).1 = n ∧ (r.read count).2.Holds 0 0 := by
  have h : r.Holds (count + 0) (n * 2 ^ 0 + 0) := by simpa using h
  exact h.read (Nat.two_pow_pos 0)

theorem Holds.isFinished {r : BitReader} {n : Nat} (h : r.Holds 0 n) : r.isFinished = true := by
  rw [BitReader.isFinished, h.left, h.overrun]
  rfl

theorem log2_marked {width n : Nat} (hn : n < 2 ^ width) : (2 ^ width + n).log2 = width := by
  have hpos := Nat.two_pow_pos width
  rw [Nat.log2_eq_iff (by omega), Nat.pow_succ]
  omega

/-- A stream that was written for a number with an end mark holds the number. -/
theorem ofBytes?_encodeBits {width n : Nat} (hn : n < 2 ^ width) :
    ∃ r, ofBytes? (encodeBits (2 ^ width + n)).toArray = some r ∧ r.Holds width n := by
  have hmark := log2_marked hn
  have hpos := Nat.two_pow_pos width
  have hbytes : 256 ^ (width / 8) = 2 ^ (8 * (width / 8)) := Nat.pow_mul 2 8 _ ▸ rfl
  have hsplit : 2 ^ width = 256 ^ (width / 8) * 2 ^ (width % 8) := by
    rw [hbytes, ← Nat.pow_add]
    congr 1
    omega
  have hlt : 2 ^ width + n < 256 ^ (width / 8 + 1) := by
    have hmore : 2 ^ (width % 8 + 1) ≤ 2 ^ 8 := Nat.pow_le_pow_right (by decide) (by omega)
    have hfits := Nat.mul_le_mul_left (256 ^ (width / 8)) hmore
    rw [Nat.pow_succ 2, ← Nat.mul_assoc, ← hsplit] at hfits
    rw [Nat.pow_succ 256]
    omega
  -- the last byte has the end mark and the bits of `width` that are more than whole bytes
  have hlast : (2 ^ width + n) / 256 ^ (width / 8) = 2 ^ (width % 8) + n / 256 ^ (width / 8) := by
    rw [hsplit, Nat.mul_add_div (by rw [hbytes]; exact Nat.two_pow_pos _)]
  have hrest : n / 256 ^ (width / 8) < 2 ^ (width % 8) :=
    Nat.div_lt_of_lt_mul (by rwa [← hsplit])
  have hbyte : (UInt8.ofNat ((2 ^ width + n) / 256 ^ (width / 8))).toNat =
      2 ^ (width % 8) + n / 256 ^ (width / 8) := by
    rw [UInt8.toNat_ofNat', ← hlast, Nat.mod_eq_of_lt]
    exact Nat.div_lt_of_lt_mul (by rwa [← Nat.pow_succ])
  have hne : UInt8.ofNat ((2 ^ width + n) / 256 ^ (width / 8)) ≠ 0 := by
    intro h
    have htop := Nat.two_pow_pos (width % 8)
    rw [h, UInt8.toNat_zero] at hbyte
    exact Nat.ne_of_lt (Nat.add_pos_left htop _) hbyte
  refine ⟨⟨(encodeBits (2 ^ width + n)).toArray, width, false⟩, ?_, rfl, rfl, ?_⟩
  · rw [ofBytes?, encodeBits, hmark, List.back?_toArray, ofNatLE_succ, List.getLast?_concat]
    show (if _ = 0 then none else some _) = some _
    rw [if_neg hne, List.size_toArray, List.length_append, length_ofNatLE, List.length_singleton,
      hbyte, log2_marked hrest, Nat.add_sub_cancel, Nat.div_add_mod]
  · rw [encodeBits, hmark, toNatLE_ofNatLE, Nat.mod_eq_of_lt hlt, Nat.add_mod_left,
      Nat.mod_eq_of_lt hn]

end BitReader

end FramedStream.Zstd
