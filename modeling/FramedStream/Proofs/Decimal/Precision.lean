import Mathlib.Data.Nat.Log
import Mathlib.Tactic.Ring
import FramedStream.Bytes
import FramedStream.Decimal.Binary64

/-!
# Whole numbers in double precision

Rounding keeps the order of quotients and leaves whole ones alone (`roundDiv_mono`,
`roundDiv_exact`), so nothing is rounded across a whole number. Doubles next to a whole number `n`
are `spacing n` apart, and `Magnitude.ofNat n` is the nearest of them (`num_ofNat`):

* `nearest_near`: it is within half the spacing of `n`;
* `nearest_of_lt`: it is `n` itself below `2 ^ 53`;
* `nearest_mono`: larger numbers are not rounded to smaller ones.
-/

namespace FramedStream

namespace Decimal

/-! ### Quotients -/

theorem roundDiv_mul_left {c : Nat} (hc : 0 < c) (num den : Nat) :
    roundDiv (c * num) (c * den) = roundDiv num den := by
  have htwice : 2 * (c * (num % den)) = c * (2 * (num % den)) := by ring
  simp only [roundDiv, Nat.mul_div_mul_left _ _ hc, Nat.mul_mod_mul_left, htwice,
    Nat.mul_lt_mul_left hc, Nat.mul_right_inj hc.ne']

theorem roundDiv_exact {den : Nat} (hden : 0 < den) (q : Nat) : roundDiv (den * q) den = q := by
  simp [roundDiv, Nat.mul_div_cancel_left q hden, hden]

/-- A larger numerator has the larger whole part or, with the same whole part, the larger rest. -/
theorem roundDiv_mono (den : Nat) {num num' : Nat} (h : num ≤ num') :
    roundDiv num den ≤ roundDiv num' den := by
  have hquotients := Nat.div_le_div_right (c := den) h
  rcases hquotients.lt_or_eq with hless | hsame
  · simp only [roundDiv]
    split <;> split <;> omega
  · have hsplit := Nat.div_add_mod num den
    have hsplit' := Nat.div_add_mod num' den
    rw [hsame] at hsplit
    simp only [roundDiv, hsame]
    split <;> split <;> omega

theorem le_roundDiv {q num den : Nat} (hden : 0 < den) (h : den * q ≤ num) :
    q ≤ roundDiv num den := by
  rw [← roundDiv_exact hden q]
  exact roundDiv_mono den h

theorem roundDiv_le {q num den : Nat} (hden : 0 < den) (h : num ≤ den * q) :
    roundDiv num den ≤ q := by
  rw [← roundDiv_exact hden q]
  exact roundDiv_mono den h

/-- A quotient is rounded up to an even number from a half below it on, because a half goes to the
even neighbour. -/
theorem roundDiv_lt_iff {q num den : Nat} (hden : 0 < den) (heven : q % 2 = 0) :
    roundDiv num den < q ↔ 2 * num + den < 2 * (den * q) := by
  obtain ⟨hup, hdown⟩ := roundDiv_near num hden
  constructor
  · intro hless
    have hnext : den * (roundDiv num den + 1) ≤ den * q := Nat.mul_le_mul_left _ hless
    rw [Nat.mul_succ] at hnext
    by_contra hreached
    have htie : 2 * num = 2 * (den * roundDiv num den) + den := by omega
    have hroundEven := roundDiv_even num hden (.inr htie)
    have hsame : den * q = den * (roundDiv num den + 1) := by
      rw [Nat.mul_succ]
      omega
    have hq : q = roundDiv num den + 1 := Nat.eq_of_mul_eq_mul_left hden hsame
    omega
  · intro hless
    by_contra hreached
    have hmore : den * q ≤ den * roundDiv num den :=
      Nat.mul_le_mul_left _ (Nat.not_lt.1 hreached)
    omega

/-- What is written depends on the rounded quotient alone. -/
theorem fixed_congr {places num den num' den' : Nat}
    (h : roundDiv (num * 10 ^ places) den = roundDiv (num' * 10 ^ places) den') :
    fixed places num den = fixed places num' den' := by
  simp only [fixed, h]

theorem fixed_mul_left {c : Nat} (hc : 0 < c) (places num den : Nat) :
    fixed places (c * num) (c * den) = fixed places num den := by
  simp only [fixed, Nat.mul_assoc, roundDiv_mul_left hc]

/-! ### Whole numbers -/

/-- The distance of the doubles next to a number. It is below 1 only for numbers of fewer than
`precision` bits, and there the whole numbers are among the doubles. -/
def spacing (n : Nat) : Nat := 2 ^ (n.log2 + 1 - Magnitude.precision)

/-- The double nearest to a whole number, which is whole too. -/
def nearest (n : Nat) : Nat := spacing n * roundDiv n (spacing n)

theorem spacing_pos (n : Nat) : 0 < spacing n := Nat.two_pow_pos _

theorem log2_lt_of_lt {n bits : Nat} (hbits : 0 < bits) (h : n < 2 ^ bits) : n.log2 < bits := by
  by_cases hzero : n = 0
  · rw [hzero]
    exact hbits
  · exact (Nat.log2_lt hzero).2 h

theorem spacing_of_lt {n : Nat} (h : n < 2 ^ 53) : spacing n = 1 := by
  have hlog := log2_lt_of_lt (by decide) h
  rw [spacing, Magnitude.precision, Nat.sub_eq_zero_of_le hlog, Nat.pow_zero]

/-- Numbers of 64 bits lose eleven of them at most. -/
theorem spacing_le {n : Nat} (h : n < 2 ^ 64) : spacing n ≤ 2048 := by
  have hlog := log2_lt_of_lt (by decide) h
  have hpower : 2 ^ (n.log2 + 1 - 53) ≤ 2 ^ 11 := Nat.pow_le_pow_right (by decide) (by omega)
  exact hpower

theorem nearest_of_lt {n : Nat} (h : n < 2 ^ 53) : nearest n = n := by
  rw [nearest, spacing_of_lt h, Nat.one_mul]
  simpa using roundDiv_exact Nat.one_pos n

theorem nearest_near (n : Nat) :
    2 * nearest n ≤ 2 * n + spacing n ∧ 2 * n ≤ 2 * nearest n + spacing n :=
  roundDiv_near n (spacing_pos n)

theorem le_nearest {n p : Nat} (hp : spacing n ∣ p) (h : p ≤ n) : p ≤ nearest n := by
  obtain ⟨q, rfl⟩ := hp
  exact Nat.mul_le_mul_left _ (le_roundDiv (spacing_pos n) h)

theorem nearest_le {n p : Nat} (hp : spacing n ∣ p) (h : n ≤ p) : nearest n ≤ p := by
  obtain ⟨q, rfl⟩ := hp
  exact Nat.mul_le_mul_left _ (roundDiv_le (spacing_pos n) h)

/-- Powers of two that are not below the leading bit are doubles. -/
theorem spacing_dvd {n k : Nat} (h : n.log2 ≤ k) : spacing n ∣ 2 ^ k := by
  apply Nat.pow_dvd_pow
  rw [Magnitude.precision]
  omega

theorem nearest_mono {n k : Nat} (h : n ≤ k) : nearest n ≤ nearest k := by
  by_cases hzero : n = 0
  · subst hzero
    exact Nat.zero_le _
  have hpositive : k ≠ 0 := by omega
  have hlogs : n.log2 ≤ k.log2 :=
    (Nat.le_log2 hpositive).2 ((Nat.log2_self_le hzero).trans h)
  rcases hlogs.lt_or_eq with hless | hsame
  · -- a power of two lies between them
    calc nearest n ≤ 2 ^ (n.log2 + 1) :=
          nearest_le (spacing_dvd (Nat.le_succ _)) Nat.lt_log2_self.le
      _ ≤ 2 ^ k.log2 := Nat.pow_le_pow_right (by decide) hless
      _ ≤ nearest k := le_nearest (spacing_dvd (Nat.le_refl _)) (Nat.log2_self_le hpositive)
  · have hspacing : spacing n = spacing k := by rw [spacing, spacing, hsame]
    rw [nearest, nearest, hspacing]
    exact Nat.mul_le_mul_left _ (roundDiv_mono _ h)

/-! ### Magnitudes -/

namespace Magnitude

variable {n : Nat}

/-- The bits of a whole number from the first of `precision` bits on are those before the point. -/
theorem leadingExponent_whole (hn : n ≠ 0) : leadingExponent n 1 = (n.log2 : Int) - 52 := by
  have hlow := Nat.log2_self_le hn
  have hone : Nat.log2 1 = 0 := by decide
  have hguess : (n.log2 : Int) - (Nat.log2 1 : Nat) - (precision - 1 : Nat) =
      (n.log2 : Int) - 52 := by
    rw [hone, precision]
    omega
  unfold leadingExponent
  simp only [hguess, inUnits]
  apply if_neg
  rw [Nat.not_lt, precision, Nat.one_mul]
  rcases Nat.le_total n.log2 52 with hsmall | hlarge
  · have hup : (-((n.log2 : Int) - 52)).toNat = 52 - n.log2 := by omega
    have hdown : ((n.log2 : Int) - 52).toNat = 0 := by omega
    rw [hup, hdown, Nat.pow_zero, Nat.one_mul]
    calc 2 ^ (53 - 1) = 2 ^ n.log2 * 2 ^ (52 - n.log2) := by
          rw [← Nat.pow_add, Nat.add_sub_cancel' hsmall]
      _ ≤ n * 2 ^ (52 - n.log2) := Nat.mul_le_mul_right _ hlow
  · have hup : (-((n.log2 : Int) - 52)).toNat = 0 := by omega
    have hdown : ((n.log2 : Int) - 52).toNat = n.log2 - 52 := by omega
    rw [hup, hdown, Nat.pow_zero, Nat.mul_one]
    calc 2 ^ (n.log2 - 52) * 2 ^ (53 - 1) = 2 ^ n.log2 := by
          rw [← Nat.pow_add, Nat.sub_add_cancel hlarge]
      _ ≤ n := hlow

/-- A number of no more bits than a mantissa is held as it is. -/
theorem ofNat_small (hn : n ≠ 0) (hlog : n.log2 ≤ 52) :
    ofNat n = ⟨n * 2 ^ (52 - n.log2), (n.log2 : Int) - 52⟩ := by
  have hup : (-((n.log2 : Int) - 52)).toNat = 52 - n.log2 := by omega
  have hdown : ((n.log2 : Int) - 52).toNat = 0 := by omega
  have hbelow : n * 2 ^ (52 - n.log2) < 2 ^ 53 := by
    calc n * 2 ^ (52 - n.log2) < 2 ^ (n.log2 + 1) * 2 ^ (52 - n.log2) :=
          Nat.mul_lt_mul_of_pos_right Nat.lt_log2_self (Nat.two_pow_pos _)
      _ = 2 ^ 53 := by
          rw [← Nat.pow_add]
          congr 1
          omega
  have hexact : roundDiv (n * 2 ^ (52 - n.log2)) 1 = n * 2 ^ (52 - n.log2) := by
    simpa using roundDiv_exact Nat.one_pos (n * 2 ^ (52 - n.log2))
  unfold ofNat ofRatio
  rw [if_neg (by omega)]
  simp only [leadingExponent_whole hn, inUnits, hup, hdown, Nat.pow_zero, Nat.mul_one, hexact]
  exact if_neg hbelow.ne

/-- Of a longer number the mantissa counts how often the spacing goes into it. -/
theorem ofNat_large (hlog : 52 ≤ n.log2) :
    (ofNat n).num = nearest n ∧ (ofNat n).den = 1 := by
  have hn : n ≠ 0 := by
    rintro rfl
    exact absurd hlog (by decide)
  have hup : (-((n.log2 : Int) - 52)).toNat = 0 := by omega
  have hdown : ((n.log2 : Int) - 52).toNat = n.log2 - 52 := by omega
  have hspacing : spacing n = 2 ^ (n.log2 - 52) := rfl
  unfold ofNat ofRatio
  rw [if_neg (by omega)]
  simp only [leadingExponent_whole hn, inUnits, hup, hdown, Nat.pow_zero, Nat.mul_one, Nat.one_mul,
    ← hspacing]
  split
  case isTrue hcarry =>
    have hnext : ((n.log2 : Int) - 52 + 1).toNat = n.log2 - 52 + 1 := by omega
    have hnext' : (-((n.log2 : Int) - 52 + 1)).toNat = 0 := by omega
    rw [num, den, hnext, hnext', nearest, hcarry, hspacing, Nat.pow_succ]
    refine ⟨?_, rfl⟩
    rw [precision]
    ring
  case isFalse =>
    rw [num, den, hup, hdown, nearest, ← hspacing]
    exact ⟨Nat.mul_comm _ _, rfl⟩

/-- A whole number is rounded to the nearest double. -/
theorem num_ofNat (n : Nat) : (ofNat n).num = nearest n * (ofNat n).den := by
  by_cases hn : n = 0
  · subst hn
    rfl
  rcases Nat.le_total n.log2 52 with hsmall | hlarge
  · have hdown : ((n.log2 : Int) - 52).toNat = 0 := by omega
    have hup : (-((n.log2 : Int) - 52)).toNat = 52 - n.log2 := by omega
    have hbits : n < 2 ^ 53 := (Nat.log2_lt hn).1 (Nat.lt_succ_of_le hsmall)
    rw [ofNat_small hn hsmall, num, den, hdown, hup, nearest_of_lt hbits, Nat.pow_zero, Nat.mul_one]
  · obtain ⟨hnum, hden⟩ := ofNat_large hlarge
    rw [hnum, hden, Nat.mul_one]

end Magnitude

end Decimal

end FramedStream
