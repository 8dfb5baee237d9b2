import Mathlib
import FramedStream.Proofs.Decimal.Fraction
import FramedStream.Proofs.Decimal.Precision
import FramedStream.Quantity

/-!
# What sizes say

A size in words is a number and a unit, so it can be read back as an amount of bytes: `read?` takes
a number, a blank and one of the five units.

* `size_of_lt`, `size_of_le`: a size is the number of bytes below 1024, and above it so many
  hundredths of the power of 1024 that `power` gives;
* `read?_size`: what is read back from a size is `amount`;
* `isGreatest_power`, `amount_near`: the power is the largest there is one of, and the number is
  right but for its two roundings;
* `amount_mono`: the amounts are in the order of the sizes, also where the unit changes;
* `number_lt_iff`: there are fewer than 1024 of a unit before the last, unless the size is within
  half a hundredth of the next unit and is rounded up to it;
* `sizes_have_one_form`: two texts say the same only where one of them is such a 1024 of a unit and
  the other is one of the next.
-/

namespace FramedStream

namespace Quantity

open Decimal

/-- A size as it is written: a number of units, and the unit as a power of 1024 bytes. -/
structure Amount where
  number : ℚ
  power : Nat
  deriving DecidableEq

/-- An amount in bytes. -/
def Amount.bytes (a : Amount) : ℚ := a.number * 1024 ^ a.power

/-- The power of 1024 that a unit stands for. -/
def powerOf? : (unit : List Char) → Option Nat
  | ['B'] => some 0
  | ['K', 'B'] => some 1
  | ['M', 'B'] => some 2
  | ['G', 'B'] => some 3
  | ['T', 'B'] => some 4
  | _ => none

/-- The amount that a text says. -/
def read? (text : String) : Option Amount :=
  match text.toList.span (· ≠ ' ') with
  | (_, []) => none
  | (number, _ :: unit) => do
      let number ← fractionOf? number
      let power ← powerOf? unit
      some ⟨number, power⟩

/-! ### Units -/

/-- The unit of a size: the largest power of 1024 there is one of, as far as there are units. -/
def power (n : Nat) : Nat := min 4 (Nat.log 1024 n)

theorem power_le (n : Nat) : power n ≤ 4 := Nat.min_le_left _ _

theorem power_eq_zero_iff {n : Nat} : power n = 0 ↔ n < 1024 := by
  rw [power, Nat.min_eq_zero_iff, Nat.log_eq_zero_iff]
  omega

theorem pow_power_le {n : Nat} (hn : n ≠ 0) : 1024 ^ power n ≤ n :=
  Nat.pow_le_of_le_log hn (Nat.min_le_right _ _)

theorem power_mono {n k : Nat} (h : n ≤ k) : power n ≤ power k :=
  min_le_min_left 4 (Nat.log_mono_right h)

theorem lt_pow_power {n : Nat} (h : power n < 4) : n < 1024 ^ (power n + 1) := by
  have hlog : power n = Nat.log 1024 n := by
    rw [power] at h ⊢
    omega
  rw [hlog]
  exact Nat.lt_pow_succ_log_self (by decide) n

/-- Each unit is tried in turn, and the last one is taken where none is large enough. -/
theorem pickUnit_eq (num : Nat) {den : Nat} (hden : 0 < den) (unit : String)
    (larger : List String) :
    ∃ name, (unit :: larger)[min larger.length (Nat.log 1024 (num / den))]? = some name ∧
      pickUnit num den unit larger =
        (1024 ^ min larger.length (Nat.log 1024 (num / den)) * den, name) := by
  induction larger generalizing den unit with
  | nil => exact ⟨unit, by simp, by simp [pickUnit]⟩
  | cons next larger ih =>
    rw [pickUnit]
    split
    case isTrue hless =>
      have hlog : Nat.log 1024 (num / den) = 0 :=
        Nat.log_of_lt (Nat.div_lt_of_lt_mul (by rwa [Nat.mul_comm] at hless))
      exact ⟨unit, by simp [hlog], by simp [hlog]⟩
    case isFalse hmore =>
      have henough : 1024 ≤ num / den := (Nat.le_div_iff_mul_le hden).2 (Nat.not_lt.1 hmore)
      have hpositive := Nat.log_pos (b := 1024) (by decide) henough
      have hlog : Nat.log 1024 (num / (1024 * den)) + 1 = Nat.log 1024 (num / den) := by
        rw [Nat.mul_comm, ← Nat.div_div_eq_div_mul, Nat.log_div_base]
        omega
      have hmin : min (next :: larger).length (Nat.log 1024 (num / den)) =
          min larger.length (Nat.log 1024 (num / (1024 * den))) + 1 := by
        rw [List.length_cons]
        omega
      have hden' : 0 < 1024 * den := Nat.mul_pos (by decide) hden
      obtain ⟨name, hname, hpick⟩ := ih hden' next
      refine ⟨name, by rw [hmin, List.getElem?_cons_succ, hname], ?_⟩
      rw [hpick, hmin, Nat.pow_succ, Nat.mul_assoc]

/-! ### Texts -/

/-- The unit is picked for the rounded size, but no power of 1024 is rounded, so it is that of the
size itself. -/
theorem power_nearest (n : Nat) : power (nearest n) = power n := by
  by_cases hexact : n < 2 ^ 53
  · rw [nearest_of_lt hexact]
  · have hlarge : ∀ {k : Nat}, 1024 ^ 4 ≤ k → power k = 4 := fun hk =>
      Nat.min_eq_left (Nat.le_log_of_pow_le (by decide) hk)
    have hnearest : 2 ^ 53 - 1 ≤ nearest n := by
      rw [← nearest_of_lt (n := 2 ^ 53 - 1) (by decide)]
      exact nearest_mono (by omega)
    rw [hlarge (by omega), hlarge (by omega)]

/-- A size in words before its unit is known. -/
theorem size_eq (n : Nat) :
    ∃ unit, ("B" :: units)[power n]? = some unit ∧
      size n = if unit = "B" then s!"{n} B"
        else s!"{fixed 2 (nearest n) (1024 ^ power n)} {unit}" := by
  have hden := (Magnitude.ofNat n).den_pos
  have hnum := Magnitude.num_ofNat n
  obtain ⟨unit, hunit, hpick⟩ := pickUnit_eq (Magnitude.ofNat n).num hden "B" units
  have hquotient : (Magnitude.ofNat n).num / (Magnitude.ofNat n).den = nearest n := by
    rw [hnum, Nat.mul_div_cancel _ hden]
  have hpower : min units.length (Nat.log 1024 (nearest n)) = power n := power_nearest n
  rw [hquotient, hpower] at hunit hpick
  have hfixed : fixed 2 (Magnitude.ofNat n).num (1024 ^ power n * (Magnitude.ofNat n).den) =
      fixed 2 (nearest n) (1024 ^ power n) := by
    rw [hnum, Nat.mul_comm, Nat.mul_comm (1024 ^ power n), fixed_mul_left hden]
  refine ⟨unit, hunit, ?_⟩
  simp only [size, hpick, hfixed]

theorem size_of_lt {n : Nat} (h : n < 1024) : size n = s!"{n} B" := by
  obtain ⟨unit, hunit, hsize⟩ := size_eq n
  rw [power_eq_zero_iff.2 h] at hunit
  cases hunit
  rw [hsize, if_pos rfl]

/-- The units after the first are not bytes, and each is 1024 of the one before. -/
theorem powerOf?_name {i : Nat} {unit : String} (hne : i ≠ 0)
    (hname : ("B" :: units)[i]? = some unit) : unit ≠ "B" ∧ powerOf? unit.toList = some i := by
  have hi : i < 5 := (List.getElem?_eq_some_iff.1 hname).1
  interval_cases i
  · exact absurd rfl hne
  all_goals
    cases hname
    exact ⟨by decide, by decide⟩

theorem size_of_le {n : Nat} (h : 1024 ≤ n) :
    ∃ unit : String, powerOf? unit.toList = some (power n) ∧
      size n = s!"{fixed 2 (nearest n) (1024 ^ power n)} {unit}" := by
  obtain ⟨unit, hunit, hsize⟩ := size_eq n
  have hpositive : power n ≠ 0 := by
    rw [Ne, power_eq_zero_iff]
    omega
  obtain ⟨hne, hpower⟩ := powerOf?_name hpositive hunit
  exact ⟨unit, hpower, by rw [hsize, if_neg hne]⟩

/-! ### Amounts -/

/-- The hundredths of its unit that a size is rounded to. -/
def hundredths (n : Nat) : Nat := roundDiv (nearest n * 100) (1024 ^ power n)

/-- The amount that a size says: the bytes if they are few, and else the hundredths of the unit. -/
def amount (n : Nat) : Amount :=
  if n < 1024 then ⟨n, 0⟩ else ⟨hundredths n / 100, power n⟩

/-- A number that is written without a blank, a blank and a unit. -/
theorem read?_of_toList {text : String} {number unit : List Char} {x : ℚ} {p : Nat}
    (htext : text.toList = number ++ ' ' :: unit) (hblank : ' ' ∉ number)
    (hnumber : fractionOf? number = some x) (hunit : powerOf? unit = some p) :
    read? text = some ⟨x, p⟩ := by
  have hfront : ∀ c ∈ number, decide (c ≠ ' ') = true := fun c hc =>
    decide_eq_true (ne_of_mem_of_not_mem hc hblank)
  rw [read?, htext, span_append_cons unit hfront (by decide)]
  simp only [hnumber, hunit, Option.bind_eq_bind, Option.bind_some]

theorem read?_size (n : Nat) : read? (size n) = some (amount n) := by
  have hsame : ∀ text : String, toString text = text := fun _ => rfl
  rw [amount]
  split
  case isTrue hfew =>
    have htext : (size n).toList = (toString n).toList ++ ' ' :: ['B'] := by
      have hunit : " B".toList = [' ', 'B'] := by decide
      rw [size_of_lt hfew, String.toList_append, hsame, hunit]
    have hblank : ' ' ∉ (toString n).toList := by
      rw [Nat.toString_eq_repr, Nat.toList_repr]
      intro hmem
      have hdigit := Nat.isDigit_of_mem_toDigits (by decide) (by decide) hmem
      exact absurd hdigit (by decide)
    exact read?_of_toList htext hblank (fractionOf?_repr n) rfl
  case isFalse hmany =>
    obtain ⟨unit, hunit, hsize⟩ := size_of_le (Nat.not_lt.1 hmany)
    have htext : (size n).toList =
        (fixed 2 (nearest n) (1024 ^ power n)).toList ++ ' ' :: unit.toList := by
      have hspace : " ".toList = [' '] := by decide
      simp only [hsize, String.toList_append, hsame, hspace, List.append_assoc,
        List.singleton_append]
    have hblank : ' ' ∉ (fixed 2 (nearest n) (1024 ^ power n)).toList := by
      intro hmem
      rcases isDigit_or_eq_of_mem_fixed hmem with hdigit | hpoint
      · exact absurd hdigit (by decide)
      · exact absurd hpoint (by decide)
    have hnumber : fractionOf? (fixed 2 (nearest n) (1024 ^ power n)).toList =
        some ((hundredths n : ℚ) / 100) := by
      rw [fractionOf?_fixed (by decide), hundredths]
      norm_num
    exact read?_of_toList htext hblank hnumber hunit

/-- The unit is the largest of which there is one. -/
theorem isGreatest_power {n : Nat} (h : 1024 ≤ n) :
    IsGreatest {u | u ∈ Set.Icc 1 4 ∧ 1024 ^ u ≤ n} (power n) := by
  have hpositive : power n ≠ 0 := by
    rw [Ne, power_eq_zero_iff]
    omega
  constructor
  · exact ⟨⟨Nat.one_le_iff_ne_zero.2 hpositive, power_le n⟩, pow_power_le (by omega)⟩
  · rintro u ⟨⟨-, hu⟩, hfits⟩
    exact Nat.le_min.2 ⟨hu, Nat.le_log_of_pow_le (by decide) hfits⟩

/-- Below 1024 bytes nothing is rounded, so that there too the number is one of hundredths. -/
theorem amount_eq (n : Nat) : amount n = ⟨hundredths n / 100, power n⟩ := by
  rw [amount]
  split
  case isTrue hfew =>
    have hexact : hundredths n = n * 100 := by
      have hdouble : n < 2 ^ 53 := by omega
      rw [hundredths, power_eq_zero_iff.2 hfew, nearest_of_lt hdouble, Nat.pow_zero]
      simpa using roundDiv_exact Nat.one_pos (n * 100)
    rw [hexact, power_eq_zero_iff.2 hfew]
    simp
  case isFalse => rfl

theorem bytes_amount (n : Nat) :
    (amount n).bytes = (hundredths n * 1024 ^ power n : Nat) / 100 := by
  rw [amount_eq, Amount.bytes]
  push_cast
  ring

/-- The number is right but for half a hundredth of the unit and for what 53 bits do not hold. -/
theorem amount_near {n : Nat} (hbits : n < 2 ^ 64) :
    |(amount n).bytes - n| ≤ 0.005 * 1024 ^ power n + 1024 := by
  have hunit : 0 < 1024 ^ power n := Nat.pow_pos (by decide)
  obtain ⟨hup, hdown⟩ := roundDiv_near (nearest n * 100) hunit
  obtain ⟨hup', hdown'⟩ := nearest_near n
  have hspacing := spacing_le hbits
  have habove : 2 * (hundredths n * 1024 ^ power n) ≤ 200 * n + 1024 ^ power n + 204800 := by
    rw [hundredths, Nat.mul_comm (roundDiv _ _)]
    omega
  have hbelow : 200 * n ≤ 2 * (hundredths n * 1024 ^ power n) + 1024 ^ power n + 204800 := by
    rw [hundredths, Nat.mul_comm (roundDiv _ _)]
    omega
  rw [bytes_amount, abs_le]
  have habove' : (2 : ℚ) * (hundredths n * 1024 ^ power n : Nat) ≤
      200 * n + 1024 ^ power n + 204800 := by exact_mod_cast habove
  have hbelow' : (200 : ℚ) * n ≤
      2 * (hundredths n * 1024 ^ power n : Nat) + 1024 ^ power n + 204800 := by
    exact_mod_cast hbelow
  constructor <;> linarith

/-! ### Order -/

/-- There is at least one of the unit. -/
theorem le_hundredths {n : Nat} (hn : n ≠ 0) : 100 ≤ hundredths n := by
  have hpositive : nearest n ≠ 0 := by
    have hone : nearest 1 = 1 := nearest_of_lt (by decide)
    have hle : nearest 1 ≤ nearest n := nearest_mono (Nat.one_le_iff_ne_zero.2 hn)
    omega
  have hfits := pow_power_le hpositive
  rw [power_nearest] at hfits
  exact le_roundDiv (Nat.pow_pos (by decide)) (Nat.mul_le_mul_right 100 hfits)

/-- Double precision holds every size that is written in a unit before the last. -/
theorem nearest_of_power_lt {n : Nat} (h : power n < 4) : nearest n = n := by
  have hless := lt_pow_power h
  have hlast : 1024 ^ (power n + 1) ≤ 1024 ^ 4 := Nat.pow_le_pow_right (by decide) h
  exact nearest_of_lt (by omega)

/-- There are at most 1024 of a unit that is not the last. -/
theorem hundredths_le {n : Nat} (h : power n < 4) : hundredths n ≤ 102400 := by
  have hless := lt_pow_power h
  rw [hundredths, nearest_of_power_lt h]
  apply roundDiv_le (Nat.pow_pos (by decide))
  rw [Nat.pow_succ] at hless
  omega

theorem ne_zero_of_lt_power {p k : Nat} (h : p < power k) : k ≠ 0 := by
  rintro rfl
  have hnone : power 0 = 0 := by decide
  omega

/-- Where the unit changes, all of the smaller one is still no more than one of the larger. -/
theorem amount_mono {n k : Nat} (h : n ≤ k) : (amount n).bytes ≤ (amount k).bytes := by
  have hwhole : hundredths n * 1024 ^ power n ≤ hundredths k * 1024 ^ power k := by
    rcases (power_mono h).lt_or_eq with hless | hsame
    · calc hundredths n * 1024 ^ power n ≤ 102400 * 1024 ^ power n :=
            Nat.mul_le_mul_right _ (hundredths_le (hless.trans_le (power_le k)))
        _ = 100 * 1024 ^ (power n + 1) := by rw [Nat.pow_succ]; ring
        _ ≤ 100 * 1024 ^ power k := Nat.mul_le_mul_left _ (Nat.pow_le_pow_right (by decide) hless)
        _ ≤ hundredths k * 1024 ^ power k :=
          Nat.mul_le_mul_right _ (le_hundredths (ne_zero_of_lt_power hless))
    · rw [hundredths, hundredths, hsame]
      exact Nat.mul_le_mul_right _ (roundDiv_mono _ (Nat.mul_le_mul_right 100 (nearest_mono h)))
  rw [bytes_amount, bytes_amount]
  have hcast : ((hundredths n * 1024 ^ power n : Nat) : ℚ) ≤
      (hundredths k * 1024 ^ power k : Nat) := Nat.cast_le.2 hwhole
  linarith

/-- Whoever reads a size of 64 bits gets the bytes themselves if there are fewer than 1024, and else
so many hundredths of the largest unit of which there is one, which is right within half a hundredth
of the unit and the 1024 bytes that are lost to double precision. Of two sizes the larger one never
reads as less. -/
theorem sizes_tell_amounts_in_order (n k : UInt64) :
    ∃ a b, read? (size n.toNat) = some a ∧ read? (size k.toNat) = some b ∧
      (n.toNat < 1024 → size n.toNat = s!"{n.toNat} B" ∧ a = ⟨n.toNat, 0⟩) ∧
      (1024 ≤ n.toNat → IsGreatest {u | u ∈ Set.Icc 1 4 ∧ 1024 ^ u ≤ n.toNat} a.power ∧
        (∃ hundredths : Nat, a.number = hundredths / 100) ∧
        |a.number * 1024 ^ a.power - n.toNat| ≤ 0.005 * 1024 ^ a.power + 1024) ∧
      (n ≤ k → a.bytes ≤ b.bytes) := by
  refine ⟨amount n.toNat, amount k.toNat, read?_size _, read?_size _, fun hfew => ?_,
    fun hmany => ?_, fun hle => amount_mono hle⟩
  · exact ⟨size_of_lt hfew, if_pos hfew⟩
  · have hamount : amount n.toNat = ⟨hundredths n.toNat / 100, power n.toNat⟩ :=
      if_neg (Nat.not_lt.2 hmany)
    have hnear := amount_near n.toNat_lt
    rw [Amount.bytes] at hnear
    rw [hamount] at hnear ⊢
    exact ⟨isGreatest_power hmany, ⟨_, rfl⟩, hnear⟩

example : size (2 ^ 64 - 1) = "16777216.00 TB" := by decide

/-! ### Forms -/

/-- The number falls short of the next unit if the size does so by more than half a hundredth of its
own. The unit is picked for the size, and only then is the number rounded. -/
theorem hundredths_lt_iff {n : Nat} (h : power n < 4) :
    hundredths n < 102400 ↔ 200 * n + 1024 ^ power n < 200 * 1024 ^ (power n + 1) := by
  rw [hundredths, nearest_of_power_lt h, roundDiv_lt_iff (Nat.pow_pos (by decide)) (by decide),
    Nat.pow_succ]
  omega

theorem number_lt_iff {n : Nat} (h : power n < 4) :
    (amount n).number < 1024 ↔ (n : ℚ) + 0.005 * 1024 ^ power n < 1024 ^ (power n + 1) := by
  have hnumber : (hundredths n : ℚ) < (102400 : Nat) ↔ hundredths n < 102400 := Nat.cast_lt
  have hshort : ((200 * n + 1024 ^ power n : Nat) : ℚ) < (200 * 1024 ^ (power n + 1) : Nat) ↔
      hundredths n < 102400 := by
    rw [Nat.cast_lt, hundredths_lt_iff h]
  rw [amount_eq]
  push_cast at hnumber hshort ⊢
  constructor
  · intro hless
    have hfar := hshort.2 (hnumber.1 (by linarith))
    linarith
  · intro hfar
    have hless := hnumber.2 (hshort.1 (by linarith))
    linarith

theorem number_le {n : Nat} (h : power n < 4) : (amount n).number ≤ 1024 := by
  have hcast : (hundredths n : ℚ) ≤ (102400 : Nat) := Nat.cast_le.2 (hundredths_le h)
  rw [amount_eq]
  push_cast at hcast ⊢
  linarith

theorem amount_eq_iff (n k : Nat) :
    amount n = amount k ↔ hundredths n = hundredths k ∧ power n = power k := by
  rw [amount_eq, amount_eq, Amount.mk.injEq, div_left_inj' (by norm_num), Nat.cast_inj]

/-- A size says its amount in one way. -/
theorem size_eq_iff (n k : Nat) : size n = size k ↔ amount n = amount k := by
  constructor
  · intro hsize
    have hread := read?_size n
    rw [hsize, read?_size] at hread
    exact (Option.some.inj hread).symm
  · intro hamount
    obtain ⟨hhundredths, hpower⟩ := (amount_eq_iff n k).1 hamount
    by_cases hfew : n < 1024
    · have hfew' : k < 1024 := by
        rwa [← power_eq_zero_iff, ← hpower, power_eq_zero_iff]
      rw [amount, amount, if_pos hfew, if_pos hfew', Amount.mk.injEq, Nat.cast_inj] at hamount
      rw [hamount.1]
    · obtain ⟨unit, hunit, hsize⟩ := size_eq n
      obtain ⟨unit', hunit', hsize'⟩ := size_eq k
      have hsame : unit = unit' := by
        rw [hpower, hunit'] at hunit
        exact (Option.some.inj hunit).symm
      have hne : unit ≠ "B" := (powerOf?_name (mt power_eq_zero_iff.1 hfew) hunit).1
      have hfixed : fixed 2 (nearest n) (1024 ^ power n) = fixed 2 (nearest k) (1024 ^ power k) :=
        fixed_congr hhundredths
      rw [hsize, hsize', ← hsame, if_neg hne, if_neg hne, hfixed]

/-- All of a unit, and one of the next: the same bytes in two forms. -/
def Amount.Carries (a b : Amount) : Prop := a.number = 1024 ∧ b = ⟨1, a.power + 1⟩

theorem Amount.Carries.bytes_eq {a b : Amount} (h : a.Carries b) : a.bytes = b.bytes := by
  obtain ⟨hnumber, rfl⟩ := h
  rw [Amount.bytes, Amount.bytes, hnumber, pow_succ]
  ring

theorem bytes_eq_iff (n k : Nat) :
    (amount n).bytes = (amount k).bytes ↔
      hundredths n * 1024 ^ power n = hundredths k * 1024 ^ power k := by
  rw [bytes_amount, bytes_amount, div_left_inj' (by norm_num), Nat.cast_inj]

/-- The smaller of two units gives no more bytes than one of the larger, and as many only if there
are all of it and the larger one is the next. -/
theorem carries_of_lt {n k : Nat} (h : power n < power k)
    (hbytes : (amount n).bytes = (amount k).bytes) : (amount n).Carries (amount k) := by
  have hmost : hundredths n ≤ 102400 := hundredths_le (h.trans_le (power_le k))
  have hleast : 100 ≤ hundredths k := le_hundredths (ne_zero_of_lt_power h)
  obtain ⟨d, hd⟩ := Nat.exists_eq_add_of_lt h
  have hratio : hundredths n = hundredths k * 1024 ^ (d + 1) := by
    apply Nat.eq_of_mul_eq_mul_right (Nat.pow_pos (by decide) : 0 < 1024 ^ power n)
    rw [(bytes_eq_iff n k).1 hbytes, hd]
    ring
  -- with a unit between the two, 1024 of the smaller one would be too few
  have hnext : d = 0 := by
    have hsteps : 100 * 1024 ^ (d + 1) ≤ 100 * 1024 ^ 1 :=
      (Nat.mul_le_mul_right _ hleast).trans (hratio ▸ hmost)
    have hpowers := Nat.le_of_mul_le_mul_left hsteps (by decide)
    have hexponents := (Nat.pow_le_pow_iff_right (by decide)).1 hpowers
    omega
  subst hnext
  have hfull : hundredths n = 102400 := by omega
  have hone : hundredths k = 100 := by omega
  rw [amount_eq, amount_eq, hfull, hone, hd]
  exact ⟨by norm_num, by norm_num⟩

/-- Of a unit before the last there are at most 1024, and fewer than that just if the size is
further than half a hundredth from the next unit. Two sizes that read as the same bytes have the
same text, unless one says all of a unit and the other says one of the next. -/
theorem sizes_have_one_form (n k : UInt64) :
    ∃ a b, read? (size n.toNat) = some a ∧ read? (size k.toNat) = some b ∧
      (a.power < 4 → a.number ≤ 1024 ∧
        (a.number < 1024 ↔
          (n.toNat : ℚ) + 0.005 * 1024 ^ a.power < 1024 ^ (a.power + 1))) ∧
      (a.bytes = b.bytes ↔
        size n.toNat = size k.toNat ∨ a.Carries b ∨ b.Carries a) := by
  refine ⟨amount n.toNat, amount k.toNat, read?_size _, read?_size _, fun hunit => ?_, ?_, ?_⟩
  · rw [amount_eq] at hunit
    refine ⟨number_le hunit, ?_⟩
    rw [number_lt_iff hunit, amount_eq]
  · intro hbytes
    rcases Nat.lt_trichotomy (power n.toNat) (power k.toNat) with hless | hsame | hmore
    · exact .inr (.inl (carries_of_lt hless hbytes))
    · have hwhole := (bytes_eq_iff _ _).1 hbytes
      rw [hsame] at hwhole
      have hhundredths := Nat.eq_of_mul_eq_mul_right (Nat.pow_pos (by decide)) hwhole
      exact .inl ((size_eq_iff _ _).2 ((amount_eq_iff _ _).2 ⟨hhundredths, hsame⟩))
    · exact .inr (.inr (carries_of_lt hmore hbytes.symm))
  · rintro (hsize | hcarries | hcarries)
    · rw [(size_eq_iff _ _).1 hsize]
    · exact hcarries.bytes_eq
    · exact hcarries.bytes_eq.symm

example : size (2 ^ 20 - 6) = "1023.99 KB" ∧ size (2 ^ 20 - 5) = "1024.00 KB" := by decide

/-- The last size in kilobytes is rounded to all of them, which is also what one megabyte is. -/
theorem megabyte_has_two_forms :
    size (1048575 : UInt64).toNat = "1024.00 KB" ∧ size (1048576 : UInt64).toNat = "1.00 MB" ∧
      ∃ a b, read? (size (1048575 : UInt64).toNat) = some a ∧
        read? (size (1048576 : UInt64).toNat) = some b ∧
        a.power < 4 ∧ ¬ a.number < 1024 ∧ a.bytes = b.bytes := by
  have hlast : amount (1048575 : UInt64).toNat = ⟨1024, 1⟩ := by
    have hhundredths : hundredths (1048575 : UInt64).toNat = 102400 := by decide
    have hpower : power (1048575 : UInt64).toNat = 1 := by decide
    rw [amount_eq, hhundredths, hpower]
    norm_num
  have hfirst : amount (1048576 : UInt64).toNat = ⟨1, 2⟩ := by
    have hhundredths : hundredths (1048576 : UInt64).toNat = 100 := by decide
    have hpower : power (1048576 : UInt64).toNat = 2 := by decide
    rw [amount_eq, hhundredths, hpower]
    norm_num
  refine ⟨by decide, by decide, ⟨1024, 1⟩, ⟨1, 2⟩, ?_, ?_, by decide, lt_irrefl _, ?_⟩
  · rw [read?_size, hlast]
  · rw [read?_size, hfirst]
  · exact Amount.Carries.bytes_eq ⟨rfl, rfl⟩

end Quantity

end FramedStream
