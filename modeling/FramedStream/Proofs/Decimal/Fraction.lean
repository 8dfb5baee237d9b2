import FramedStream.Decimal.Digits
import FramedStream.Decimal.Rounding
import Mathlib.Data.List.TakeWhile
import Mathlib.Data.Rat.Cast.Order
import Mathlib.Tactic.FieldSimp
import Mathlib.Tactic.Ring

/-!
# Decimals read back

`fractionOf?` reads a number that may have places behind a point. What `fixed` writes is read back
as the rounded quotient, with just the places that were asked for (`fractionOf?_fixed`), and what a
whole number is written as is read back as that number (`fractionOf?_repr`).
-/

namespace FramedStream

namespace Decimal

/-- The number that is written, with or without places behind a point. -/
def fractionOf? (cs : List Char) : Option ℚ :=
  match cs.span (· ≠ '.') with
  | (whole, []) => (ofDigits? whole).map Nat.cast
  | (whole, _ :: places) => do
      let n ← ofDigits? whole
      let m ← ofDigits? places
      some ((n : ℚ) + m / 10 ^ places.length)

/-! ### Digits -/

theorem isDigit_iff (c : Char) : c.isDigit = true ↔ '0' ≤ c ∧ c ≤ '9' := by
  simp only [Char.isDigit, Bool.and_eq_true, decide_eq_true_eq]
  rfl

theorem ofDigitsFrom_of_isDigit (n : Nat) {cs : List Char} (h : ∀ c ∈ cs, c.isDigit = true) :
    ofDigitsFrom n cs = some (Nat.ofDigitChars 10 cs n) := by
  induction cs generalizing n with
  | nil => rfl
  | cons c cs ih =>
    have hc := (isDigit_iff c).1 (h c List.mem_cons_self)
    rw [ofDigitsFrom, if_pos hc, Nat.ofDigitChars_cons]
    exact ih _ fun d hd => h d (List.mem_cons_of_mem c hd)

theorem ofDigits?_of_isDigit {cs : List Char} (hne : cs ≠ []) (h : ∀ c ∈ cs, c.isDigit = true) :
    ofDigits? cs = some (Nat.ofDigitChars 10 cs 0) := by
  cases cs with
  | nil => exact absurd rfl hne
  | cons c cs => exact ofDigitsFrom_of_isDigit 0 h

/-- The digits of a number, after as many zeros as its width asks for. -/
theorem toList_decimal (width n : Nat) :
    (Text.decimal width n).toList =
      List.replicate (width - (Nat.toDigits 10 n).length) '0' ++ Nat.toDigits 10 n := by
  rw [Text.decimal, Text.padLeft, String.toList_append, String.toList_ofList, Nat.toString_eq_repr,
    Nat.toList_repr, Nat.repr_eq_ofList_toDigits, String.length_ofList]

theorem isDigit_of_mem_decimal {width n : Nat} {c : Char}
    (h : c ∈ (Text.decimal width n).toList) : c.isDigit = true := by
  rw [toList_decimal, List.mem_append] at h
  rcases h with hzero | hdigit
  · rw [(List.mem_replicate.1 hzero).2]
    rfl
  · exact Nat.isDigit_of_mem_toDigits (by decide) (by decide) hdigit

theorem ofDigits?_toDigits (n : Nat) : ofDigits? (Nat.toDigits 10 n) = some n := by
  have hne : Nat.toDigits 10 n ≠ [] := List.length_pos_iff.1 Nat.length_toDigits_pos
  rw [ofDigits?_of_isDigit hne fun c hc => Nat.isDigit_of_mem_toDigits (by decide) (by decide) hc,
    Nat.ofDigitChars_ten_toDigits]

/-- Zeros in front do not count. -/
theorem ofDigits?_decimal (width n : Nat) : ofDigits? (Text.decimal width n).toList = some n := by
  have hne : (Text.decimal width n).toList ≠ [] := by
    rw [toList_decimal]
    exact List.append_ne_nil_of_right_ne_nil _ (List.length_pos_iff.1 Nat.length_toDigits_pos)
  rw [ofDigits?_of_isDigit hne fun c hc => isDigit_of_mem_decimal hc, toList_decimal,
    Nat.ofDigitChars_append, Nat.ofDigitChars_replicate_zero, Nat.mul_zero,
    Nat.ofDigitChars_ten_toDigits]

theorem length_decimal {width n : Nat} (hwidth : 0 < width) (h : n < 10 ^ width) :
    (Text.decimal width n).toList.length = width := by
  have hdigits := (Nat.length_toDigits_le_iff (b := 10) (by decide) hwidth).2 h
  rw [toList_decimal, List.length_append, List.length_replicate, Nat.sub_add_cancel hdigits]

/-! ### Numbers -/

theorem span_append_cons {α : Type} {p : α → Bool} {front : List α} {a : α} (rest : List α)
    (hfront : ∀ b ∈ front, p b = true) (ha : p a = false) :
    (front ++ a :: rest).span p = (front, a :: rest) := by
  rw [List.span_eq_takeWhile_dropWhile, List.takeWhile_append_of_pos hfront,
    List.dropWhile_append_of_pos hfront]
  simp [ha]

theorem ne_of_isDigit {c d : Char} (hc : c.isDigit = true) (hd : d.isDigit = false) :
    decide (c ≠ d) = true := by
  rw [decide_eq_true_eq]
  rintro rfl
  rw [hc] at hd
  cases hd

theorem fractionOf?_repr (n : Nat) : fractionOf? (toString n).toList = some (n : ℚ) := by
  have hdigits : ∀ c ∈ Nat.toDigits 10 n, decide (c ≠ '.') = true := fun c hc =>
    ne_of_isDigit (Nat.isDigit_of_mem_toDigits (by decide) (by decide) hc) (by decide)
  have hspan : (Nat.toDigits 10 n).span (· ≠ '.') = (Nat.toDigits 10 n, []) := by
    rw [List.span_eq_takeWhile_dropWhile, List.takeWhile_eq_self_iff.2 hdigits,
      List.dropWhile_eq_nil_iff.2 hdigits]
  rw [Nat.toString_eq_repr, Nat.toList_repr, fractionOf?, hspan]
  simp only [ofDigits?_toDigits, Option.map_some]

theorem toList_fixed (places num den : Nat) :
    (fixed places num den).toList =
      Nat.toDigits 10 (roundDiv (num * 10 ^ places) den / 10 ^ places) ++
        '.' :: (Text.decimal places (roundDiv (num * 10 ^ places) den % 10 ^ places)).toList := by
  have htext : ∀ text : String, toString text = text := fun _ => rfl
  have hpoint : ".".toList = ['.'] := by decide
  simp only [fixed, String.toList_append, htext, Nat.toString_eq_repr, Nat.toList_repr, hpoint,
    List.append_assoc, List.singleton_append]

/-- Quotients with some places are written with digits and a point. -/
theorem isDigit_or_eq_of_mem_fixed {places num den : Nat} {c : Char}
    (h : c ∈ (fixed places num den).toList) : c.isDigit = true ∨ c = '.' := by
  rw [toList_fixed, List.mem_append, List.mem_cons] at h
  rcases h with hwhole | hpoint | hplaces
  · exact .inl (Nat.isDigit_of_mem_toDigits (by decide) (by decide) hwhole)
  · exact .inr hpoint
  · exact .inl (isDigit_of_mem_decimal hplaces)

/-- A quotient with some places is read back as it was rounded. -/
theorem fractionOf?_fixed {places : Nat} (hplaces : 0 < places) (num den : Nat) :
    fractionOf? (fixed places num den).toList =
      some ((roundDiv (num * 10 ^ places) den : ℚ) / 10 ^ places) := by
  rw [toList_fixed]
  generalize roundDiv (num * 10 ^ places) den = scaled
  have hwhole : ∀ c ∈ Nat.toDigits 10 (scaled / 10 ^ places), decide (c ≠ '.') = true := fun c hc =>
    ne_of_isDigit (Nat.isDigit_of_mem_toDigits (by decide) (by decide) hc) (by decide)
  have hlength : (Text.decimal places (scaled % 10 ^ places)).toList.length = places :=
    length_decimal hplaces (Nat.mod_lt _ (Nat.pow_pos (by decide)))
  have hsplit :
      ((10 ^ places * (scaled / 10 ^ places) + scaled % 10 ^ places : Nat) : ℚ) = scaled :=
    congrArg Nat.cast (Nat.div_add_mod scaled (10 ^ places))
  have hpower : (10 : ℚ) ^ places ≠ 0 := pow_ne_zero _ (by norm_num)
  rw [fractionOf?, span_append_cons _ hwhole (by decide)]
  simp only [ofDigits?_toDigits, ofDigits?_decimal, hlength, Option.bind_eq_bind, Option.bind_some,
    Option.some.injEq]
  rw [← hsplit]
  push_cast
  field_simp

end Decimal

end FramedStream
