import FramedStream.Text.Lines

/-!
# Rounding to the nearest

A quotient is rounded to the nearest whole number, and a half goes to the even neighbour.

* `roundDiv_near`: the result is within a half of the quotient;
* `roundDiv_even`: if it is exactly a half away, it is even.

`fixed` writes a quotient with a given number of places by this rule.
-/

namespace FramedStream

namespace Decimal

/-- The whole number nearest to `num / den`; a half goes to the even neighbour. -/
def roundDiv (num den : Nat) : Nat :=
  let lower := num / den
  let twice := 2 * (num % den)
  if twice < den ∨ (twice = den ∧ lower % 2 = 0) then lower else lower + 1

theorem roundDiv_near (num : Nat) {den : Nat} (hden : 0 < den) :
    2 * (den * roundDiv num den) ≤ 2 * num + den ∧
      2 * num ≤ 2 * (den * roundDiv num den) + den := by
  have hsplit := Nat.div_add_mod num den
  have hlt := Nat.mod_lt num hden
  unfold roundDiv
  simp only
  split
  · omega
  · rw [Nat.mul_succ]
    omega

theorem roundDiv_even (num : Nat) {den : Nat} (hden : 0 < den)
    (htie : 2 * (den * roundDiv num den) = 2 * num + den ∨
      2 * num = 2 * (den * roundDiv num den) + den) :
    roundDiv num den % 2 = 0 := by
  have hsplit := Nat.div_add_mod num den
  have hlt := Nat.mod_lt num hden
  revert htie
  unfold roundDiv
  simp only
  split
  · omega
  · rw [Nat.mul_succ]
    omega

/-- The quotient `num / den` with some places after the point. -/
def fixed (places num den : Nat) : String :=
  let scaled := roundDiv (num * 10 ^ places) den
  s!"{scaled / 10 ^ places}.{Text.decimal places (scaled % 10 ^ places)}"

end Decimal

end FramedStream
