import FramedStream.Decimal.Binary64

/-!
# The shortest decimal that reads back

A number in double precision stands for all reals that round to it. `shortest` gives, of the
decimals among these with the fewest digits, the one nearest to the number.

Decimals with a fixed number of digits form a grid, and if any point of the grid rounds to the
number, so does one of its two neighbours on the grid. So two candidates are looked at for each
count of digits; seventeen digits are always enough.
-/

namespace FramedStream

namespace Decimal

/-- The decimal `digits * 10 ^ exponent`. -/
structure Scientific where
  digits : Nat
  exponent : Int
  deriving DecidableEq, Repr

namespace Magnitude

/-- Whether `num / den` rounds to a number of `precision` bits. The reals that do lie within half
a unit of the mantissa, or a quarter below a power of two, where the neighbour is nearer; the ends
belong to an even mantissa. -/
def readsBack (x : Magnitude) (num den : Nat) : Bool :=
  let (n, d) := inUnits num den x.exponent
  let lower := if x.mantissa = 2 ^ (precision - 1) then 4 * x.mantissa - 1 else 4 * x.mantissa - 2
  let upper := 4 * x.mantissa + 2
  if x.mantissa % 2 = 0 then lower * d ≤ 4 * n && 4 * n ≤ upper * d
  else lower * d < 4 * n && 4 * n < upper * d

/-- The fraction `num / den` in units of `10 ^ exponent`, as a fraction again. -/
def inDecimalUnits (num den : Nat) (exponent : Int) : Nat × Nat :=
  (num * 10 ^ (-exponent).toNat, den * 10 ^ exponent.toNat)

/-- The digits before the point of a whole number that is not zero. -/
def countDigits (n : Nat) : Nat := (Nat.toDigits 10 n).length

/-- The place of the leading digit of a number: it is at least `10 ^ (leadingPlace - 1)` and less
than `10 ^ leadingPlace`. -/
def leadingPlace (x : Magnitude) : Int :=
  if x.den ≤ x.num then countDigits (x.num / x.den)
  else 1 - countDigits ((x.den - 1) / x.num)

/-- The nearest point of the grid `10 ^ exponent` that reads back as the number, of the two
neighbours of the number. -/
def onGrid? (x : Magnitude) (exponent : Int) : Option Nat :=
  let (n, d) := inDecimalUnits x.num x.den exponent
  let accepts (digits : Nat) : Bool :=
    x.readsBack (digits * 10 ^ exponent.toNat) (10 ^ (-exponent).toNat)
  let lower := n / d
  let nearest := roundDiv n d
  let other := if nearest = lower then lower + 1 else lower
  if accepts nearest then some nearest else if accepts other then some other else none

/-- The shortest decimal on a grid with at least `17 - spare` digits. -/
def shortestFrom (x : Magnitude) (place : Int) : (spare : Nat) → Scientific
  | 0 =>
      let exponent := place - 17
      let (n, d) := inDecimalUnits x.num x.den exponent
      ⟨roundDiv n d, exponent⟩
  | spare + 1 =>
      let exponent := place - (17 - (spare + 1) : Nat)
      match x.onGrid? exponent with
      | some digits => ⟨digits, exponent⟩
      | none => shortestFrom x place spare

/-- The decimal without trailing zeros. -/
def trimZeros : (fuel : Nat) → Scientific → Scientific
  | 0, s => s
  | fuel + 1, s =>
      if s.digits ≠ 0 ∧ s.digits % 10 = 0 then trimZeros fuel ⟨s.digits / 10, s.exponent + 1⟩
      else s

/-- The decimal with the fewest digits that reads back as the number, and of several the nearest
one. Zero is `0`. -/
def shortest (x : Magnitude) : Scientific :=
  if x.mantissa = 0 then ⟨0, 0⟩
  else trimZeros 17 (x.shortestFrom x.leadingPlace 16)

end Magnitude

end Decimal

end FramedStream
