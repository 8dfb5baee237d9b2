import FramedStream.Decimal.Rounding

/-!
# Numbers in double precision

Ratios and rates are computed in double precision: every result is rounded to 53 significant bits,
a half to the even neighbour. A `Magnitude` is such a number without its sign, held exactly as
`mantissa * 2 ^ exponent`, and `Binary64.ofBits` reads a number off its 64 bits.

The exponents of magnitudes are not bounded. Where a double would overflow or lose bits below its
least exponent, the numbers computed here are of no use to anyone but `toNat`, which is the same
for all of them that are too large to count and for all below 1.
-/

namespace FramedStream

namespace Decimal

/-- The number `mantissa * 2 ^ exponent`. -/
structure Magnitude where
  mantissa : Nat
  exponent : Int
  deriving DecidableEq, Repr

namespace Magnitude

/-- The significant bits of a rounded number. -/
def precision : Nat := 53

/-- The number as a fraction: its numerator. -/
def num (x : Magnitude) : Nat := x.mantissa * 2 ^ x.exponent.toNat

/-- The number as a fraction: its denominator, a power of two. -/
def den (x : Magnitude) : Nat := 2 ^ (-x.exponent).toNat

/-- The fraction `num / den` in units of `2 ^ exponent`, as a fraction again. -/
def inUnits (num den : Nat) (exponent : Int) : Nat × Nat :=
  (num * 2 ^ (-exponent).toNat, den * 2 ^ exponent.toNat)

/-- The exponent that leaves a fraction with `precision` bits before the point. -/
def leadingExponent (num den : Nat) : Int :=
  let guess : Int := num.log2 - den.log2 - (precision - 1 : Nat)
  let (n, d) := inUnits num den guess
  if n < d * 2 ^ (precision - 1) then guess - 1 else guess

/-- The nearest number to a fraction. A mantissa that rounds up to the next power of two is
halved, so that it keeps `precision` bits. -/
def ofRatio (num den : Nat) : Magnitude :=
  if num = 0 ∨ den = 0 then ⟨0, 0⟩
  else
    let exponent := leadingExponent num den
    let (n, d) := inUnits num den exponent
    let mantissa := roundDiv n d
    if mantissa = 2 ^ precision then ⟨2 ^ (precision - 1), exponent + 1⟩
    else ⟨mantissa, exponent⟩

/-- The nearest number to a whole number. -/
def ofNat (n : Nat) : Magnitude := ofRatio n 1

/-- The rounded quotient of two numbers. -/
def div (x y : Magnitude) : Magnitude :=
  ofRatio (x.num * y.den) (x.den * y.num)

/-- The whole part of a number. -/
def toNat (x : Magnitude) : Nat := x.num / x.den

/-- The number with some places after the point. -/
def toFixed (places : Nat) (x : Magnitude) : String := fixed places x.num x.den

theorem den_pos (x : Magnitude) : 0 < x.den := Nat.two_pow_pos _

end Magnitude

/-- A number in double precision. -/
inductive Binary64
  | nan
  | infinite (negative : Bool)
  | finite (negative : Bool) (magnitude : Magnitude)
  deriving DecidableEq, Repr

namespace Binary64

/-- The number that 64 bits stand for: a sign, eleven bits of exponent, and 52 of the mantissa,
whose leading bit is implied unless the exponent is the least. -/
def ofBits (bits : UInt64) : Binary64 :=
  let negative := bits.toNat / 2 ^ 63 == 1
  let field : Nat := bits.toNat / 2 ^ 52 % 2 ^ 11
  let fraction : Nat := bits.toNat % 2 ^ 52
  if field = 2047 then
    if fraction = 0 then .infinite negative else .nan
  else if field = 0 then .finite negative ⟨fraction, -1074⟩
  else .finite negative ⟨2 ^ 52 + fraction, (field : Int) - 1075⟩

end Binary64

end Decimal

end FramedStream
