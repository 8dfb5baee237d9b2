/-!
# Numbers from digits

A whole number is read from decimal digits, at least one of them and nothing else.
-/

namespace FramedStream

namespace Decimal

/-- The number whose digits these are, from the one of the digits before them. -/
def ofDigitsFrom (n : Nat) : List Char → Option Nat
  | [] => some n
  | c :: cs =>
      if '0' ≤ c ∧ c ≤ '9' then ofDigitsFrom (10 * n + (c.toNat - '0'.toNat)) cs else none

/-- The number whose digits these are. -/
def ofDigits? : List Char → Option Nat
  | [] => none
  | cs => ofDigitsFrom 0 cs

/-- A number that may have a plus sign. -/
def natOf? : List Char → Option Nat
  | '+' :: cs => ofDigits? cs
  | cs => ofDigits? cs

/-- A number that may have a sign. -/
def intOf? : List Char → Option Int
  | '-' :: cs => (ofDigits? cs).map fun n => -(n : Int)
  | cs => (natOf? cs).map Int.ofNat

end Decimal

end FramedStream
