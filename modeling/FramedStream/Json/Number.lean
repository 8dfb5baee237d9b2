import FramedStream.Decimal.Shortest
import FramedStream.Json.Value

/-!
# Double precision numbers in JSON

A number is written with the fewest digits that read back as it: positional if its point stands
at most sixteen places to the right of the first digit and at most four zeros to the left, with
an exponent otherwise. A whole number that is written positionally keeps one zero after its
point.
-/

namespace FramedStream

namespace Json

/-- The most digits in front of the point. -/
def mostWholeDigits : Int := 16

/-- The most zeros between the point and the first digit. -/
def mostLeadingZeros : Int := 4

/-- Some zeros. -/
def zeros (count : Int) : List Char := List.replicate count.toNat '0'

/-- The literal of some digits, without needless zeros at their end, times a power of ten. -/
def positional (digits : List Char) (exponent : Int) : List Char :=
  let point := digits.length + exponent
  if 0 ≤ exponent ∧ point ≤ mostWholeDigits then digits ++ zeros exponent ++ ['.', '0']
  else if 0 < point ∧ point ≤ mostWholeDigits then
    digits.take point.toNat ++ '.' :: digits.drop point.toNat
  else if point ≤ 0 ∧ -point ≤ mostLeadingZeros then '0' :: '.' :: zeros (-point) ++ digits
  else
    (if digits.length = 1 then digits else digits.take 1 ++ '.' :: digits.drop 1) ++
      'e' :: (toString (point - 1)).toList

/-- The literal of a number. -/
def literal (x : Decimal.Magnitude) : String :=
  let s := x.shortest
  String.ofList (positional (Nat.toDigits 10 s.digits) s.exponent)

/-- A number in double precision as a value. -/
def Value.magnitude (x : Decimal.Magnitude) : Value := .number (literal x)

end Json

end FramedStream
