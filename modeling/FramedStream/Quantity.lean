import FramedStream.Decimal.Binary64

/-!
# Sizes and rates for people

A size is written in the largest unit of which there is at least one: whole bytes below 1024, two
places above. Each unit is 1024 of the one before, and beyond the last unit numbers just grow.

The arithmetic is in double precision, so a size of more than 53 bits is rounded before it is
written.
-/

namespace FramedStream

namespace Quantity

open Decimal

/-- The units of 1024 bytes, 1024 of these, and so on. -/
def units : List String := ["KB", "MB", "GB", "TB"]

/-- The largest of some units of which there is at least one in `num / den` of the first, with
the denominator that goes with it. -/
def pickUnit (num den : Nat) (unit : String) : (larger : List String) → Nat × String
  | [] => (den, unit)
  | next :: larger =>
      if num < 1024 * den then (den, unit) else pickUnit num (1024 * den) next larger

/-- A size in words. -/
def size (bytes : Nat) : String :=
  let x := Magnitude.ofNat bytes
  match pickUnit x.num x.den "B" units with
  | (den, unit) =>
      if unit = "B" then s!"{bytes} B" else s!"{fixed 2 x.num den} {unit}"

/-- The largest count of bytes. -/
def maxCount : Nat := 2 ^ 64 - 1

/-- A whole number of bytes per second, as far as it can be counted. -/
def rateOf (bytes : Nat) (seconds : Magnitude) : Nat :=
  min maxCount ((Magnitude.ofNat bytes).div seconds).toNat

/-- A rate in words. There is none unless time has passed, and none to speak of if nobody knows
how much. -/
def rate (bytes : Nat) : (seconds : Binary64) → String
  | .nan => s!"{size 0}/s"
  | .infinite true => "n/a"
  | .infinite false => s!"{size 0}/s"
  | .finite negative seconds =>
      if negative ∨ seconds.mantissa = 0 then "n/a" else s!"{size (rateOf bytes seconds)}/s"

end Quantity

end FramedStream
