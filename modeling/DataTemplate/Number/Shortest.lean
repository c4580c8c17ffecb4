/-
The shortest decimal that reads back as a given double-precision value: of the decimals in the
interval that rounds to the value, one with the fewest digits, and of those the nearest.
-/
import DataTemplate.Number.Scaled

namespace DataTemplate

/-- An open or closed interval of quotients with one denominator, around a value. -/
structure RoundingInterval where
  low : Nat
  value : Nat
  high : Nat
  den : Nat
  closed : Bool
deriving Repr

namespace RoundingInterval

/-- The numbers that round to `significand * 2 ^ exponent`: halfway to the neighbours, ends
included for an even significand.  Below a power of two the neighbour is half as far. -/
def around (significand : Nat) (exponent : Int) : RoundingInterval :=
  let scale := Nat.pow 2 (exponent - 2).toNat
  let lowest := significand == Binary64.leastFull && Binary64.leastExponent < exponent
  let below := if lowest then 1 else 2
  { low := (4 * significand - below) * scale
    value := 4 * significand * scale
    high := (4 * significand + 2) * scale
    den := Nat.pow 2 (2 - exponent).toNat
    closed := significand % 2 == 0 }

/-- The same interval in units of `10 ^ power`. -/
def inUnits (interval : RoundingInterval) (power : Int) : RoundingInterval :=
  let up := Nat.pow 10 (-power).toNat
  { interval with
    low := interval.low * up
    value := interval.value * up
    high := interval.high * up
    den := interval.den * Nat.pow 10 power.toNat }

/-- Whether an integer lies in the interval. -/
def holds (interval : RoundingInterval) (n : Nat) : Bool :=
  let scaled := n * interval.den
  if interval.closed then interval.low ≤ scaled && scaled ≤ interval.high
  else interval.low < scaled && scaled < interval.high

/-- The integer of the interval that is nearest to its value, if the interval holds one of the two
next to the value; a tie goes to the even one. -/
def nearestInteger? (interval : RoundingInterval) : Option Nat :=
  let below := interval.value / interval.den
  let above := below + 1
  match interval.holds below, interval.holds above with
  | true, true => some (roundQuotient interval.value interval.den)
  | true, false => some below
  | false, true => some above
  | false, false => none

/-- The number of decimal digits in front of the point; less than one for a value below one tenth,
by the zeros after the point. -/
def wholeDigits (interval : RoundingInterval) : Int :=
  let whole := interval.value / interval.den
  if 0 < whole then (Nat.toDigits 10 whole).length
  else
    let zeros := (List.range 400).find? fun k => interval.den ≤ interval.value * Nat.pow 10 k
    1 - (zeros.getD 0 : Int)

end RoundingInterval

/-- The value `significand * 2 ^ exponent` itself as a decimal. -/
def exactDecimal (significand : Nat) (exponent : Int) : ScaledDecimal :=
  ⟨significand * Nat.pow 2 exponent.toNat * Nat.pow 5 (-exponent).toNat, min exponent 0⟩

/-- The shortest decimal that rounds to `significand * 2 ^ exponent`, for a positive significand.
Seventeen digits always suffice; with more, the exact decimal would stand in. -/
def shortestDecimal (significand : Nat) (exponent : Int) : ScaledDecimal :=
  let interval := RoundingInterval.around significand exponent
  let whole := interval.wholeDigits
  let found := (List.range 17).findSome? fun (n : Nat) =>
    let power := whole - (n + 1)
    ((interval.inUnits power).nearestInteger?).map fun digits => ScaledDecimal.mk digits power
  found.getD (exactDecimal significand exponent)

example : shortestDecimal 1 (-1074) = ⟨5, -324⟩ := by decide +kernel
example : shortestDecimal (2 ^ 52) (-52) = ⟨1, 0⟩ := by decide +kernel
example : shortestDecimal 0x1999999999999a (-56) = ⟨1, -1⟩ := by decide +kernel

end DataTemplate
