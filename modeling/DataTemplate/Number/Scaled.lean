/-
Decimals as digits times a power of ten, and which of them are in range of double precision for a
reader that takes the quick way: it keeps the digits that a 64-bit word has room for, and rounds
the digits, the power of ten and their product one after the other.
-/
import DataTemplate.Number.Numeral

namespace DataTemplate

/-- The decimal `digits * 10 ^ power`. -/
structure ScaledDecimal where
  digits : Nat
  power : Int
deriving DecidableEq, Repr

/-- The first number that a 64-bit word has no room for. -/
def wordLimit : Nat := 0x10000000000000000

/-- Append decimal digits to a number for as long as a word has room for it.  The second part holds
the digits from the first one on that did not fit. -/
def appendDigits (n : Nat) : List Char → Nat × List Char
  | [] => (n, [])
  | digit :: digits =>
    let longer := 10 * n + (digit.toNat - '0'.toNat)
    if longer < wordLimit then appendDigits longer digits else (n, digit :: digits)

namespace ScaledDecimal

/-- The decimal with the digits of a whole part and a fraction, times a power of ten.  Of the digits
that a word has no room for, those of the whole part count as places and those of the fraction not
at all. -/
def ofParts (whole fraction : List Char) (power : Int) : ScaledDecimal :=
  let (digits, places) := appendDigits 0 whole
  let (digits, dropped) := appendDigits digits fraction
  ⟨digits, power + places.length - (fraction.length - dropped.length : Nat)⟩

/-- The greatest power of ten in range. -/
def greatestPower : Nat := 308

/-- Whether a decimal is in range of double precision if its digits and its power of ten are rounded
to 53 bits, and then their product. -/
def isInRange (decimal : ScaledDecimal) : Bool :=
  let product (power : Nat) : Nat :=
    roundSignificant decimal.digits * roundSignificant (Nat.pow 10 power)
  decimal.digits == 0 || decimal.power < 0 ||
    (decimal.power ≤ greatestPower &&
      roundSignificant (product decimal.power.toNat) < Nat.pow 2 1024)

example : ofParts ['1', '2'] ['3'] 5 = ⟨123, 4⟩ := by decide
example : ofParts (List.replicate 21 '9') ['9'] 0 = ⟨9999999999999999999, 2⟩ := by
  decide +kernel
example : (ScaledDecimal.mk 17976931348623158 292).isInRange = false := by decide +kernel
example : (ScaledDecimal.mk 179769313486231581 291).isInRange = true := by decide +kernel

end ScaledDecimal

end DataTemplate
