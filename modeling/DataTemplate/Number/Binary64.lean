/-
Double-precision values as exact numbers: a significand times a power of two, an infinity, or no
number.  Rounding goes to the nearest representable value, and a tie to the even significand.
-/

namespace DataTemplate

/-- A double-precision value; `finite` stands for `significand * 2 ^ exponent`, in lowest form:
the significand has 53 bits, or fewer if the exponent is the least one. -/
inductive Binary64 where
  | nan
  | infinity (negative : Bool)
  | finite (negative : Bool) (significand : Nat) (exponent : Int)
deriving DecidableEq, Repr

/-- The quotient rounded to the nearest integer, a tie to the even one. -/
def roundQuotient (num den : Nat) : Nat :=
  let quotient := num / den
  let twice := 2 * (num % den)
  if twice < den || (twice == den && quotient % 2 == 0) then quotient else quotient + 1

/-- A natural number rounded to 53 significant bits. -/
def roundSignificant (n : Nat) : Nat :=
  let excess := n.log2 - 52
  roundQuotient n (Nat.pow 2 excess) * Nat.pow 2 excess

namespace Binary64

/-- The least exponent of a finite value. -/
def leastExponent : Int := -1074

/-- The greatest exponent of a finite value. -/
def greatestExponent : Int := 971

/-- The least significand of 53 bits. -/
def leastFull : Nat := 0x10000000000000

/-- The integer `e` with `2 ^ e ≤ num / den < 2 ^ (e + 1)`, for a positive quotient. -/
def floorLog2 (num den : Nat) : Int :=
  let e : Int := (num.log2 : Int) - den.log2
  if den * Nat.pow 2 e.toNat ≤ num * Nat.pow 2 (-e).toNat then e else e - 1

/-- Zero with a sign. -/
def zero (negative : Bool) : Binary64 := .finite negative 0 leastExponent

/-- The value nearest to `num / den`. -/
def ofQuotient (negative : Bool) (num den : Nat) : Binary64 :=
  if num = 0 then zero negative
  else
    let exponent := max (floorLog2 num den - 52) leastExponent
    let significand :=
      roundQuotient (num * Nat.pow 2 (-exponent).toNat) (den * Nat.pow 2 exponent.toNat)
    let carried := significand == 2 * leastFull
    let significand := if carried then leastFull else significand
    let exponent := if carried then exponent + 1 else exponent
    if greatestExponent < exponent then .infinity negative
    else .finite negative significand exponent

/-- The value nearest to `digits * 10 ^ power`.  A power so large or so small that the answer does
not hang on the digits is not computed. -/
def ofDecimal (negative : Bool) (digits : Nat) (power : Int) : Binary64 :=
  if digits = 0 then zero negative
  else if 400 < power then .infinity negative
  else if power + digits.log2 < -400 then zero negative
  else ofQuotient negative (digits * Nat.pow 10 power.toNat) (Nat.pow 10 (-power).toNat)

/-- The sign in the bits of the interchange format. -/
def signBit (negative : Bool) : Nat := if negative then 0x8000000000000000 else 0

/-- The bits of the interchange format; every value that is no number has the same ones. -/
def toBits : Binary64 → Nat
  | nan => 0x7ff8000000000000
  | infinity negative => signBit negative + 0x7ff0000000000000
  | finite negative significand exponent =>
    signBit negative +
      if significand < leastFull then significand
      else (exponent - leastExponent + 1).toNat * leastFull + (significand - leastFull)

example : (ofDecimal false 1 0).toBits = 0x3ff0000000000000 := by decide
example : (ofDecimal false 1 (-1)).toBits = 0x3fb999999999999a := by decide +kernel
example : (ofDecimal true 5 (-324)).toBits = 0x8000000000000001 := by decide +kernel
example : ofDecimal false 2 308 = infinity false := by decide +kernel
example : roundSignificant (2 ^ 53 + 1) = 2 ^ 53 := by decide +kernel

end Binary64

end DataTemplate
