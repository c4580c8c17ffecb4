/-
The character classes of the notation: white space between tokens, digits, and the characters of
bare identifiers.  Identifier classes follow Unicode, all others are ASCII.
-/
import DataTemplate.Text.Alphabetic
import DataTemplate.Text.Numeric

namespace DataTemplate

/-- Membership in a list of closed ranges that is in increasing order. -/
def CodePoint.inRanges (n : Nat) : List (Nat × Nat) → Bool
  | [] => false
  | (low, high) :: ranges => low ≤ n && (n ≤ high || inRanges n ranges)

/-- The Unicode property Alphabetic. -/
def isAlphabetic (c : Char) : Bool :=
  CodePoint.inRanges c.toNat CodePoint.alphabeticRanges

/-- The Unicode general categories of numbers: Nd, Nl and No. -/
def isNumeric (c : Char) : Bool :=
  CodePoint.inRanges c.toNat CodePoint.numericRanges

/-- White space between tokens: space, tab, line feed, vertical tab, form feed, carriage return. -/
def isBlank (c : Char) : Bool :=
  c == ' ' || c == '\t' || c == '\r' || c == '\n' || c == '\x0b' || c == '\x0c'

/-- The ten ASCII digits. -/
def isDecimalDigit (c : Char) : Bool :=
  '0' ≤ c && c ≤ '9'

/-- The ASCII hexadecimal digits, in either case. -/
def isHexDigit (c : Char) : Bool :=
  isDecimalDigit c || ('a' ≤ c && c ≤ 'f') || ('A' ≤ c && c ≤ 'F')

/-- The value of a hexadecimal digit, in either case. -/
def hexDigitValue (c : Char) : Nat :=
  if isDecimalDigit c then c.toNat - '0'.toNat
  else if 'a' ≤ c then c.toNat - 'a'.toNat + 10
  else c.toNat - 'A'.toNat + 10

/-- The first character of a bare identifier. -/
def isIdentifierStart (c : Char) : Bool :=
  c == '_' || c == '$' || isAlphabetic c

/-- A later character of a bare identifier; a keyword does not run straight into one. -/
def isIdentifierContinue (c : Char) : Bool :=
  isIdentifierStart c || isNumeric c

theorem isIdentifierContinue_of_start {c : Char} (h : isIdentifierStart c = true) :
    isIdentifierContinue c = true := by
  simp [isIdentifierContinue, h]

example : isIdentifierStart 'é' ∧ isIdentifierContinue '²' ∧ ¬ isIdentifierStart '²' := by decide
example : ¬ isBlank '\u00a0' := by decide
example : hexDigitValue 'f' = 15 ∧ hexDigitValue 'F' = 15 ∧ hexDigitValue '7' = 7 := by decide

end DataTemplate
