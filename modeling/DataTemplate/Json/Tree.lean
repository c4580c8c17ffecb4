/-
JSON values and their text.  Numbers are kept as they are written, and the members of an object keep
their order.
-/
import DataTemplate.Number.Shortest
import DataTemplate.Text.Quoted

namespace DataTemplate

/-- A JSON value. -/
inductive Json where
  | null
  | boolean (value : Bool)
  | number (text : String)
  | string (text : String)
  | array (elements : List Json)
  | object (members : List (String × Json))
deriving Inhabited

namespace Json

/-- A natural number. -/
def ofNat (n : Nat) : Json := .number (toString n)

/-- A value that may be missing. -/
def ofOption {α : Type} (f : α → Json) : Option α → Json
  | none => .null
  | some a => f a

/-! ### Compact text -/

mutual

/-- The text without any white space. -/
def compact : Json → String
  | null => "null"
  | boolean value => if value then "true" else "false"
  | number text => text
  | string text => quoteText text.toList
  | array elements => "[" ++ String.intercalate "," (compactElements elements) ++ "]"
  | object members => "\x7b" ++ String.intercalate "," (compactMembers members) ++ "\x7d"

/-- The texts of some elements. -/
def compactElements : List Json → List String
  | [] => []
  | element :: elements => element.compact :: compactElements elements

/-- The texts of some members. -/
def compactMembers : List (String × Json) → List String
  | [] => []
  | (name, value) :: members =>
    (quoteText name.toList ++ ":" ++ value.compact) :: compactMembers members

end

/-! ### Indented text -/

/-- A line break and two spaces for each level of depth. -/
def breakAt (depth : Nat) : String := String.ofList ('\n' :: List.replicate (2 * depth) ' ')

mutual

/-- The text with each element and member on a line of its own. -/
def indented (depth : Nat) : Json → String
  | null => "null"
  | boolean value => if value then "true" else "false"
  | number text => text
  | string text => quoteText text.toList
  | array [] => "[]"
  | array (element :: elements) =>
    "[" ++ breakAt (depth + 1) ++ element.indented (depth + 1) ++
      indentedElements depth elements ++ breakAt depth ++ "]"
  | object [] => "\x7b\x7d"
  | object ((name, value) :: members) =>
    "\x7b" ++ breakAt (depth + 1) ++ quoteText name.toList ++ ": " ++ value.indented (depth + 1) ++
      indentedMembers depth members ++ breakAt depth ++ "\x7d"

/-- The text of the elements after the first. -/
def indentedElements (depth : Nat) : List Json → String
  | [] => ""
  | element :: elements =>
    "," ++ breakAt (depth + 1) ++ element.indented (depth + 1) ++ indentedElements depth elements

/-- The text of the members after the first. -/
def indentedMembers (depth : Nat) : List (String × Json) → String
  | [] => ""
  | (name, value) :: members =>
    "," ++ breakAt (depth + 1) ++ quoteText name.toList ++ ": " ++ value.indented (depth + 1) ++
      indentedMembers depth members

end

end Json

/-! ### Numbers -/

/-- The digits of a decimal without zeros at the end, and the power of ten of the first of them. -/
def ScaledDecimal.normalized (decimal : ScaledDecimal) : List Char × Int :=
  let digits := Nat.toDigits 10 decimal.digits
  let trimmed := (digits.reverse.dropWhile (· == '0')).reverse
  (trimmed, decimal.power + digits.length - 1)

/-- A positive decimal with at least one digit after the point if the power of its first digit is
from -5 to 15, and in scientific notation else. -/
def ScaledDecimal.text (decimal : ScaledDecimal) : List Char :=
  let (digits, power) := decimal.normalized
  if -5 ≤ power && power < 0 then
    ['0', '.'] ++ List.replicate (-power - 1).toNat '0' ++ digits
  else if 0 ≤ power && power ≤ 15 then
    let whole := digits.take (power.toNat + 1)
    let fraction := digits.drop (power.toNat + 1)
    whole ++ List.replicate (power.toNat + 1 - whole.length) '0' ++
      '.' :: (if fraction.isEmpty then ['0'] else fraction)
  else
    let fraction := digits.drop 1
    digits.take 1 ++ (if fraction.isEmpty then [] else '.' :: fraction) ++
      'e' :: (if power < 0 then '-' else '+') :: Nat.toDigits 10 power.natAbs

/-- A double-precision value with the fewest digits that read back; what is no finite number has no
place in JSON. -/
def Binary64.toJson : Binary64 → Json
  | nan | infinity _ => .null
  | finite negative significand exponent =>
    let digits :=
      if significand = 0 then ['0', '.', '0'] else (shortestDecimal significand exponent).text
    .number (String.ofList (if negative then '-' :: digits else digits))

example : (ScaledDecimal.mk 1 0).text = ['1', '.', '0'] := by decide
example : (ScaledDecimal.mk 10 15).text = ['1', 'e', '+', '1', '6'] := by decide
example : (ScaledDecimal.mk 15 (-8)).text = ['1', '.', '5', 'e', '-', '7'] := by decide
example : (ScaledDecimal.mk 1 (-5)).text = ['0', '.', '0', '0', '0', '0', '1'] := by decide

end DataTemplate
