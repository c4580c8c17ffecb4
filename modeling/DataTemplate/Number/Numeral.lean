/-
Number literals: their parts, their spelling, the scanner that finds one at the start of a text,
and their values.  Main statement: what the scanner takes off a text is the spelling of its answer.
-/
import DataTemplate.Number.Binary64
import DataTemplate.Text.CharClass

namespace DataTemplate

/-- A sign written in front of a number or an exponent. -/
inductive Sign where
  | plus
  | minus
deriving DecidableEq, Repr

/-- The character of a sign. -/
def Sign.char : Sign → Char
  | .plus => '+'
  | .minus => '-'

/-- The bases with a notation of their own. -/
inductive Radix where
  | binary
  | octal
  | hexadecimal
deriving DecidableEq, Repr

namespace Radix

/-- The letter after the leading zero. -/
def letter : Radix → Char
  | binary => 'b'
  | octal => 'o'
  | hexadecimal => 'x'

/-- The base as a number. -/
def base : Radix → Nat
  | binary => 2
  | octal => 8
  | hexadecimal => 16

/-- The radix that a letter stands for. -/
def ofLetter? : Char → Option Radix
  | 'b' => some binary
  | 'o' => some octal
  | 'x' => some hexadecimal
  | _ => none

/-- The digits of a radix. -/
def isDigit (radix : Radix) (c : Char) : Bool :=
  isHexDigit c && hexDigitValue c < radix.base

end Radix

/-- The power of ten after `e` or `E`. -/
structure Exponent where
  mark : Char
  sign : Option Sign
  digits : List Char
deriving DecidableEq, Repr

/-- The part of a number after its sign.  A decimal has digits before the point or after it; its
point is there exactly if `fraction` is. -/
inductive Magnitude where
  | inRadix (radix : Radix) (digits : List Char)
  | decimal (whole : List Char) (fraction : Option (List Char)) (exponent : Option Exponent)
deriving DecidableEq, Repr

/-- A number literal by its parts. -/
structure Numeral where
  sign : Option Sign
  magnitude : Magnitude
deriving DecidableEq, Repr

/-! ### Spelling -/

/-- The spelling of an optional sign. -/
def signText (sign : Option Sign) : List Char := (sign.map Sign.char).toList

/-- The spelling of an exponent. -/
def Exponent.text (exponent : Exponent) : List Char :=
  exponent.mark :: (signText exponent.sign ++ exponent.digits)

/-- The spelling of a fraction, with its point. -/
def fractionText : Option (List Char) → List Char
  | none => []
  | some digits => '.' :: digits

/-- The spelling of an optional exponent. -/
def exponentText : Option Exponent → List Char
  | none => []
  | some exponent => exponent.text

/-- The spelling of a number without its sign. -/
def Magnitude.text : Magnitude → List Char
  | inRadix radix digits => '0' :: radix.letter :: digits
  | decimal whole fraction exponent => whole ++ fractionText fraction ++ exponentText exponent

/-- The spelling of a number. -/
def Numeral.text (numeral : Numeral) : List Char :=
  signText numeral.sign ++ numeral.magnitude.text

/-! ### Scanning -/

/-- Whether a number may end before this text: no letter, digit, `_` or `.` follows. -/
def numberMayEnd : List Char → Bool
  | [] => true
  | c :: _ => !(c.isAlphanum || c == '_' || c == '.')

/-- An optional sign at the start of a text. -/
def scanSign : List Char → Option Sign × List Char
  | '+' :: cs => (some .plus, cs)
  | '-' :: cs => (some .minus, cs)
  | cs => (none, cs)

/-- A number in a radix notation, with at least one digit. -/
def scanRadix : List Char → Option (Magnitude × List Char)
  | '0' :: letter :: cs =>
    match Radix.ofLetter? letter with
    | none => none
    | some radix =>
      let digits := cs.takeWhile radix.isDigit
      let rest := cs.dropWhile radix.isDigit
      if !digits.isEmpty && numberMayEnd rest then some (.inRadix radix digits, rest) else none
  | _ => none

/-- A point and the digits after it, if a point comes next. -/
def scanFraction : List Char → Option (List Char) × List Char
  | '.' :: cs => (some (cs.takeWhile isDecimalDigit), cs.dropWhile isDecimalDigit)
  | cs => (none, cs)

/-- An exponent with at least one digit, if one comes next. -/
def scanExponent : List Char → Option Exponent × List Char
  | [] => (none, [])
  | mark :: cs =>
    let (sign, tail) := scanSign cs
    let digits := tail.takeWhile isDecimalDigit
    if (mark == 'e' || mark == 'E') && !digits.isEmpty then
      (some ⟨mark, sign, digits⟩, tail.dropWhile isDecimalDigit)
    else (none, mark :: cs)

/-- A decimal number, with at least one digit before its exponent. -/
def scanDecimal (cs : List Char) : Option (Magnitude × List Char) :=
  let whole := cs.takeWhile isDecimalDigit
  let (fraction, tail) := scanFraction (cs.dropWhile isDecimalDigit)
  let (exponent, rest) := scanExponent tail
  if !(whole.isEmpty && (fraction.getD []).isEmpty) && numberMayEnd rest then
    some (.decimal whole fraction exponent, rest)
  else none

/-- The number literal at the start of a text, and the text after it. -/
def Numeral.scan (cs : List Char) : Option (Numeral × List Char) :=
  let (sign, tail) := scanSign cs
  ((scanRadix tail).or (scanDecimal tail)).map fun (magnitude, rest) => (⟨sign, magnitude⟩, rest)

theorem scanSign_append (cs : List Char) : signText (scanSign cs).1 ++ (scanSign cs).2 = cs := by
  fun_cases scanSign cs <;> simp [signText, Sign.char]

theorem Radix.letter_of_ofLetter? {c : Char} {radix : Radix} (h : ofLetter? c = some radix) :
    radix.letter = c := by
  unfold ofLetter? at h
  split at h <;> cases h <;> rfl

theorem scanRadix_append {cs rest : List Char} {magnitude : Magnitude}
    (h : scanRadix cs = some (magnitude, rest)) : magnitude.text ++ rest = cs := by
  unfold scanRadix at h
  split at h
  · split at h
    · simp at h
    · rename_i cs _ radix hradix
      simp only at h
      split at h
      · obtain ⟨rfl, rfl⟩ := Prod.mk.inj (Option.some.inj h)
        simp [Magnitude.text, Radix.letter_of_ofLetter? hradix]
      · simp at h
  · simp at h

theorem scanFraction_append (cs : List Char) :
    fractionText (scanFraction cs).1 ++ (scanFraction cs).2 = cs := by
  unfold scanFraction
  split <;> simp [fractionText]

theorem scanExponent_append (cs : List Char) :
    exponentText (scanExponent cs).1 ++ (scanExponent cs).2 = cs := by
  cases cs with
  | nil => rfl
  | cons mark cs =>
    have hsign := scanSign_append cs
    simp only [scanExponent]
    split
    · simp only [exponentText, Exponent.text, List.cons_append, List.append_assoc,
        List.takeWhile_append_dropWhile, hsign]
    · rfl

theorem scanDecimal_append {cs rest : List Char} {magnitude : Magnitude}
    (h : scanDecimal cs = some (magnitude, rest)) : magnitude.text ++ rest = cs := by
  simp only [scanDecimal] at h
  split at h
  · obtain ⟨rfl, rfl⟩ := Prod.mk.inj (Option.some.inj h)
    rw [Magnitude.text, List.append_assoc, List.append_assoc, scanExponent_append,
      scanFraction_append, List.takeWhile_append_dropWhile]
  · simp at h

theorem Numeral.scan_append {cs rest : List Char} {numeral : Numeral}
    (h : scan cs = some (numeral, rest)) : numeral.text ++ rest = cs := by
  simp only [scan, Option.map_eq_some_iff] at h
  obtain ⟨⟨magnitude, tail⟩, hscan, heq⟩ := h
  obtain ⟨rfl, rfl⟩ := Prod.mk.inj heq
  have htail : magnitude.text ++ tail = (scanSign cs).2 := by
    rcases Option.or_eq_some_iff.mp hscan with h | ⟨_, h⟩
    · exact scanRadix_append h
    · exact scanDecimal_append h
  rw [text, List.append_assoc, htail, scanSign_append]

theorem scanDecimal_text_ne_nil {cs rest : List Char} {magnitude : Magnitude}
    (h : scanDecimal cs = some (magnitude, rest)) : magnitude.text ≠ [] := by
  simp only [scanDecimal] at h
  split at h
  · obtain ⟨rfl, rfl⟩ := Prod.mk.inj (Option.some.inj h)
    rename_i hdigits
    intro htext
    simp only [Magnitude.text, List.append_eq_nil_iff] at htext
    obtain ⟨⟨hwhole, hfraction⟩, _⟩ := htext
    cases hf : (scanFraction (cs.dropWhile isDecimalDigit)).1 <;>
      simp_all [fractionText]
  · simp at h

theorem Numeral.scan_text_ne_nil {cs rest : List Char} {numeral : Numeral}
    (h : scan cs = some (numeral, rest)) : numeral.text ≠ [] := by
  simp only [scan, Option.map_eq_some_iff] at h
  obtain ⟨⟨magnitude, tail⟩, hscan, heq⟩ := h
  obtain ⟨rfl, rfl⟩ := Prod.mk.inj heq
  have hne : magnitude.text ≠ [] := by
    rcases Option.or_eq_some_iff.mp hscan with h | ⟨_, h⟩
    · unfold scanRadix at h
      split at h
      · split at h
        · simp at h
        · simp only at h
          split at h
          · obtain ⟨rfl, _⟩ := Prod.mk.inj (Option.some.inj h)
            simp [Magnitude.text]
          · simp at h
      · simp at h
    · exact scanDecimal_text_ne_nil h
  simp [text, hne]

/-! ### Values -/

/-- The natural number that decimal digits denote. -/
def decimalValue (digits : List Char) : Nat :=
  digits.foldl (fun value digit => 10 * value + (digit.toNat - '0'.toNat)) 0

/-- The value of digits in a radix, rounded after each digit. -/
def radixValue (radix : Radix) (digits : List Char) : Nat :=
  digits.foldl (fun value digit => roundSignificant (value * radix.base + hexDigitValue digit)) 0

/-- The power of ten of an exponent. -/
def Exponent.power (exponent : Exponent) : Int :=
  match exponent.sign with
  | some .minus => -(decimalValue exponent.digits : Int)
  | _ => decimalValue exponent.digits

/-- The value of a number, by the sign in front of it. -/
def Magnitude.value (negative : Bool) : Magnitude → Binary64
  | inRadix radix digits => .ofQuotient negative (radixValue radix digits) 1
  | decimal whole fraction exponent =>
    let digits := fraction.getD []
    let power := (exponent.map Exponent.power).getD 0
    .ofDecimal negative (decimalValue (whole ++ digits)) (power - digits.length)

/-- The value of a number literal. -/
def Numeral.value (numeral : Numeral) : Binary64 :=
  numeral.magnitude.value (numeral.sign == some .minus)

example : Numeral.scan ['1', '.', 'e', '2', ','] =
    some (⟨none, .decimal ['1'] (some []) (some ⟨'e', none, ['2']⟩)⟩, [',']) := by decide
example : Numeral.scan ['0', 'b', '2'] = none ∧ Numeral.scan ['1', 'e'] = none ∧
    Numeral.scan ['.'] = none ∧ Numeral.scan ['-'] = none := by decide
example : (Numeral.scan ['0', '7']).isSome := by decide

end DataTemplate
