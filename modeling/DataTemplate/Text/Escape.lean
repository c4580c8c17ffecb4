/-
Backslash escapes of string content.  `unescape` decodes them: a short escape stands for a control
character, `\u` and `\x` give a code point in hexadecimal, and any other escaped character stands
for itself.
-/
import DataTemplate.Text.CharClass

namespace DataTemplate

/-- The value of a run of hexadecimal digits. -/
def hexValue (digits : List Char) : Nat :=
  digits.foldl (fun value digit => 16 * value + hexDigitValue digit) 0

/-- The value of the next `n` characters as hexadecimal digits, and the text after them. -/
def hexCode? (n : Nat) (cs : List Char) : Option (Nat × List Char) :=
  let digits := cs.take n
  if digits.length == n && digits.all isHexDigit then some (hexValue digits, cs.drop n) else none

/-- The character that stands for a code point which is no character, such as half of a pair. -/
def replacementChar : Char := '\ufffd'

/-- The character with a code point, if it is one. -/
def charOfCode (code : Nat) : Char :=
  if code.isValidChar then Char.ofNat code else replacementChar

/-- The low half of a surrogate pair, written as an escape at the start of the text. -/
def lowSurrogate? : List Char → Option (Nat × List Char)
  | '\\' :: 'u' :: cs =>
    (hexCode? 4 cs).filter fun (low, _) => 0xDC00 ≤ low && low < 0xE000
  | _ => none

/-- The character of a code that an escape gave.  A high surrogate takes its low half from the
escape after it; half of a pair that stands alone is replaced. -/
def charOfEscape (code : Nat) (cs : List Char) : Char × List Char :=
  if 0xD800 ≤ code && code < 0xDC00 then
    match lowSurrogate? cs with
    | some (low, rest) => (charOfCode (0x10000 + (code - 0xD800) * 0x400 + (low - 0xDC00)), rest)
    | none => (replacementChar, cs)
  else (charOfCode code, cs)

/-- What a character stands for after a backslash when it is not followed by hexadecimal digits. -/
def shortEscape : Char → Char
  | 'b' => '\x08'
  | 'f' => '\x0c'
  | 'n' => '\n'
  | 'r' => '\r'
  | 't' => '\t'
  | 'v' => '\x0b'
  | c => c

/-- The number of hexadecimal digits that an escape character asks for. -/
def escapeDigits : Char → Nat
  | 'u' => 4
  | 'x' => 2
  | _ => 0

/-- Decode the text after a backslash: the characters that the escape stands for, and the text
after it.  Nothing is left of a backslash at the end; one before too few digits stays as it is. -/
def decodeEscape : List Char → List Char × List Char
  | [] => ([], [])
  | c :: cs =>
    if escapeDigits c = 0 then ([shortEscape c], cs)
    else
      match hexCode? (escapeDigits c) cs with
      | some (code, rest) => ([(charOfEscape code rest).1], (charOfEscape code rest).2)
      | none => (['\\'], c :: cs)

theorem hexCode?_length_le {n code : Nat} {cs rest : List Char}
    (h : hexCode? n cs = some (code, rest)) : rest.length ≤ cs.length := by
  simp only [hexCode?] at h
  split at h
  · obtain ⟨_, rfl⟩ := Prod.mk.inj (Option.some.inj h)
    simp
  · simp at h

theorem charOfEscape_length_le (code : Nat) (cs : List Char) :
    (charOfEscape code cs).2.length ≤ cs.length := by
  rw [charOfEscape]
  split
  · split
    · rename_i low rest h
      rw [lowSurrogate?.eq_def] at h
      split at h
      · have := hexCode?_length_le (Option.eq_some_of_filter_eq_some h)
        simp
        omega
      · simp at h
    · exact Nat.le_refl _
  · exact Nat.le_refl _

theorem decodeEscape_length_le (cs : List Char) : (decodeEscape cs).2.length ≤ cs.length := by
  cases cs with
  | nil => simp [decodeEscape]
  | cons c cs =>
    rw [decodeEscape]
    split
    · simp
    · split
      · rename_i code rest h
        have := hexCode?_length_le h
        have := charOfEscape_length_le code rest
        simp
        omega
      · exact Nat.le_refl _

/-- Decode the backslash escapes of a text. -/
def unescape : List Char → List Char
  | [] => []
  | c :: cs =>
    if c = '\\' then (decodeEscape cs).1 ++ unescape (decodeEscape cs).2
    else c :: unescape cs
termination_by cs => cs.length
decreasing_by
  · have := decodeEscape_length_le cs
    simp
    omega
  · simp

/-- Text without a backslash stands for itself. -/
theorem unescape_eq_self {cs : List Char} (h : '\\' ∉ cs) : unescape cs = cs := by
  induction cs with
  | nil => rw [unescape]
  | cons c cs ih =>
    simp only [List.mem_cons, not_or] at h
    rw [unescape, if_neg (Ne.symm h.1), ih h.2]

example : unescape ['\\', 'n', '\\', 'x', '4', '1', '\\', 'q'] = ['\n', 'A', 'q'] := by
  decide +kernel
example : unescape ['\\', 'u', '1', '2', '\\'] = ['\\', 'u', '1', '2'] := by decide +kernel
example : unescape ['\\', 'u', 'D', '8', '3', 'd', '\\', 'u', 'd', 'e', '0', '0'] = ['😀'] := by
  decide +kernel

end DataTemplate
