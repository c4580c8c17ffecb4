/-
Spellings of characters in string content.  A character may be spelled by itself, behind a
backslash, by a short escape, by its code in hexadecimal digits of either case, or by a surrogate
pair.  Decoding takes the spelling of one character at a time, whatever comes behind it.  Main
statements: `hexCode?_hexText`, `unescape_spelling` and `unescape_spelled`.
-/
import DataTemplate.Proofs.JsonLiterals

namespace DataTemplate

/-! ### Hexadecimal digits -/

/-- The hexadecimal digit of a number below sixteen, as a capital or as a small letter. -/
def hexDigitIn (capital : Bool) (n : Fin 16) : Char :=
  if capital then
    #v['0', '1', '2', '3', '4', '5', '6', '7', '8', '9', 'A', 'B', 'C', 'D', 'E', 'F'].get n
  else #v['0', '1', '2', '3', '4', '5', '6', '7', '8', '9', 'a', 'b', 'c', 'd', 'e', 'f'].get n

/-- The last hexadecimal digits of a number, each in a case of its own; the cases are listed from the
last digit on. -/
def hexText : List Bool → Nat → List Char
  | [], _ => []
  | capital :: more, value =>
    hexText more (value / 16) ++ [hexDigitIn capital ⟨value % 16, Nat.mod_lt _ (by decide)⟩]

example : hexText [true, false, false, true] 0xABCD = ['A', 'b', 'c', 'D'] := by decide

theorem hexDigitIn_spec (capital : Bool) (n : Fin 16) :
    isHexDigit (hexDigitIn capital n) = true ∧ hexDigitValue (hexDigitIn capital n) = n := by
  have hall : ∀ capital, ∀ m : Fin 16, isHexDigit (hexDigitIn capital m) = true ∧
      hexDigitValue (hexDigitIn capital m) = m := by decide
  exact hall capital n

theorem hexValue_concat (digits : List Char) (digit : Char) :
    hexValue (digits ++ [digit]) = 16 * hexValue digits + hexDigitValue digit := by
  simp [hexValue, List.foldl_append]

variable {cases : List Bool} {value : Nat}

@[simp] theorem hexText_length (cases : List Bool) (value : Nat) :
    (hexText cases value).length = cases.length := by
  induction cases generalizing value with
  | nil => rfl
  | cons capital more ih => simp [hexText, ih]

theorem all_isHexDigit_hexText (cases : List Bool) (value : Nat) :
    (hexText cases value).all isHexDigit = true := by
  induction cases generalizing value with
  | nil => rfl
  | cons capital more ih => simp [hexText, ih, (hexDigitIn_spec capital _).1]

/-- As many digits as there are cases say a number that is small enough for them. -/
theorem hexValue_hexText (h : value < Nat.pow 16 cases.length) :
    hexValue (hexText cases value) = value := by
  induction cases generalizing value with
  | nil =>
    have hzero : value = 0 := Nat.lt_one_iff.mp h
    simp [hexText, hexValue, hzero]
  | cons capital more ih =>
    have hpow : Nat.pow 16 (more.length + 1) = 16 * Nat.pow 16 more.length := Nat.mul_comm _ _
    have hless : value / 16 < Nat.pow 16 more.length := by
      rw [List.length_cons, hpow] at h
      exact Nat.div_lt_of_lt_mul h
    rw [hexText, hexValue_concat, ih hless, (hexDigitIn_spec capital _).2]
    exact Nat.div_add_mod value 16

/-- Digits in any cases are read as the number that they were printed from. -/
theorem hexCode?_hexText (h : value < Nat.pow 16 cases.length) (rest : List Char) :
    hexCode? cases.length (hexText cases value ++ rest) = some (value, rest) := by
  have hlength := hexText_length cases value
  rw [hexCode?, ← hlength, List.take_left, List.drop_left]
  simp [all_isHexDigit_hexText, hexValue_hexText h]

theorem fourDigits_hexText (hcases : cases.length = 4) (h : value < 0x10000) :
    FourDigits (hexText cases value) value := by
  have hless : value < Nat.pow 16 cases.length := by
    rw [hcases]
    exact h
  exact ⟨by simp [hcases], all_isHexDigit_hexText cases value, hexValue_hexText hless⟩

/-! ### Spellings -/

/-- The short escapes: the letter behind the backslash, and the control character. -/
def shortEscapes : List (Char × Char) :=
  [('b', '\x08'), ('f', '\x0c'), ('n', '\n'), ('r', '\r'), ('t', '\t'), ('v', '\x0b')]

/-- The ways to spell a character. -/
inductive Spelling (c : Char) : List Char → Prop
  | plain (hc : c ≠ '\\') : Spelling c [c]
  | itself (hc : c ∉ ['b', 'f', 'n', 'r', 't', 'v', 'u', 'x']) : Spelling c ['\\', c]
  | short {letter : Char} (hletter : (letter, c) ∈ shortEscapes) : Spelling c ['\\', letter]
  | byte {cases : List Bool} (hcases : cases.length = 2) (hc : c.toNat ≤ 0xFF) :
      Spelling c ('\\' :: 'x' :: hexText cases c.toNat)
  | code {cases : List Bool} (hcases : cases.length = 4) (hc : c.toNat ≤ 0xFFFF) :
      Spelling c ('\\' :: 'u' :: hexText cases c.toNat)
  | pair {high low : List Bool} (hhigh : high.length = 4) (hlow : low.length = 4)
      (hc : 0xFFFF < c.toNat) :
      Spelling c ('\\' :: 'u' :: (hexText high (0xD800 + (c.toNat - 0x10000) / 0x400) ++
        '\\' :: 'u' :: hexText low (0xDC00 + (c.toNat - 0x10000) % 0x400)))

theorem decodeEscape_itself {c : Char} (hc : c ∉ ['b', 'f', 'n', 'r', 't', 'v', 'u', 'x'])
    (rest : List Char) : decodeEscape (c :: rest) = ([c], rest) := by
  simp only [List.mem_cons, List.not_mem_nil, or_false, not_or] at hc
  obtain ⟨hb, hf, hn, hr, ht, hv, hu, hx⟩ := hc
  have hdigits : escapeDigits c = 0 := by rw [escapeDigits] <;> assumption
  have hmeans : shortEscape c = c := by rw [shortEscape] <;> assumption
  rw [decodeEscape, if_pos hdigits, hmeans]

theorem decodeEscape_short {letter c : Char} (h : (letter, c) ∈ shortEscapes) (rest : List Char) :
    decodeEscape (letter :: rest) = ([c], rest) := by
  have hall : ∀ entry ∈ shortEscapes, escapeDigits entry.1 = 0 ∧ shortEscape entry.1 = entry.2 := by
    decide
  obtain ⟨hdigits, hmeans⟩ := hall _ h
  rw [decodeEscape, if_pos hdigits, hmeans]

theorem decodeEscape_byte {c : Char} (hcases : cases.length = 2) (hc : c.toNat ≤ 0xFF)
    (rest : List Char) : decodeEscape ('x' :: (hexText cases c.toNat ++ rest)) = ([c], rest) := by
  have hless : c.toNat < Nat.pow 16 cases.length := by
    rw [hcases]
    exact Nat.lt_succ_of_le hc
  have hcode := hexCode?_hexText hless rest
  rw [hcases] at hcode
  rw [decodeEscape_hex (e := 'x') (by decide) hcode, charOfEscape_toNat]

/-- Decoding takes the spelling of one character, and goes on behind it. -/
theorem unescape_spelling {c : Char} {spelling : List Char} (h : Spelling c spelling)
    (rest : List Char) : unescape (spelling ++ rest) = c :: unescape rest := by
  have hescape {body : List Char} (hdecode : decodeEscape (body ++ rest) = ([c], rest)) :
      unescape ('\\' :: body ++ rest) = c :: unescape rest := by
    rw [List.cons_append, unescape, if_pos rfl, hdecode]
    rfl
  cases h with
  | plain hc => rw [List.singleton_append, unescape, if_neg hc]
  | itself hc => exact hescape (decodeEscape_itself hc rest)
  | short hletter => exact hescape (decodeEscape_short hletter rest)
  | byte hcases hc => exact hescape (decodeEscape_byte hcases hc rest)
  | code hcases hc =>
    exact hescape (decodeEscape_code (fourDigits_hexText hcases (Nat.lt_succ_of_le hc)) rest)
  | pair hhigh hlow hc =>
    -- each half holds ten bits of what the code exceeds the first plane by
    have hvalid : c.toNat.isValidChar := c.valid
    unfold Nat.isValidChar at hvalid
    have hfirst : 0xD800 + (c.toNat - 0x10000) / 0x400 < 0xDC00 := by omega
    have hsecond : 0xDC00 + (c.toNat - 0x10000) % 0x400 < 0xE000 := by omega
    apply hescape
    rw [List.cons_append, List.append_assoc]
    apply decodeEscape_pair (fourDigits_hexText hhigh (Nat.lt_trans hfirst (by decide)))
      ⟨Nat.le_add_right _ _, hfirst⟩ (fourDigits_hexText hlow (Nat.lt_trans hsecond (by decide)))
      ⟨Nat.le_add_right _ _, hsecond⟩
    omega

/-- Decoding gives back a text each of whose characters was spelled in a way of its own. -/
theorem unescape_spelled {text : List Char} {spellings : List (List Char)}
    (h : List.Forall₂ Spelling text spellings) : unescape spellings.flatten = text := by
  induction h with
  | nil => rw [List.flatten_nil, unescape]
  | cons hspelling _ ih => rw [List.flatten_cons, unescape_spelling hspelling, ih]

/-- Six characters, each spelled in another way; the digits of the pair are in mixed cases. -/
theorem unescape_spelled_mixed :
    unescape ['é', '\\', '\\', '\\', 'v', '\\', 'x', 'e', '9', '\\', 'u', '0', '0', 'E', '9',
      '\\', 'u', 'd', '8', '3', 'D', '\\', 'u', 'D', 'e', '0', '0'] =
      ['é', '\\', '\x0b', 'é', 'é', '😀'] := by
  have hbyte : Spelling 'é' ['\\', 'x', 'e', '9'] := @Spelling.byte _ [false, false] rfl (by decide)
  have hcode : Spelling 'é' ['\\', 'u', '0', '0', 'E', '9'] :=
    @Spelling.code _ [false, true, false, false] rfl (by decide)
  have hpair : Spelling '😀' ['\\', 'u', 'd', '8', '3', 'D', '\\', 'u', 'D', 'e', '0', '0'] :=
    @Spelling.pair _ [true, false, false, false] [false, false, false, true] rfl rfl (by decide)
  have hspelled : List.Forall₂ Spelling ['é', '\\', '\x0b', 'é', 'é', '😀']
      [['é'], ['\\', '\\'], ['\\', 'v'], ['\\', 'x', 'e', '9'], ['\\', 'u', '0', '0', 'E', '9'],
        ['\\', 'u', 'd', '8', '3', 'D', '\\', 'u', 'D', 'e', '0', '0']] :=
    .cons (.plain (by decide)) (.cons (.itself (by decide)) (.cons (.short (by decide))
      (.cons hbyte (.cons hcode (.cons hpair .nil)))))
  exact unescape_spelled hspelled

end DataTemplate
