/-
The scanner for numbers beside their grammar.  It takes as many bytes as a number has that may end
where it does, and no text starts with two such numbers of different lengths.  Main statements:
`numberForm_iff`, `numberEnds_iff` and `Numeral.lengthAt?_iff`.
-/
import DataTemplate.Proofs.LeadSearch
import DataTemplate.Proofs.NumberLiterals

namespace DataTemplate

/-! ### The grammar -/

/-- The spellings of a number behind its sign: digits of a radix behind its letter, or decimal
digits, at least one, with a point anywhere among or around them and an exponent behind them. -/
inductive MagnitudeForm : List Char → Prop
  | radix {radix : Radix} {digits : List Char} (hne : digits ≠ [])
      (hdigits : ∀ c ∈ digits, radix.isDigit c = true) :
      MagnitudeForm ('0' :: radix.letter :: digits)
  | whole {whole exponent : List Char} (hne : whole ≠ [])
      (hwhole : ∀ c ∈ whole, isDecimalDigit c = true) (hexponent : ExponentPart exponent) :
      MagnitudeForm (whole ++ exponent)
  | point {whole digits exponent : List Char} (hne : whole ≠ [])
      (hwhole : ∀ c ∈ whole, isDecimalDigit c = true)
      (hdigits : ∀ c ∈ digits, isDecimalDigit c = true) (hexponent : ExponentPart exponent) :
      MagnitudeForm (whole ++ '.' :: (digits ++ exponent))
  | fraction {digits exponent : List Char} (hne : digits ≠ [])
      (hdigits : ∀ c ∈ digits, isDecimalDigit c = true) (hexponent : ExponentPart exponent) :
      MagnitudeForm ('.' :: (digits ++ exponent))

/-- The spellings of a number. -/
def NumberForm (number : List Char) : Prop :=
  ∃ (sign : Option Sign) (magnitude : List Char),
    number = signText sign ++ magnitude ∧ MagnitudeForm magnitude

/-- The bytes that a number does not run into: ASCII letters and digits, `_` and `.`. -/
def isWordByte (b : UInt8) : Bool :=
  let c := Char.ofUInt8 b
  c.isAlphanum || c == '_' || c == '.'

/-- The first `n` bytes of a text are a number, and the next one, if there is one, is not of those
that a number does not run into. -/
structure NumberEnds (text : List Char) (n : Nat) : Prop where
  number : ∃ number, NumberForm number ∧ byteLength number = n ∧
    (utf8Bytes text).take n = utf8Bytes number
  boundary : ∀ b, (utf8Bytes text)[n]? = some b → isWordByte b = false

/-- How many bytes the number at the start of a text takes. -/
def Numeral.lengthAt? (text : List Char) : Option Nat :=
  (scan text).map fun (numeral, _) => byteLength numeral.text

/-! ### Parts and spellings -/

theorem ExponentPart.exists_exponent {text : List Char} (h : ExponentPart text) :
    ∃ exponent : Option Exponent, exponentText exponent = text ∧
      ∀ e, exponent = some e → e.Proper := by
  cases h with
  | missing => exact ⟨none, rfl, by simp⟩
  | @present mark digits sign hmark hne hdigits =>
    refine ⟨some ⟨mark, sign, digits⟩, rfl, ?_⟩
    rintro e ⟨⟩
    exact ⟨hmark, hne, hdigits⟩

theorem Magnitude.form {magnitude : Magnitude} (h : magnitude.Proper) :
    MagnitudeForm magnitude.text := by
  cases magnitude with
  | inRadix radix digits => exact .radix h.1 h.2
  | decimal whole fraction exponent =>
    obtain ⟨hne, hdigits, hexponent⟩ := h
    have hpart := exponentPart_text hexponent
    obtain ⟨hwhole, hfraction⟩ := List.forall_mem_append.mp hdigits
    cases fraction with
    | none =>
      have hsome : whole ≠ [] := by simpa using hne
      simpa [text, fractionText] using MagnitudeForm.whole hsome hwhole hpart
    | some digits =>
      by_cases hwholeNil : whole = []
      · subst hwholeNil
        exact .fraction hne hfraction hpart
      · simpa [text, fractionText] using MagnitudeForm.point hwholeNil hwhole hfraction hpart

theorem MagnitudeForm.exists_magnitude {text : List Char} (h : MagnitudeForm text) :
    ∃ magnitude : Magnitude, magnitude.Proper ∧ magnitude.text = text := by
  cases h with
  | @radix radix digits hne hdigits => exact ⟨.inRadix radix digits, ⟨hne, hdigits⟩, rfl⟩
  | @whole whole _ hne hwhole hexponent =>
    obtain ⟨exponent, rfl, hproper⟩ := hexponent.exists_exponent
    refine ⟨.decimal whole none exponent, ⟨?_, ?_, hproper⟩, ?_⟩
    · simpa using hne
    · simpa using hwhole
    · simp [Magnitude.text, fractionText]
  | @point whole digits _ hne hwhole hdigits hexponent =>
    obtain ⟨exponent, rfl, hproper⟩ := hexponent.exists_exponent
    refine ⟨.decimal whole (some digits) exponent, ⟨?_, ?_, hproper⟩, ?_⟩
    · simp [hne]
    · exact List.forall_mem_append.mpr ⟨hwhole, hdigits⟩
    · simp [Magnitude.text, fractionText]
  | @fraction digits _ hne hdigits hexponent =>
    obtain ⟨exponent, rfl, hproper⟩ := hexponent.exists_exponent
    exact ⟨.decimal [] (some digits) exponent, ⟨hne, hdigits, hproper⟩, rfl⟩

/-- The spellings of a number are those of its parts. -/
theorem numberForm_iff {number : List Char} :
    NumberForm number ↔ ∃ numeral : Numeral, numeral.magnitude.Proper ∧ numeral.text = number := by
  constructor
  · rintro ⟨sign, text, rfl, hform⟩
    obtain ⟨magnitude, hproper, rfl⟩ := hform.exists_magnitude
    exact ⟨⟨sign, magnitude⟩, hproper, rfl⟩
  · rintro ⟨numeral, hproper, rfl⟩
    exact ⟨numeral.sign, numeral.magnitude.text, rfl, Magnitude.form hproper⟩

/-! ### Bytes -/

/-- No character begins with all the bytes of another one. -/
theorem utf8EncodeChar_append_inj {c d : Char} {xs ys : List UInt8}
    (h : String.utf8EncodeChar c ++ xs = String.utf8EncodeChar d ++ ys) : c = d ∧ xs = ys := by
  have hdecode (c : Char) (xs : List UInt8) :
      (String.utf8EncodeChar c ++ xs).toByteArray.utf8DecodeChar? 0 = some c := by
    rw [List.toByteArray_append]
    exact ByteArray.utf8DecodeChar?_utf8EncodeChar_append
  have hchar := hdecode c xs
  rw [h, hdecode d ys] at hchar
  obtain rfl := Option.some.inj hchar
  exact ⟨rfl, List.append_cancel_left h⟩

/-- A text that leads another one byte by byte leads it character by character. -/
theorem utf8Bytes_prefix_iff {xs ys : List Char} : utf8Bytes xs <+: utf8Bytes ys ↔ xs <+: ys := by
  constructor
  · rintro ⟨more, h⟩
    induction xs generalizing ys with
    | nil => exact List.nil_prefix
    | cons x xs ih =>
      cases ys with
      | nil => simp [String.utf8EncodeChar_ne_nil] at h
      | cons y ys =>
        rw [utf8Bytes_cons, utf8Bytes_cons, List.append_assoc] at h
        obtain ⟨rfl, hrest⟩ := utf8EncodeChar_append_inj h
        exact List.cons_prefix_cons.mpr ⟨rfl, ih hrest⟩
  · rintro ⟨more, rfl⟩
    exact ⟨utf8Bytes more, (utf8Bytes_append xs more).symm⟩

/-- The characters that a number does not run into. -/
def isWordChar (c : Char) : Bool := c.isAlphanum || c == '_' || c == '.'

theorem leadByte_of_ascii {c : Char} (h : c.toNat < 128) : leadByte c = c.toUInt8 := by
  have hval : c.val ≤ 127 := UInt32.le_iff_toNat_le.mpr (Nat.le_of_lt_succ h)
  simp [leadByte, String.utf8EncodeChar_eq_singleton (Char.utf8Size_eq_one_iff.mpr hval)]

theorem le_leadByte {c : Char} (h : 128 ≤ c.toNat) : 128 ≤ (leadByte c).toNat := by
  have hval : ¬ c.val.toNat ≤ 127 := Nat.not_le.mpr h
  unfold leadByte String.utf8EncodeChar
  simp only [hval, if_false]
  split
  · simp
    omega
  · split
    · simp
      omega
    · simp
      omega

theorem isWordByte_of_le {b : UInt8} (h : 128 ≤ b.toNat) : isWordByte b = false := by
  have hall : ∀ n < 256, 128 ≤ n → isWordByte (UInt8.ofNat n) = false := by decide +kernel
  have hb := hall b.toNat b.toNat_lt h
  rwa [UInt8.ofNat_toNat] at hb

theorem isWordByte_ascii {c : Char} (h : c.toNat < 128) :
    isWordByte c.toUInt8 = isWordChar c := by
  have hall : ∀ n < 128, isWordByte (Char.ofNat n).toUInt8 = isWordChar (Char.ofNat n) := by
    decide +kernel
  have hc := hall c.toNat h
  rwa [Char.ofNat_toNat] at hc

theorem isWordChar_of_le {c : Char} (h : 128 ≤ c.toNat) : isWordChar c = false := by
  have hne (d : Char) (hd : d.toNat < 128) : c ≠ d := by
    rintro rfl
    omega
  have hclasses : c.isAlphanum = (decide (65 ≤ c.val ∧ c.val ≤ 90) ||
      decide (97 ≤ c.val) && decide (c.val ≤ 122) || decide (48 ≤ c.val) && decide (c.val ≤ 57)) :=
    rfl
  have hval : 128 ≤ c.val.toNat := h
  simp [isWordChar, hclasses, hne '_' (by decide), hne '.' (by decide), UInt32.le_iff_toNat_le]
  omega

/-- The first byte of a character tells whether a number may run into it. -/
theorem isWordByte_leadByte (c : Char) : isWordByte (leadByte c) = isWordChar c := by
  by_cases hc : c.toNat < 128
  · rw [leadByte_of_ascii hc, isWordByte_ascii hc]
  · have hle : 128 ≤ c.toNat := Nat.le_of_not_lt hc
    rw [isWordByte_of_le (le_leadByte hle), isWordChar_of_le hle]

theorem numberMayEnd_iff {rest : List Char} :
    numberMayEnd rest = true ↔ ∀ b, (utf8Bytes rest).head? = some b → isWordByte b = false := by
  cases rest with
  | nil => simp [numberMayEnd]
  | cons c cs =>
    have hends : numberMayEnd (c :: cs) = !isWordChar c := rfl
    rw [hends, head?_utf8Bytes]
    simp [isWordByte_leadByte]

/-! ### What the scanner takes -/

/-- A number ends where the text splits into the spelling of one and text that may come after it. -/
theorem numberEnds_iff {text : List Char} {n : Nat} :
    NumberEnds text n ↔ ∃ number rest, number ++ rest = text ∧ NumberForm number ∧
      byteLength number = n ∧ numberMayEnd rest = true := by
  have hnext (number rest : List Char) :
      (utf8Bytes (number ++ rest))[byteLength number]? = (utf8Bytes rest).head? := by
    rw [utf8Bytes_append, ← length_utf8Bytes, List.getElem?_append_right (Nat.le_refl _),
      Nat.sub_self, List.head?_eq_getElem?]
  constructor
  · rintro ⟨⟨number, hform, rfl, htake⟩, hboundary⟩
    have hleads : utf8Bytes number <+: utf8Bytes text := htake ▸ List.take_prefix _ _
    obtain ⟨rest, rfl⟩ := utf8Bytes_prefix_iff.mp hleads
    rw [hnext] at hboundary
    exact ⟨number, rest, rfl, hform, rfl, numberMayEnd_iff.mpr hboundary⟩
  · rintro ⟨number, rest, rfl, hform, rfl, hends⟩
    refine ⟨⟨number, hform, rfl, ?_⟩, ?_⟩
    · rw [utf8Bytes_append, ← length_utf8Bytes, List.take_left]
    · rw [hnext]
      exact numberMayEnd_iff.mp hends

theorem Numeral.lengthAt?_eq_some {text : List Char} {n : Nat} :
    lengthAt? text = some n ↔ NumberEnds text n := by
  rw [lengthAt?, Option.map_eq_some_iff, numberEnds_iff]
  constructor
  · rintro ⟨⟨numeral, rest⟩, hscan, hn⟩
    obtain ⟨htext, hproper, hends⟩ := Numeral.scan_eq_some_iff.mp hscan
    exact ⟨numeral.text, rest, htext, numberForm_iff.mpr ⟨numeral, hproper, rfl⟩, hn, hends⟩
  · rintro ⟨number, rest, htext, hform, hn, hends⟩
    obtain ⟨numeral, hproper, rfl⟩ := numberForm_iff.mp hform
    exact ⟨(numeral, rest), Numeral.scan_eq_some_iff.mpr ⟨htext, hproper, hends⟩, hn⟩

/-- The scanner takes `n` bytes exactly if a number ends there, which one place at most is, and it
takes none exactly if no number ends anywhere. -/
theorem Numeral.lengthAt?_iff (text : List Char) :
    (∀ n, lengthAt? text = some n ↔ NumberEnds text n) ∧
    (∀ m n, NumberEnds text m → NumberEnds text n → m = n) ∧
    (lengthAt? text = none ↔ ¬ ∃ n, NumberEnds text n) := by
  refine ⟨fun n => lengthAt?_eq_some, ?_, ?_⟩
  · intro m n hm hn
    rw [← lengthAt?_eq_some] at hm hn
    exact Option.some.inj (hm.symm.trans hn)
  · simp only [Option.eq_none_iff_forall_ne_some, ne_eq, lengthAt?_eq_some, not_exists]

/-- The `e` of a hexadecimal number is a digit, so that no exponent follows it. -/
theorem Numeral.lengthAt?_iff_hexadecimal :
    NumberEnds "-0x1e+5".toList 5 ∧ (∀ n, NumberEnds "-0x1e+5".toList n → n = 5) ∧
      NumberEnds "1.e+5é".toList 5 ∧ ¬ ∃ n, NumberEnds "1.e+".toList n := by
  have hhex : NumberEnds "-0x1e+5".toList 5 := ((lengthAt?_iff _).1 5).mp (by decide)
  refine ⟨hhex, fun n hn => (lengthAt?_iff _).2.1 n 5 hn hhex, ?_, ?_⟩
  · exact ((lengthAt?_iff _).1 5).mp (by decide)
  · exact (lengthAt?_iff _).2.2.mp (by decide)

end DataTemplate
