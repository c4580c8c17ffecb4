/-
Keywords, numbers and identifiers in front of other text.  The scanners take exactly the spelling of
a literal, since nothing that comes after a token can carry it on.  Main statements:
`Numeral.scan_eq_some_iff`, `ScalarForm.scan_eq` and `IdentifierForm.scan_eq`.
-/
import DataTemplate.Proofs.Scanning

namespace DataTemplate

variable {σ : Type}

/-! ### Character classes -/

theorem isAlphanum_of_isDecimalDigit {c : Char} (h : isDecimalDigit c = true) :
    c.isAlphanum = true := by
  have hdigit : c.isDigit = true := h
  simp [Char.isAlphanum, hdigit]

theorem isAlphanum_of_isHexDigit {c : Char} (h : isHexDigit c = true) : c.isAlphanum = true := by
  have hclasses : c.isAlphanum = (decide (65 ≤ c.val ∧ c.val ≤ 90) ||
      decide (97 ≤ c.val) && decide (c.val ≤ 122) || c.isDigit) := rfl
  simp only [isHexDigit, Bool.or_eq_true, Bool.and_eq_true, decide_eq_true_eq, Char.le_def,
    UInt32.le_iff_toNat_le] at h
  simp only [hclasses, Bool.or_eq_true, Bool.and_eq_true, decide_eq_true_eq,
    UInt32.le_iff_toNat_le]
  rcases h with (hdigit | ⟨hlow, hhigh⟩) | ⟨hlow, hhigh⟩
  · exact .inr hdigit
  · exact .inl (.inr ⟨hlow, Nat.le_trans hhigh (by decide)⟩)
  · exact .inl (.inl ⟨hlow, Nat.le_trans hhigh (by decide)⟩)

/-- No class of letters and digits goes on where a number may end. -/
theorem head?_any_of_numberMayEnd {p : Char → Bool} (hp : ∀ c, p c = true → c.isAlphanum = true)
    {rest : List Char} (h : numberMayEnd rest = true) : rest.head?.any p = false := by
  cases rest with
  | nil => rfl
  | cons c rest =>
    have hc : c.isAlphanum = false := by
      simp only [numberMayEnd, Bool.not_eq_true', Bool.or_eq_false_iff] at h
      exact h.1.1
    apply eq_false_of_ne_true
    intro hpc
    simp [hp c (by simpa using hpc)] at hc

/-! ### Numbers -/

theorem scanSign_signText {sign : Option Sign} {text : List Char}
    (h : ∀ c, text.head? = some c → c ≠ '+' ∧ c ≠ '-') :
    scanSign (signText sign ++ text) = (sign, text) := by
  cases sign with
  | some sign => cases sign <;> rfl
  | none =>
    cases text with
    | nil => rfl
    | cons c text =>
      obtain ⟨hplus, hminus⟩ := h c rfl
      simp [signText, scanSign, hplus, hminus]

theorem scanFraction_fractionText {fraction : Option (List Char)} {rest : List Char}
    (hdigits : ∀ c ∈ fraction.getD [], isDecimalDigit c = true)
    (hrest : rest.head?.any isDecimalDigit = false) (hpoint : rest.head? ≠ some '.') :
    scanFraction (fractionText fraction ++ rest) = (fraction, rest) := by
  cases fraction with
  | some digits =>
    rw [Option.getD_some] at hdigits
    simp only [fractionText, List.cons_append, scanFraction]
    rw [takeWhile_run hdigits hrest, dropWhile_run hdigits hrest]
  | none =>
    unfold scanFraction
    split
    · simp_all [fractionText]
    · rfl

theorem scanExponent_exponentText {exponent : Option Exponent} {rest : List Char}
    (hexponent : ∀ e, exponent = some e → e.Proper) (hrest : numberMayEnd rest = true) :
    scanExponent (exponentText exponent ++ rest) = (exponent, rest) := by
  cases exponent with
  | some e =>
    obtain ⟨hmark, hne, hdigits⟩ := hexponent e rfl
    have hend := head?_any_of_numberMayEnd (fun _ => isAlphanum_of_isDecimalDigit) hrest
    have hsign : scanSign (signText e.sign ++ (e.digits ++ rest)) = (e.sign, e.digits ++ rest) := by
      apply scanSign_signText
      intro c hc
      obtain ⟨x, xs, hx⟩ := List.exists_cons_of_ne_nil hne
      obtain rfl : x = c := by simpa [hx] using hc
      have hdigit := hdigits x (by simp [hx])
      constructor
      · rintro rfl
        exact absurd hdigit (by decide)
      · rintro rfl
        exact absurd hdigit (by decide)
    simp only [exponentText, Exponent.text, List.cons_append, List.append_assoc, scanExponent,
      hsign, takeWhile_run hdigits hend, dropWhile_run hdigits hend]
    simp [hmark, hne]
  | none =>
    cases rest with
    | nil => rfl
    | cons c rest =>
      have hmark : (c == 'e' || c == 'E') = false := by
        apply eq_false_of_ne_true
        intro hc
        rcases (by simpa using hc : c = 'e' ∨ c = 'E') with rfl | rfl
        · exact absurd hrest (by simp [numberMayEnd])
        · exact absurd hrest (by simp [numberMayEnd])
      simp [exponentText, scanExponent, hmark]

/-- After the digits of a number comes no digit, whichever of the other parts are there. -/
theorem head?_exponentText {exponent : Option Exponent} {rest : List Char}
    (hexponent : ∀ e, exponent = some e → e.Proper) (hrest : numberMayEnd rest = true) :
    (exponentText exponent ++ rest).head?.any isDecimalDigit = false ∧
      (exponentText exponent ++ rest).head? ≠ some '.' := by
  cases exponent with
  | some e =>
    have hmark : isDecimalDigit e.mark = false ∧ e.mark ≠ '.' := by
      rcases (hexponent e rfl).mark with hmark | hmark
      · rw [hmark]
        decide
      · rw [hmark]
        decide
    simpa [exponentText, Exponent.text] using hmark
  | none =>
    refine ⟨head?_any_of_numberMayEnd (fun _ => isAlphanum_of_isDecimalDigit) hrest, ?_⟩
    intro hpoint
    obtain ⟨tail, htail⟩ := List.head?_eq_some_iff.mp hpoint
    rw [exponentText, List.nil_append] at htail
    simp [htail, numberMayEnd] at hrest

theorem head?_fractionText (fraction : Option (List Char)) {rest : List Char}
    (hrest : rest.head?.any isDecimalDigit = false) :
    (fractionText fraction ++ rest).head?.any isDecimalDigit = false := by
  cases fraction with
  | some digits =>
    have hpoint : isDecimalDigit '.' = false := by decide
    simpa [fractionText] using hpoint
  | none => exact hrest

theorem scanDecimal_text {whole : List Char} {fraction : Option (List Char)}
    {exponent : Option Exponent} (hproper : (Magnitude.decimal whole fraction exponent).Proper)
    {rest : List Char} (hrest : numberMayEnd rest = true) :
    scanDecimal ((Magnitude.decimal whole fraction exponent).text ++ rest) =
      some (.decimal whole fraction exponent, rest) := by
  obtain ⟨hne, hdigits, hexponent⟩ := hproper
  obtain ⟨hend, hpoint⟩ := head?_exponentText hexponent hrest
  have hwhole : ∀ c ∈ whole, isDecimalDigit c = true := fun c hc => hdigits c (by simp [hc])
  have hfraction : ∀ c ∈ fraction.getD [], isDecimalDigit c = true :=
    fun c hc => hdigits c (by simp [hc])
  have hafter := head?_fractionText fraction hend
  have hsome : (!(whole.isEmpty && (fraction.getD []).isEmpty)) = true := by
    simp only [ne_eq, List.append_eq_nil_iff, not_and] at hne
    by_cases hwhole : whole = []
    · simp [hwhole, hne hwhole]
    · simp [hwhole]
  rw [Magnitude.text, List.append_assoc, List.append_assoc, scanDecimal]
  simp only [takeWhile_run hwhole hafter, dropWhile_run hwhole hafter,
    scanFraction_fractionText hfraction hend hpoint, scanExponent_exponentText hexponent hrest,
    hsome, hrest]
  rfl

theorem scanRadix_text {radix : Radix} {digits : List Char}
    (hproper : (Magnitude.inRadix radix digits).Proper) {rest : List Char}
    (hrest : numberMayEnd rest = true) :
    scanRadix ((Magnitude.inRadix radix digits).text ++ rest) =
      some (.inRadix radix digits, rest) := by
  obtain ⟨hne, hdigits⟩ := hproper
  have halphanum (c : Char) (hc : radix.isDigit c = true) : c.isAlphanum = true := by
    have hhex : isHexDigit c = true ∧ hexDigitValue c < radix.base := by
      simpa [Radix.isDigit] using hc
    exact isAlphanum_of_isHexDigit hhex.1
  have hend := head?_any_of_numberMayEnd halphanum hrest
  have hletter : Radix.ofLetter? radix.letter = some radix := by cases radix <;> rfl
  simp only [Magnitude.text, List.cons_append, scanRadix, hletter, takeWhile_run hdigits hend,
    dropWhile_run hdigits hend, hrest]
  simp [hne]

/-- Two characters of which the second is no letter of a radix start no number in a radix. -/
theorem scanRadix_eq_none {cs : List Char}
    (h : ∀ c, cs.tail.head? = some c → Radix.ofLetter? c = none) : scanRadix cs = none := by
  unfold scanRadix
  split
  · rename_i letter cs
    rw [h letter rfl]
  · rfl

theorem ofLetter?_of_isDecimalDigit {c : Char} (h : isDecimalDigit c = true) :
    Radix.ofLetter? c = none := by
  cases hletter : Radix.ofLetter? c with
  | none => rfl
  | some radix =>
    obtain rfl := Radix.letter_of_ofLetter? hletter
    cases radix <;> exact absurd h (by decide)

theorem ofLetter?_of_mem_fractionText {fraction : Option (List Char)}
    (hdigits : ∀ c ∈ fraction.getD [], isDecimalDigit c = true) {c : Char}
    (hc : c ∈ fractionText fraction) : Radix.ofLetter? c = none := by
  cases fraction with
  | none => simp [fractionText] at hc
  | some digits =>
    rcases List.mem_cons.mp hc with rfl | hc
    · rfl
    · exact ofLetter?_of_isDecimalDigit (hdigits c hc)

theorem ofLetter?_of_mem_exponentText {exponent : Option Exponent}
    (hexponent : ∀ e, exponent = some e → e.Proper) {c : Char} (hc : c ∈ exponentText exponent) :
    Radix.ofLetter? c = none := by
  cases exponent with
  | none => simp [exponentText] at hc
  | some e =>
    obtain ⟨hmark, -, hdigits⟩ := hexponent e rfl
    simp only [exponentText, Exponent.text, List.mem_cons, List.mem_append] at hc
    rcases hc with rfl | hsign | hdigit
    · rcases hmark with hmark | hmark
      · rw [hmark]
        rfl
      · rw [hmark]
        rfl
    · have hsigns : ∀ sign : Sign, Radix.ofLetter? sign.char = none := by
        intro sign
        cases sign <;> rfl
      obtain ⟨sign, -, rfl⟩ : ∃ sign, e.sign = some sign ∧ sign.char = c := by
        simpa [signText] using hsign
      exact hsigns sign
    · exact ofLetter?_of_isDecimalDigit (hdigits c hdigit)

/-- A decimal number is not taken for one in a radix. -/
theorem scanRadix_decimal {whole : List Char} {fraction : Option (List Char)}
    {exponent : Option Exponent} (hproper : (Magnitude.decimal whole fraction exponent).Proper)
    {rest : List Char} (hrest : numberMayEnd rest = true) :
    scanRadix ((Magnitude.decimal whole fraction exponent).text ++ rest) = none := by
  obtain ⟨hne, hdigits, hexponent⟩ := hproper
  have hmem : ∀ c ∈ (Magnitude.decimal whole fraction exponent).text,
      Radix.ofLetter? c = none := by
    intro c hc
    simp only [Magnitude.text, List.mem_append] at hc
    rcases hc with (hc | hc) | hc
    · exact ofLetter?_of_isDecimalDigit (hdigits c (by simp [hc]))
    · exact ofLetter?_of_mem_fractionText (fun c hc => hdigits c (by simp [hc])) hc
    · exact ofLetter?_of_mem_exponentText hexponent hc
  have hnonempty : (Magnitude.decimal whole fraction exponent).text ≠ [] := by
    intro hnil
    apply hne
    cases fraction <;> simp_all [Magnitude.text, fractionText]
  apply scanRadix_eq_none
  intro c hc
  obtain ⟨x, text, htext⟩ := List.exists_cons_of_ne_nil hnonempty
  rw [htext] at hc hmem
  cases text with
  | cons y text =>
    obtain rfl : y = c := by simpa using hc
    exact hmem y (by simp)
  | nil =>
    have hhead : rest.head? = some c := by simpa using hc
    have hletters := head?_any_of_numberMayEnd (p := fun c => (Radix.ofLetter? c).isSome)
      (by
        intro c hletter
        obtain ⟨radix, hradix⟩ := Option.isSome_iff_exists.mp hletter
        obtain rfl := Radix.letter_of_ofLetter? hradix
        cases radix <;> decide) hrest
    simpa [hhead] using hletters

theorem Magnitude.scan_text {magnitude : Magnitude} (hproper : magnitude.Proper)
    {rest : List Char} (hrest : numberMayEnd rest = true) :
    (scanRadix (magnitude.text ++ rest)).or (scanDecimal (magnitude.text ++ rest)) =
      some (magnitude, rest) := by
  cases magnitude with
  | inRadix radix digits => rw [scanRadix_text hproper hrest, Option.some_or]
  | decimal whole fraction exponent =>
    rw [scanRadix_decimal hproper hrest, scanDecimal_text hproper hrest, Option.none_or]

/-- A number starts with a digit or a point behind its sign. -/
theorem Magnitude.text_head {magnitude : Magnitude} (hproper : magnitude.Proper) :
    ∃ c text, magnitude.text = c :: text ∧ (isDecimalDigit c = true ∨ c = '.') := by
  cases magnitude with
  | inRadix radix digits => exact ⟨'0', _, rfl, .inl (by decide)⟩
  | decimal whole fraction exponent =>
    obtain ⟨hne, hdigits, -⟩ := hproper
    cases whole with
    | cons c whole => exact ⟨c, _, rfl, .inl (hdigits c (by simp))⟩
    | nil =>
      cases fraction with
      | some digits => exact ⟨'.', _, rfl, .inr rfl⟩
      | none => simp at hne

/-- The scanner finds a number in front of any text that may come after it. -/
theorem Numeral.scan_text {numeral : Numeral} (hproper : numeral.magnitude.Proper)
    {rest : List Char} (hrest : numberMayEnd rest = true) :
    Numeral.scan (numeral.text ++ rest) = some (numeral, rest) := by
  have hsign : scanSign (signText numeral.sign ++ (numeral.magnitude.text ++ rest)) =
      (numeral.sign, numeral.magnitude.text ++ rest) := by
    apply scanSign_signText
    intro c hc
    obtain ⟨x, text, htext, hx⟩ := Magnitude.text_head hproper
    obtain rfl : x = c := by simpa [htext] using hc
    constructor
    · rintro rfl
      exact absurd hx (by decide)
    · rintro rfl
      exact absurd hx (by decide)
  rw [text, List.append_assoc, scan]
  simp only [hsign, Magnitude.scan_text hproper hrest, Option.map_some]

theorem forall_mem_takeWhile (p : Char → Bool) (cs : List Char) :
    ∀ c ∈ cs.takeWhile p, p c = true :=
  List.all_eq_true.mp List.all_takeWhile

theorem scanRadix_proper {cs rest : List Char} {magnitude : Magnitude}
    (h : scanRadix cs = some (magnitude, rest)) :
    magnitude.Proper ∧ numberMayEnd rest = true := by
  unfold scanRadix at h
  split at h
  · rename_i letter cs
    cases hletter : Radix.ofLetter? letter with
    | none => simp [hletter] at h
    | some radix =>
      simp only [hletter] at h
      split at h
      · rename_i hdigits
        obtain ⟨rfl, rfl⟩ := Prod.mk.inj (Option.some.inj h)
        obtain ⟨hne, hend⟩ := Bool.and_eq_true_iff.mp hdigits
        exact ⟨⟨by simpa using hne, forall_mem_takeWhile _ _⟩, hend⟩
      · simp at h
  · simp at h

theorem scanFraction_proper (cs : List Char) :
    ∀ c ∈ (scanFraction cs).1.getD [], isDecimalDigit c = true := by
  unfold scanFraction
  split
  · exact forall_mem_takeWhile _ _
  · simp

theorem scanExponent_proper (cs : List Char) : ∀ e, (scanExponent cs).1 = some e → e.Proper := by
  intro e he
  cases cs with
  | nil => simp [scanExponent] at he
  | cons mark cs =>
    simp only [scanExponent] at he
    split at he
    · rename_i hmark
      obtain rfl := Option.some.inj he
      simp only [Bool.and_eq_true, Bool.or_eq_true, beq_iff_eq] at hmark
      exact ⟨hmark.1, by simpa using hmark.2, forall_mem_takeWhile _ _⟩
    · simp at he

theorem scanDecimal_proper {cs rest : List Char} {magnitude : Magnitude}
    (h : scanDecimal cs = some (magnitude, rest)) :
    magnitude.Proper ∧ numberMayEnd rest = true := by
  simp only [scanDecimal] at h
  split at h
  · rename_i hdigits
    obtain ⟨rfl, rfl⟩ := Prod.mk.inj (Option.some.inj h)
    obtain ⟨hsome, hend⟩ := Bool.and_eq_true_iff.mp hdigits
    refine ⟨⟨?_, ?_, scanExponent_proper _⟩, hend⟩
    · intro hnil
      obtain ⟨hwhole, hfraction⟩ := List.append_eq_nil_iff.mp hnil
      simp [hwhole, hfraction] at hsome
    · intro c hc
      rcases List.mem_append.mp hc with hc | hc
      · exact forall_mem_takeWhile _ _ c hc
      · exact scanFraction_proper _ c hc
  · simp at h

/-- The numbers that the scanner finds are those with a proper spelling, where they may end. -/
theorem Numeral.scan_eq_some_iff {cs rest : List Char} {numeral : Numeral} :
    Numeral.scan cs = some (numeral, rest) ↔
      numeral.text ++ rest = cs ∧ numeral.magnitude.Proper ∧ numberMayEnd rest = true := by
  constructor
  · intro h
    refine ⟨Numeral.scan_append h, ?_⟩
    simp only [scan, Option.map_eq_some_iff] at h
    obtain ⟨⟨magnitude, tail⟩, hscan, heq⟩ := h
    obtain ⟨rfl, rfl⟩ := Prod.mk.inj heq
    rcases Option.or_eq_some_iff.mp hscan with h | ⟨-, h⟩
    · exact scanRadix_proper h
    · exact scanDecimal_proper h
  · rintro ⟨rfl, hproper, hrest⟩
    exact Numeral.scan_text hproper hrest

/-! ### Keywords -/

theorem keywords_prefix_free : ∀ a ∈ keywords, ∀ b ∈ keywords, a.1 <+: b.1 → a = b := by decide

/-- A keyword is found in front of any text that does not carry it on. -/
theorem keywordAt?_append_eq {word : List Char} {meaning : Meaning}
    (hword : (word, meaning) ∈ keywords) {rest : List Char}
    (hrest : rest.head?.any isIdentifierContinue = false) :
    keywordAt? (word ++ rest) = some (word, meaning) := by
  have hhere : wordAt word (word ++ rest) = true := by
    simp only [wordAt, List.drop_left, hrest, Bool.not_false, Bool.and_true]
    exact List.isPrefixOf_iff_prefix.mpr (List.prefix_append word rest)
  cases hfound : keywordAt? (word ++ rest) with
  | none =>
    have hnone := List.find?_eq_none.mp hfound (word, meaning) hword
    exact absurd hhere hnone
  | some other =>
    have hmem : other ∈ keywords := List.mem_of_find?_eq_some hfound
    have hother : other.1 <+: word ++ rest := by
      have hat := List.find?_some hfound
      simp only [wordAt, Bool.and_eq_true, List.isPrefixOf_iff_prefix] at hat
      exact hat.1
    rcases List.prefix_or_prefix_of_prefix hother (List.prefix_append word rest) with h | h
    · rw [keywords_prefix_free other hmem (word, meaning) hword h]
    · rw [keywords_prefix_free (word, meaning) hword other hmem h]

/-- No keyword goes on with a digit or a point after its sign. -/
theorem keywordAt?_numeral {numeral : Numeral} (hproper : numeral.magnitude.Proper)
    (rest : List Char) : keywordAt? (numeral.text ++ rest) = none := by
  obtain ⟨c, text, htext, hc⟩ := Magnitude.text_head hproper
  have hletters : ∀ x ∈ ['t', 'f', 'n', 'u', 'I', 'N', '-', '+'], x ≠ c := by
    rintro x hx rfl
    have hall : (['t', 'f', 'n', 'u', 'I', 'N', '-', '+'].all fun x =>
        !isDecimalDigit x && x != '.') = true := by decide
    have hplain := List.all_eq_true.mp hall x hx
    rcases hc with hc | rfl
    · simp [hc] at hplain
    · simp at hplain
  simp only [List.forall_mem_cons] at hletters
  rw [Numeral.text, htext]
  cases numeral.sign with
  | none => simp [keywordAt?, keywords, wordAt, List.isPrefixOf, signText, hletters]
  | some sign =>
    cases sign with
    | plus => simp [keywordAt?, keywords, wordAt, List.isPrefixOf, signText, Sign.char, hletters]
    | minus => simp [keywordAt?, keywords, wordAt, List.isPrefixOf, signText, Sign.char, hletters]

theorem ScalarForm.literalAt?_eq (form : ScalarForm) {rest : List Char}
    (hrest : tokenMayEnd rest = true) :
    literalAt? (form.text ++ rest) = some (form.text, form.meaning, rest) := by
  have hword := head?_any_of_tokenMayEnd hrest fun _ => not_isIdentifierContinue_of_mem
  cases form with
  | keyword word meaning h =>
    simp only [text, ScalarForm.meaning, literalAt?, keywordAt?_append_eq h hword, List.drop_left]
  | number numeral hproper =>
    have hscan := Numeral.scan_text hproper (numberMayEnd_of_tokenMayEnd hrest)
    simp only [text, ScalarForm.meaning, literalAt?, keywordAt?_numeral hproper, hscan,
      Option.map_some]

theorem ScalarForm.scan_eq (form : ScalarForm) {c : Cursor} {rest : List Char}
    (hc : c.rest = form.text ++ rest) (hrest : tokenMayEnd rest = true) :
    ∃ scalar d, Scalar.scan c = some (scalar, d) ∧ scalar.erase = form.node ∧ d.1.rest = rest := by
  have hliteral := form.literalAt?_eq hrest
  rw [← hc] at hliteral
  unfold Scalar.scan
  split
  · rename_i hnone
    exact absurd (hliteral.symm.trans hnone) (by simp)
  · rename_i raw meaning tail hsome
    obtain ⟨rfl, rfl, rfl⟩ : raw = form.text ∧ meaning = form.meaning ∧ tail = rest := by
      simpa using hsome.symm.trans hliteral
    exact ⟨_, _, rfl, rfl, rfl⟩

/-! ### Identifiers -/

theorem IdentifierForm.scan_eq (form : IdentifierForm) {c : Cursor} {rest : List Char}
    (hc : c.rest = form.text ++ rest) (hrest : tokenMayEnd rest = true) :
    ∃ identifier d, Identifier.scan c = some (identifier, d) ∧
      identifier.erase = ⟨.erased, String.ofList form.text⟩ ∧ d.1.rest = rest := by
  have hstart : c.rest.head?.any isIdentifierStart = true := by
    simp [hc, text, form.hfirst]
  have hall : ∀ x ∈ form.text, isIdentifierContinue x = true := by
    intro x hx
    rcases List.mem_cons.mp hx with rfl | hx
    · exact isIdentifierContinue_of_start form.hfirst
    · exact form.hmore x hx
  have hend := head?_any_of_tokenMayEnd hrest fun _ => not_isIdentifierContinue_of_mem
  obtain ⟨hrun, hleft⟩ := Cursor.rest_matchWhile hc hall hend
  unfold Identifier.scan
  rw [dif_pos hstart]
  exact ⟨_, _, rfl, by simp [Identifier.erase, hrun], hleft⟩

end DataTemplate
