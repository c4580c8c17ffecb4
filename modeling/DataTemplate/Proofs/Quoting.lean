/-
Quoted literals of generated code.  A literal decodes to the text that it was made of, holds no
quote but behind a backslash and no two opening braces that the text does not hold, and is read back
as one static segment.  Main statements: `unescape_quoteBody` and `readText_quoted`.
-/
import DataTemplate.Proofs.Leaves
import DataTemplate.Text.Quoted

namespace DataTemplate

variable {σ : Type}

/-! ### Spellings of characters -/

theorem hexDigit_spec {n : Nat} (h : n < 16) :
    isHexDigit (hexDigit n) = true ∧ hexDigitValue (hexDigit n) = n := by
  have hall : ∀ m : Fin 16, isHexDigit (hexDigit m) = true ∧ hexDigitValue (hexDigit m) = m := by
    decide
  exact hall ⟨n, h⟩

/-- The ways to spell a character in a literal. -/
inductive Quoting (c : Char) : List Char → Prop
  | short (e : Char) (hdigits : escapeDigits e = 0) (hmeans : shortEscape e = c) :
      Quoting c ['\\', e]
  | control (h : c.toNat < 0x20) : Quoting c (controlEscape c)
  | plain (hquote : c ≠ '\x22') (hescape : c ≠ '\\') (h : 0x20 ≤ c.toNat) : Quoting c [c]

theorem quoteChar_quoting (c : Char) : Quoting c (quoteChar c) := by
  unfold quoteChar
  split
  · subst c; exact .short '\x22' rfl rfl
  split
  · subst c; exact .short '\\' rfl rfl
  split
  · subst c; exact .short 'n' rfl rfl
  split
  · subst c; exact .short 'r' rfl rfl
  split
  · subst c; exact .short 't' rfl rfl
  split
  · subst c; exact .short 'b' rfl rfl
  split
  · subst c; exact .short 'f' rfl rfl
  split
  · exact .control ‹_›
  · exact .plain ‹_› ‹_› (Nat.le_of_not_lt ‹_›)

theorem quoteChar_ne_nil (c : Char) : quoteChar c ≠ [] := by
  have hquoting := quoteChar_quoting c
  generalize quoteChar c = spelling at hquoting ⊢
  cases hquoting with
  | short => simp
  | control => simp [controlEscape]
  | plain => simp

theorem quoteBody_cons (c : Char) (text : List Char) :
    quoteBody (c :: text) = quoteChar c ++ quoteBody text := rfl

/-! ### Decoding -/

theorem unescape_escape {c : Char} (h : escapeDigits c = 0) (rest : List Char) :
    unescape ('\\' :: c :: rest) = shortEscape c :: unescape rest := by
  rw [unescape, if_pos rfl, decodeEscape, if_pos h]
  rfl

theorem charOfCode_toNat (c : Char) : charOfCode c.toNat = c := by
  have hvalid : c.toNat.isValidChar := c.valid
  rw [charOfCode, if_pos hvalid, Char.ofNat_toNat]

theorem toNat_not_surrogate (c : Char) : ¬ (0xD800 ≤ c.toNat ∧ c.toNat < 0xE000) := by
  have hvalid : c.toNat.isValidChar := c.valid
  unfold Nat.isValidChar at hvalid
  omega

/-- The code of a character is no half of a pair, so nothing behind it is looked at. -/
theorem charOfEscape_toNat (c : Char) (rest : List Char) :
    charOfEscape c.toNat rest = (c, rest) := by
  have hsurrogate := toNat_not_surrogate c
  rw [charOfEscape, if_neg (by simp; omega), charOfCode_toNat]

theorem decodeEscape_hex {e : Char} {code : Nat} {cs rest : List Char} (he : escapeDigits e ≠ 0)
    (hcode : hexCode? (escapeDigits e) cs = some (code, rest)) :
    decodeEscape (e :: cs) = ([(charOfEscape code rest).1], (charOfEscape code rest).2) := by
  rw [decodeEscape, if_neg he, hcode]

theorem hexCode?_control {n : Nat} (h : n < 0x20) (rest : List Char) :
    hexCode? 4 ('0' :: '0' :: hexDigit (n / 16) :: hexDigit (n % 16) :: rest) = some (n, rest) := by
  obtain ⟨hhigh, hhighValue⟩ := hexDigit_spec (n := n / 16) (by omega)
  obtain ⟨hlow, hlowValue⟩ := hexDigit_spec (n := n % 16) (by omega)
  have hzero : isHexDigit '0' = true ∧ hexDigitValue '0' = 0 := by decide
  have hvalue : 16 * (n / 16) + n % 16 = n := Nat.div_add_mod n 16
  simp [hexCode?, hexValue, hhigh, hhighValue, hlow, hlowValue, hzero, hvalue]

theorem unescape_controlEscape {c : Char} (h : c.toNat < 0x20) (rest : List Char) :
    unescape (controlEscape c ++ rest) = c :: unescape rest := by
  have hdecode := decodeEscape_hex (e := 'u') (by decide) (hexCode?_control h rest)
  rw [charOfEscape_toNat] at hdecode
  simp only [controlEscape, List.cons_append, List.nil_append]
  rw [unescape, if_pos rfl, hdecode]
  rfl

/-- Decoding takes the spelling of one character at a time. -/
theorem unescape_quoteChar (c : Char) (rest : List Char) :
    unescape (quoteChar c ++ rest) = c :: unescape rest := by
  have hquoting := quoteChar_quoting c
  generalize quoteChar c = spelling at hquoting ⊢
  cases hquoting with
  | short e hdigits hmeans =>
    rw [← hmeans]
    exact unescape_escape hdigits rest
  | control h => exact unescape_controlEscape h rest
  | plain _ hescape _ => rw [List.singleton_append, unescape, if_neg hescape]

/-- A literal decodes to the text that it was made of. -/
@[simp] theorem unescape_quoteBody (text : List Char) : unescape (quoteBody text) = text := by
  induction text with
  | nil => rw [quoteBody, List.flatMap_nil, unescape]
  | cons c text ih => rw [quoteBody_cons, unescape_quoteChar, ih]

/-! ### What a literal holds -/

theorem isStatic_quoteChar (c : Char) : isStatic ['\x22'] (quoteChar c) = true := by
  have hquoting := quoteChar_quoting c
  generalize quoteChar c = spelling at hquoting ⊢
  cases hquoting with
  | short e => simp [isStatic]
  | control h =>
    have hplain (n : Nat) (hn : n < 16) : hexDigit n ≠ '\\' ∧ hexDigit n ≠ '\x22' := by
      have hall : ∀ m : Fin 16, hexDigit m ≠ '\\' ∧ hexDigit m ≠ '\x22' := by decide
      exact hall ⟨n, hn⟩
    have hhigh := hplain (c.toNat / 16) (by omega)
    have hlow := hplain (c.toNat % 16) (by omega)
    simp [controlEscape, isStatic, hhigh, hlow]
  | plain hquote hescape _ => simp [isStatic, hquote, hescape]

/-- Between the quotes of a literal every quote stands behind a backslash. -/
theorem isStatic_quoteBody (text : List Char) : isStatic ['\x22'] (quoteBody text) = true := by
  induction text with
  | nil => rfl
  | cons c text ih => rw [quoteBody_cons, isStatic_append (isStatic_quoteChar c), ih]

theorem doubled_infix_cons {x y : Char} {ys : List Char} :
    [x, x] <:+: y :: ys ↔ (y = x ∧ ys.head? = some x) ∨ [x, x] <:+: ys := by
  rw [List.infix_cons_iff, List.cons_prefix_cons, List.singleton_prefix_iff_head?_eq_some]
  simp [eq_comm]

theorem doubled_infix_append {x : Char} {xs ys : List Char} (hx : x ∉ xs)
    (h : [x, x] <:+: xs ++ ys) : [x, x] <:+: ys := by
  induction xs with
  | nil => exact h
  | cons y xs ih =>
    obtain ⟨hy, hxs⟩ : x ≠ y ∧ x ∉ xs := by simpa using hx
    rw [List.cons_append, doubled_infix_cons] at h
    rcases h with ⟨heq, -⟩ | h
    · exact absurd heq.symm hy
    · exact ih hxs h

theorem brace_notMem_quoteChar {c : Char} (h : c ≠ '{') : '{' ∉ quoteChar c := by
  have hquoting := quoteChar_quoting c
  generalize quoteChar c = spelling at hquoting ⊢
  cases hquoting with
  | short e hdigits hmeans =>
    have he : '{' ≠ e := by
      rintro rfl
      exact h hmeans.symm
    simpa using he
  | control hcontrol =>
    have hall : ∀ m : Fin 16, '{' ≠ hexDigit m := by decide
    have hhigh := hall ⟨c.toNat / 16, by omega⟩
    have hlow := hall ⟨c.toNat % 16, by omega⟩
    simpa [controlEscape] using ⟨hhigh, hlow⟩
  | plain => simpa using h.symm

theorem quoteChar_brace : quoteChar '{' = ['{'] := by decide

theorem head?_quoteBody {text : List Char} (h : (quoteBody text).head? = some '{') :
    text.head? = some '{' := by
  cases text with
  | nil => simp [quoteBody] at h
  | cons c text =>
    by_cases hc : c = '{'
    · simp [hc]
    · have hne := quoteChar_ne_nil c
      obtain ⟨x, xs, hx⟩ := List.exists_cons_of_ne_nil hne
      have hmem : '{' ∈ quoteChar c := by
        rw [quoteBody_cons, hx] at h
        simp [hx, Option.some.inj h]
      exact absurd hmem (brace_notMem_quoteChar hc)

/-- A literal holds two opening braces in a row only where its text does. -/
theorem doubled_infix_quoteBody {text : List Char} (h : ['{', '{'] <:+: quoteBody text) :
    ['{', '{'] <:+: text := by
  induction text with
  | nil => simp [quoteBody] at h
  | cons c text ih =>
    rw [doubled_infix_cons]
    rw [quoteBody_cons] at h
    by_cases hc : c = '{'
    · subst hc
      rw [quoteChar_brace, List.singleton_append, doubled_infix_cons] at h
      rcases h with ⟨-, hhead⟩ | h
      · exact .inl ⟨rfl, head?_quoteBody hhead⟩
      · exact .inr (ih h)
    · exact .inr (ih (doubled_infix_append (brace_notMem_quoteChar hc) h))

/-! ### Reading literals -/

/-- A brace that stands alone opens no expression. -/
theorem readExpression_lone {c : Cursor} {rest : List Char} (hc : c.rest = '{' :: rest)
    (hlone : rest.head? ≠ some '{') (s : Session σ) : readExpression c s = (none, s) :=
  readExpression_eq_none (Expression.scan_eq_none_of_lone hc hlone) s

/-- Content without two opening braces in a row is one segment, which lone braces do not end. -/
theorem readContent_quoted {quote : Quote} (raw : List Char)
    (hstatic : isStatic [quote.char] raw = true) (hbraces : ¬ ['{', '{'] <:+: raw)
    {segment c : Cursor} {passed rest : List Char} (hpassed : segment.Moves passed c)
    {s : Session σ} (hplain : s.Plain) (hc : c.rest = raw ++ quote.char :: rest) :
    ∃ content d t, readContent (some quote) segment c s = (content, d, t) ∧
      content.closed = true ∧ content.first.erase = ⟨.erased, String.ofList (passed ++ raw)⟩ ∧
      content.more = [] ∧ d.1.rest = rest ∧ t.Plain := by
  have hescape : '\\' ∉ [quote.char, '{'] := by cases quote <;> decide
  have hquote : quote.char ∈ [quote.char, '{'] := by simp
  have hbrace : '{' ∈ [quote.char, '{'] := by simp
  have hother : ([quote.char] == ['{']) = false := by cases quote <;> decide
  rw [readContent]
  rcases isStatic_split (x := '{') (by decide) hstatic with
    hwhole | ⟨before, after, hsplit, hbefore, hafter⟩
  · have hsearch := search_static hescape hquote hwhole rest
    rw [← hc, ← contentNeedles_eq] at hsearch
    obtain ⟨hit, hfind, rfl, hneedle, hrest⟩ := Cursor.find_of_search hsearch
    simp only [hfind, hneedle, hother]
    refine ⟨_, _, _, rfl, rfl, ?_, rfl, hrest, hplain.observe _⟩
    simp only [segmentBetween, (hpassed.trans hit.reach).textTo_eq, Segment.erase]
  · have htext : c.rest = before ++ '{' :: (after ++ quote.char :: rest) := by
      rw [hc, hsplit]
      simp
    have hsearch := search_static hescape hbrace hbefore
      (after ++ quote.char :: rest)
    rw [← htext, ← contentNeedles_eq] at hsearch
    obtain ⟨hit, hfind, hreach, hneedle, hrest⟩ := Cursor.find_of_search hsearch
    have hlone : (after ++ quote.char :: rest).head? ≠ some '{' := by
      cases after with
      | nil => cases quote <;> simp [Quote.char]
      | cons y after =>
        rintro hy
        apply hbraces
        obtain rfl : y = '{' := by simpa using hy
        exact ⟨before, after, by simp [hsplit]⟩
    have hstart : hit.start.rest = '{' :: (after ++ quote.char :: rest) := by
      rw [hit.rest_start, hneedle, hrest]
      rfl
    have hmoves : segment.Moves (passed ++ before ++ ['{']) hit.stop := by
      have hspell := hit.reach.trans hit.spell
      rw [hneedle, hreach] at hspell
      simpa using hpassed.trans hspell
    have hpart : after <:+: raw := ⟨before ++ ['{'], [], by simp [hsplit]⟩
    have hfewer : ¬ ['{', '{'] <:+: after := fun h => hbraces (h.trans hpart)
    obtain ⟨content, d, t, hread, hclosed, hfirst, hmore, hd, ht⟩ :=
      readContent_quoted after hafter hfewer hmoves hplain hrest
    simp only [hfind, hneedle, readExpression_lone hstart hlone, hread]
    exact ⟨content, _, t, rfl, hclosed, by simpa [hsplit] using hfirst, hmore, hd, ht⟩
termination_by raw.length
decreasing_by
  simp [hsplit]
  omega

/-- A quoted literal without two opening braces in a row is read as one static segment. -/
theorem readText_quoted {quote : Quote} {raw : List Char}
    (hstatic : isStatic [quote.char] raw = true) (hbraces : ¬ ['{', '{'] <:+: raw)
    {c : Cursor} {rest : List Char} {s : Session σ} (hplain : s.Plain)
    (hc : c.rest = quote.char :: (raw ++ quote.char :: rest)) :
    Yields (readText c s) Text.erase
      ⟨.erased, some quote, ⟨.erased, String.ofList raw⟩, []⟩ rest := by
  have hquote : c.quote? = some quote := by simp [Cursor.quote?, hc, Quote.ofChar?_char]
  have hread := readText_read c s
  generalize readText c s = reading at hread ⊢
  cases hread with
  | @static quote' raw' d text t hhere hraw hbrace hfinish =>
    obtain rfl : quote' = quote := Option.some.inj (hhere.symm.trans hquote)
    have hescape : '\\' ∉ [quote'.char] := by cases quote' <;> decide
    have hfound := Cursor.matchQuoted_search hraw hc
    have hsearch := search_static hescape (List.mem_singleton.mpr rfl) hstatic rest
    obtain ⟨rfl, -, hrest⟩ := Occurrence.mk.inj (Option.some.inj (hfound.symm.trans hsearch))
    obtain ⟨rfl, rfl⟩ := Prod.mk.inj hfinish
    exact ⟨_, d, _, rfl, rfl, hrest, (hplain.observe _).observe _⟩
  | @content quote' inner content d text u t hhere hinner hcontent hfinish hd =>
    obtain rfl : quote' = quote := Option.some.inj (hhere.symm.trans hquote)
    have hrest : inner.rest = raw ++ quote'.char :: rest := by
      have htext := hinner.rest_eq
      rw [hc] at htext
      simpa using htext.symm
    obtain ⟨content', d', u', hcontent', hclosed, hfirst, hmore, hlast, hdone⟩ :=
      readContent_quoted raw hstatic hbraces (Cursor.Moves.refl inner) hplain hrest
    obtain ⟨rfl, hrest'⟩ := Prod.mk.inj (hcontent.symm.trans hcontent')
    obtain ⟨rfl, rfl⟩ := Prod.mk.inj hrest'
    obtain ⟨rfl, rfl⟩ := Prod.mk.inj hfinish
    refine ⟨_, _, _, rfl, ?_, hlast, ?_⟩
    · simp only [Text.erase, hmore, hfirst, List.nil_append, List.map_nil]
    · rw [hclosed]
      exact hdone.observe _
  | none hnone => simp [hnone] at hquote

end DataTemplate
