/-
Quoted literals beside the rules of JSON.  A relation says what the body of a JSON string stands for;
the reader of JSON text decodes every string of that relation, and a literal of generated code is one
of them.  Main statements: `JsonString.unique`, `JsonString.read_eq`, `jsonString_quoteBody` and
`quoteText_literal`.
-/
import DataTemplate.Json.Source
import DataTemplate.Proofs.Code
import DataTemplate.Proofs.ProblemOrder
import DataTemplate.Proofs.Standalone
import DataTemplate.Proofs.TextContent

namespace DataTemplate

variable {body text : List Char}

/-! ### Strings of JSON -/

/-- The short escapes of JSON: the character behind the backslash, and what it stands for. -/
def jsonEscapes : List (Char × Char) := [
  ('\x22', '\x22'), ('\\', '\\'), ('/', '/'), ('b', '\x08'), ('f', '\x0c'), ('n', '\n'),
  ('r', '\r'), ('t', '\t')]

/-- Four hexadecimal digits with a value. -/
structure FourDigits (digits : List Char) (value : Nat) : Prop where
  length_eq : digits.length = 4
  hexadecimal : digits.all isHexDigit = true
  value_eq : hexValue digits = value

/-- What the text between the quotes of a JSON string stands for.  A character beyond the first
plane is written as the two halves of its surrogate pair. -/
inductive JsonString : List Char → List Char → Prop
  | nil : JsonString [] []
  | plain {c : Char} {body text : List Char} (hquote : c ≠ '\x22') (hescape : c ≠ '\\')
      (hcontrol : 0x20 ≤ c.toNat) (h : JsonString body text) : JsonString (c :: body) (c :: text)
  | short {e c : Char} {body text : List Char} (he : (e, c) ∈ jsonEscapes)
      (h : JsonString body text) : JsonString ('\\' :: e :: body) (c :: text)
  | code {digits : List Char} {c : Char} {body text : List Char}
      (hdigits : FourDigits digits c.toNat) (h : JsonString body text) :
      JsonString ('\\' :: 'u' :: (digits ++ body)) (c :: text)
  | pair {high low : List Char} {c : Char} {body text : List Char} {first second : Nat}
      (hhigh : FourDigits high first) (hfirst : 0xD800 ≤ first ∧ first < 0xDC00)
      (hlow : FourDigits low second) (hsecond : 0xDC00 ≤ second ∧ second < 0xE000)
      (hvalue : c.toNat = 0x10000 + (first - 0xD800) * 0x400 + (second - 0xDC00))
      (h : JsonString body text) :
      JsonString ('\\' :: 'u' :: (high ++ '\\' :: 'u' :: (low ++ body))) (c :: text)

theorem FourDigits.eq_cons {digits : List Char} {value : Nat} (h : FourDigits digits value) :
    ∃ a b c d, digits = [a, b, c, d] := by
  match digits, h.length_eq with
  | [a, b, c, d], _ => exact ⟨a, b, c, d, rfl⟩

theorem FourDigits.hexCode?_eq {digits : List Char} {value : Nat} (h : FourDigits digits value)
    (rest : List Char) : hexCode? 4 (digits ++ rest) = some (value, rest) := by
  rw [hexCode?, ← h.length_eq, List.take_left, List.drop_left]
  simp [h.hexadecimal, h.value_eq]

/-- The same place cannot hold two codes. -/
theorem FourDigits.append_inj {xs ys body rest : List Char} {x y : Nat} (hx : FourDigits xs x)
    (hy : FourDigits ys y) (h : xs ++ body = ys ++ rest) : x = y ∧ body = rest := by
  obtain ⟨rfl, rfl⟩ := List.append_inj h (hx.length_eq.trans hy.length_eq.symm)
  exact ⟨hx.value_eq.symm.trans hy.value_eq, rfl⟩

theorem jsonEscapes_of_mem {e c : Char} (h : (e, c) ∈ jsonEscapes) :
    JsonSource.isShortEscape e = true ∧ e ≠ 'u' ∧ escapeDigits e = 0 ∧ shortEscape e = c := by
  have hall : ∀ entry ∈ jsonEscapes, JsonSource.isShortEscape entry.1 = true ∧ entry.1 ≠ 'u' ∧
      escapeDigits entry.1 = 0 ∧ shortEscape entry.1 = entry.2 := by decide
  exact hall (e, c) h

/-- The body of a JSON string stands for one text only. -/
theorem JsonString.unique {other : List Char} (h : JsonString body text)
    (k : JsonString body other) : text = other := by
  induction h generalizing other with
  | nil =>
    cases k
    rfl
  | plain _ hescape _ _ ih =>
    cases k with
    | plain _ _ _ k => rw [ih k]
    | short | code | pair => exact absurd rfl hescape
  | short he _ ih =>
    obtain ⟨-, hu, -, hmeans⟩ := jsonEscapes_of_mem he
    cases k with
    | plain _ hescape => exact absurd rfl hescape
    | short he' k => rw [← hmeans, (jsonEscapes_of_mem he').2.2.2, ih k]
    | code | pair => exact absurd rfl hu
  | @code digits c body text hdigits _ ih =>
    generalize hspelled : digits ++ body = spelled at k
    cases k with
    | plain _ hescape => exact absurd rfl hescape
    | short he => exact absurd rfl (jsonEscapes_of_mem he).2.1
    | code hdigits' k =>
      obtain ⟨hvalue, rfl⟩ := hdigits.append_inj hdigits' hspelled
      rw [Char.toNat_inj.mp hvalue, ih k]
    | pair hhigh hfirst =>
      -- one code of four digits is a character, the first of a pair is none
      obtain ⟨hvalue, -⟩ := hdigits.append_inj hhigh hspelled
      exact absurd ⟨by omega, by omega⟩ (toNat_not_surrogate c)
  | @pair high low c body text first second hhigh hfirst hlow hsecond hvalue _ ih =>
    generalize hspelled : high ++ '\\' :: 'u' :: (low ++ body) = spelled at k
    cases k with
    | plain _ hescape => exact absurd rfl hescape
    | short he => exact absurd rfl (jsonEscapes_of_mem he).2.1
    | @code _ c' _ _ hdigits =>
      obtain ⟨hsame, -⟩ := hhigh.append_inj hdigits hspelled
      exact absurd ⟨by omega, by omega⟩ (toNat_not_surrogate c')
    | pair hhigh' _ hlow' _ hvalue' k =>
      obtain ⟨rfl, htail⟩ := hhigh.append_inj hhigh' hspelled
      obtain ⟨rfl, rfl⟩ := hlow.append_inj hlow' (List.cons.inj (List.cons.inj htail).2).2
      rw [Char.toNat_inj.mp (hvalue.trans hvalue'.symm), ih k]

theorem JsonString.append {body' text' : List Char} (h : JsonString body text)
    (k : JsonString body' text') : JsonString (body ++ body') (text ++ text') := by
  induction h with
  | nil => exact k
  | plain hquote hescape hcontrol _ ih => exact .plain hquote hescape hcontrol ih
  | short he _ ih => exact .short he ih
  | code hdigits _ ih =>
    rw [List.cons_append, List.cons_append, List.append_assoc]
    exact .code hdigits ih
  | pair hhigh hfirst hlow hsecond hvalue _ ih =>
    simp only [List.cons_append, List.append_assoc]
    exact .pair hhigh hfirst hlow hsecond hvalue ih

theorem toNat_of_isHexDigit {c : Char} (h : isHexDigit c = true) : 0x20 ≤ c.toNat := by
  simp only [isHexDigit, isDecimalDigit, Bool.or_eq_true, Bool.and_eq_true, decide_eq_true_eq,
    Char.le_def, UInt32.le_iff_toNat_le] at h
  change (48 ≤ c.toNat ∧ _ ∨ 97 ≤ c.toNat ∧ _) ∨ 65 ≤ c.toNat ∧ _ at h
  omega

/-- No JSON string holds a control character. -/
theorem JsonString.no_control (h : JsonString body text) : ∀ c ∈ body, 0x20 ≤ c.toNat := by
  have hescape : 0x20 ≤ '\\'.toNat := by decide
  have hunicode : 0x20 ≤ 'u'.toNat := by decide
  have hfour {digits : List Char} {value : Nat} (hdigits : FourDigits digits value) :
      ∀ c ∈ digits, 0x20 ≤ c.toNat := fun c hc =>
    toNat_of_isHexDigit (List.all_eq_true.mp hdigits.hexadecimal c hc)
  induction h with
  | nil => simp
  | plain _ _ hcontrol _ ih => exact List.forall_mem_cons.mpr ⟨hcontrol, ih⟩
  | short he _ ih =>
    have hall : ∀ entry ∈ jsonEscapes, 0x20 ≤ entry.1.toNat := by decide
    exact List.forall_mem_cons.mpr ⟨hescape, List.forall_mem_cons.mpr ⟨hall _ he, ih⟩⟩
  | code hdigits _ ih =>
    simp only [List.forall_mem_cons, List.forall_mem_append]
    exact ⟨hescape, hunicode, hfour hdigits, ih⟩
  | pair hhigh _ hlow _ _ _ ih =>
    simp only [List.forall_mem_cons, List.forall_mem_append]
    exact ⟨hescape, hunicode, hfour hhigh, hescape, hunicode, hfour hlow, ih⟩

/-! ### Reading JSON -/

theorem FourDigits.scanString_eq {digits : List Char} {value : Nat} (h : FourDigits digits value)
    (cs : List Char) :
    JsonSource.scanString ('\\' :: 'u' :: (digits ++ cs)) =
      (JsonSource.scanString cs).map fun (body, rest) => ('\\' :: 'u' :: (digits ++ body), rest) := by
  obtain ⟨a, b, c, d, rfl⟩ := h.eq_cons
  have hall := h.hexadecimal
  simp only [List.cons_append, List.nil_append]
  rw [JsonSource.scanString, if_pos hall]

/-- The reader of JSON text takes the body of a string up to its closing quote. -/
theorem JsonString.scanString_eq (h : JsonString body text) (rest : List Char) :
    JsonSource.scanString (body ++ '\x22' :: rest) = some (body, rest) := by
  induction h with
  | nil => rw [List.nil_append, JsonSource.scanString]
  | plain hquote hescape hcontrol _ ih =>
    have hlarge := Nat.not_lt.mpr hcontrol
    rw [List.cons_append, JsonSource.scanString] <;> simp_all
  | short he _ ih =>
    obtain ⟨hshort, hu, -, -⟩ := jsonEscapes_of_mem he
    rw [List.cons_append, List.cons_append, JsonSource.scanString] <;> simp_all
  | code hdigits _ ih =>
    rw [List.cons_append, List.cons_append, List.append_assoc, hdigits.scanString_eq, ih,
      Option.map_some]
  | pair hhigh _ hlow _ _ _ ih =>
    simp only [List.cons_append, List.append_assoc]
    rw [hhigh.scanString_eq, hlow.scanString_eq, ih, Option.map_some, Option.map_some]

theorem charOfCode_of_toNat {c : Char} {code : Nat} (h : c.toNat = code) : charOfCode code = c :=
  h ▸ charOfCode_toNat c

/-- Four digits stand for the character with their value. -/
theorem decodeEscape_code {digits : List Char} {c : Char} (hdigits : FourDigits digits c.toNat)
    (rest : List Char) : decodeEscape ('u' :: (digits ++ rest)) = ([c], rest) := by
  rw [decodeEscape_hex (e := 'u') (by decide) (hdigits.hexCode?_eq rest), charOfEscape_toNat]

theorem FourDigits.lowSurrogate?_eq {digits : List Char} {value : Nat}
    (h : FourDigits digits value) (hlow : 0xDC00 ≤ value ∧ value < 0xE000) (rest : List Char) :
    lowSurrogate? ('\\' :: 'u' :: (digits ++ rest)) = some (value, rest) := by
  rw [lowSurrogate?, h.hexCode?_eq rest]
  simp [hlow]

/-- The two halves of a surrogate pair stand for one character. -/
theorem decodeEscape_pair {high low : List Char} {c : Char} {first second : Nat}
    (hhigh : FourDigits high first) (hfirst : 0xD800 ≤ first ∧ first < 0xDC00)
    (hlow : FourDigits low second) (hsecond : 0xDC00 ≤ second ∧ second < 0xE000)
    (hvalue : c.toNat = 0x10000 + (first - 0xD800) * 0x400 + (second - 0xDC00))
    (rest : List Char) :
    decodeEscape ('u' :: (high ++ '\\' :: 'u' :: (low ++ rest))) = ([c], rest) := by
  have hchar : charOfEscape first ('\\' :: 'u' :: (low ++ rest)) = (c, rest) := by
    rw [charOfEscape, if_pos (by simp [hfirst]), hlow.lowSurrogate?_eq hsecond]
    simp only [charOfCode_of_toNat hvalue]
  rw [decodeEscape_hex (e := 'u') (by decide) (hhigh.hexCode?_eq _), hchar]

/-- The reader of JSON text decodes a string to the text that it stands for. -/
theorem JsonString.decodeString_eq (h : JsonString body text) :
    JsonSource.decodeString body = some text := by
  induction h with
  | nil => rw [JsonSource.decodeString]
  | plain _ hescape _ _ ih => rw [JsonSource.decodeString, if_neg hescape, ih, Option.map_some]
  | @short e c body text he _ ih =>
    obtain ⟨-, hu, hdigits, hmeans⟩ := jsonEscapes_of_mem he
    have hlone : JsonSource.loneSurrogateAt ('\\' :: e :: body) = false := by
      unfold JsonSource.loneSurrogateAt
      split <;> simp_all
    have hescape : decodeEscape (e :: body) = ([c], body) := by
      rw [decodeEscape, if_pos hdigits, hmeans]
    rw [JsonSource.decodeString, if_pos rfl, if_neg (by simp [hlone]), hescape, ih]
    rfl
  | @code digits c body text hdigits _ ih =>
    have hcode := hdigits.hexCode?_eq body
    have hplain : ¬ (0xD800 ≤ c.toNat ∧ c.toNat < 0xE000) := toNat_not_surrogate c
    have hlone : JsonSource.loneSurrogateAt ('\\' :: 'u' :: (digits ++ body)) = false := by
      simp only [JsonSource.loneSurrogateAt, hcode]
      split
      · rename_i hsurrogate
        simp at hsurrogate
        omega
      · simp
        omega
    rw [JsonSource.decodeString, if_pos rfl, if_neg (by simp [hlone]),
      decodeEscape_code hdigits body, ih]
    rfl
  | @pair high low c body text first second hhigh hfirst hlow hsecond hvalue _ ih =>
    have hcode := hhigh.hexCode?_eq ('\\' :: 'u' :: (low ++ body))
    have hsurrogate := hlow.lowSurrogate?_eq hsecond body
    have hlone : JsonSource.loneSurrogateAt
        ('\\' :: 'u' :: (high ++ '\\' :: 'u' :: (low ++ body))) = false := by
      simp [JsonSource.loneSurrogateAt, hcode, hfirst, hsurrogate]
    rw [JsonSource.decodeString, if_pos rfl, if_neg (by simp [hlone]),
      decodeEscape_pair hhigh hfirst hlow hsecond hvalue body, ih]
    rfl

theorem scanValue_string {cs inner rest : List Char}
    (hskip : JsonSource.skipSpace cs = '\x22' :: inner)
    (hscan : JsonSource.scanString inner = some (body, rest)) :
    ∃ hlt, JsonSource.scanValue cs = some (.string body, ⟨rest, hlt⟩) := by
  rw [JsonSource.scanValue]
  split
  · simp_all
  · simp_all
  · rename_i inner' hinner'
    obtain rfl : inner' = inner := by simpa [hskip] using hinner'.symm
    split
    · simp_all
    · rename_i body' rest' hbody
      obtain ⟨rfl, rfl⟩ : body' = body ∧ rest' = rest := by simpa [hscan] using hbody.symm
      exact ⟨Nat.lt_trans (JsonSource.scanString_length_lt hscan)
        (JsonSource.length_lt_of_skipSpace hskip), rfl⟩
  · simp_all

/-- A JSON text that is one string is read as the text that the string stands for. -/
theorem JsonString.read_eq (h : JsonString body text) :
    (JsonSource.read ('\x22' :: (body ++ ['\x22']))).bind JsonSource.text? =
      some (String.ofList text) := by
  have hskip : JsonSource.skipSpace ('\x22' :: (body ++ ['\x22'])) =
      '\x22' :: (body ++ ['\x22']) := by
    simp [JsonSource.skipSpace, JsonSource.isJsonSpace]
  obtain ⟨hlt, hvalue⟩ := scanValue_string hskip (h.scanString_eq [])
  have hread : JsonSource.read ('\x22' :: (body ++ ['\x22'])) = some (.string body) := by
    simp only [JsonSource.read, hvalue]
    rfl
  rw [hread, Option.bind_some, JsonSource.text?, h.decodeString_eq, Option.map_some]

/-! ### Literals -/

theorem controlDigits {c : Char} (h : c.toNat < 0x20) :
    FourDigits ['0', '0', hexDigit (c.toNat / 16), hexDigit (c.toNat % 16)] c.toNat := by
  have hcode := hexCode?_control h []
  simp only [hexCode?] at hcode
  split at hcode
  · rename_i hdigits
    exact ⟨rfl, (Bool.and_eq_true _ _ ▸ hdigits).2, (Prod.mk.inj (Option.some.inj hcode)).1⟩
  · simp at hcode

/-- The spelling of a character in a literal is a JSON string. -/
theorem jsonString_quoteChar (c : Char) : JsonString (quoteChar c) [c] := by
  have hshort {e c : Char} (he : (e, c) ∈ jsonEscapes) : JsonString ['\\', e] [c] :=
    .short he .nil
  unfold quoteChar
  split
  · subst c; exact hshort (by decide)
  split
  · subst c; exact hshort (by decide)
  split
  · subst c; exact hshort (by decide)
  split
  · subst c; exact hshort (by decide)
  split
  · subst c; exact hshort (by decide)
  split
  · subst c; exact hshort (by decide)
  split
  · subst c; exact hshort (by decide)
  split
  · exact .code (controlDigits ‹_›) .nil
  · exact .plain ‹_› ‹_› (Nat.le_of_not_lt ‹_›) .nil

/-- A literal is a JSON string that stands for the text that it was made of. -/
theorem jsonString_quoteBody (text : List Char) : JsonString (quoteBody text) text := by
  induction text with
  | nil => exact .nil
  | cons c text ih =>
    rw [quoteBody_cons]
    exact (jsonString_quoteChar c).append ih

/-- A quote in a literal is hidden by a backslash, and the one behind the literal is not. -/
theorem quoteBody_not_openAt (text before : List Char) :
    ¬ OpenAt '\x22' before (quoteBody text) := by
  rintro ⟨hbefore, after, hsplit⟩
  have hescape : '\\' ∉ ['\x22'] := by decide
  have hsearch := search_static hescape (List.mem_singleton.mpr rfl) (isStatic_quoteBody text) []
  have hopen : OpenAt '\x22' before (quoteBody text ++ ['\x22']) :=
    ⟨hbefore, after ++ ['\x22'], by rw [hsplit, List.append_assoc, List.cons_append]⟩
  obtain ⟨found, hfound, hle⟩ := search_openAt hescape (List.mem_singleton.mpr rfl) hopen
  obtain rfl := Option.some.inj (hsearch.symm.trans hfound)
  have hlength := congrArg List.length hsplit
  simp only [List.length_append, List.length_cons] at hlength
  dsimp only at hle
  omega

theorem exposes_quoteBody (text : List Char) : Exposes (quoteBody text) :=
  exposes_iff.mpr (isStatic_mono (by simp) (isStatic_quoteBody text))

/-- A document is one quoted string with a single segment, which says the text. -/
def ReadsAsText (source : String) (text : List Char) : Prop :=
  ∃ document t segment, parse {} source = .ok document ∧ document.root = some (.text t) ∧
    document.problems = [] ∧ document.readAsString = false ∧
    t.span = ⟨0, source.utf8ByteSize⟩ ∧ t.quote = some .double ∧ t.parts = [.segment segment] ∧
    t.isDynamic = false ∧ unescape segment.raw.toList = text

/-- A document that is a literal without two opening braces in a row is one static string. -/
theorem parse_quoteText (h : ¬ ['{', '{'] <:+: text) : ReadsAsText (quoteText text) text := by
  let source : List Char := '\x22' :: (quoteBody text ++ ['\x22'])
  have hquoted : quoteText text = String.ofList source := rfl
  obtain ⟨s, hplain, -, hparse⟩ := parse_of_readValue {} source rfl
  have hbraces : ¬ ['{', '{'] <:+: quoteBody text := fun hbody => h (doubled_infix_quoteBody hbody)
  have hstatic : isStatic [Quote.double.char] (quoteBody text) = true := isStatic_quoteBody text
  obtain ⟨t, d, u, hread, hshape, hend, hclean⟩ :=
    readText_quoted hstatic hbraces hplain (c := .ofText source) rfl
  have hvalue : readValue (.ofText source) s = (some (.text t, d), u) := by
    rw [readValue_eq, hread]
    rfl
  obtain ⟨document, hdocument, hroot, -, -, hproblems, hkept⟩ :=
    hparse hvalue hend (.inl hclean.none_met)
  have hspan : t.span = ⟨0, (quoteText text).utf8ByteSize⟩ := by
    have hstop := Cursor.position_of_end hend
    rw [Cursor.source_eq_of_lt d.2] at hstop
    rw [hquoted, utf8ByteSize_ofList, (readText_spans hread).span_eq, hstop]
    rfl
  obtain ⟨span, quote, first, more⟩ := t
  obtain ⟨-, rfl, hfirst, hmore⟩ := Text.mk.inj hshape
  obtain rfl : more = [] := List.map_eq_nil_iff.mp hmore
  refine ⟨document, _, first, hdocument, hroot, ?_, hkept, hspan, rfl, rfl, rfl, ?_⟩
  · rw [hproblems, hclean.none_met]
  · rw [(Segment.mk.inj hfirst).2, String.toList_ofList, unescape_quoteBody]

/-- The literal of a text: it stands between two quotes, holds no other quote in the open and no
control character, and says the text to the notation and to JSON. -/
theorem quoteText_literal (text : List Char) :
    ∃ body, (quoteText text).toList = '\x22' :: (body ++ ['\x22']) ∧
      (∀ before, ¬ OpenAt '\x22' before body) ∧ Exposes body ∧ (∀ c ∈ body, 0x20 ≤ c.toNat) ∧
      unescape body = text ∧ (∀ other, JsonString body other ↔ other = text) ∧
      (JsonSource.read (quoteText text).toList).bind JsonSource.text? = some (String.ofList text) ∧
      (¬ ['{', '{'] <:+: text → ReadsAsText (quoteText text) text) := by
  have htext := quoteText_toList text
  have hjson := jsonString_quoteBody text
  refine ⟨quoteBody text, htext, quoteBody_not_openAt text, exposes_quoteBody text,
    hjson.no_control, unescape_quoteBody text, fun other => ⟨?_, ?_⟩, ?_,
    parse_quoteText⟩
  · exact fun hother => hother.unique hjson
  · rintro rfl
    exact hjson
  · rw [htext]
    exact hjson.read_eq

/-- A text that looks like an escaped quote, with a quote behind it, is what its literal says. -/
theorem quoteText_literal_escape :
    ReadsAsText (quoteText ['\\', 'x', '2', '2', '\x22']) ['\\', 'x', '2', '2', '\x22'] := by
  have hbraces : ¬ ['{', '{'] <:+: ['\\', 'x', '2', '2', '\x22'] := by decide
  obtain ⟨_, -, -, -, -, -, -, -, hreads⟩ := quoteText_literal ['\\', 'x', '2', '2', '\x22']
  exact hreads hbraces

end DataTemplate
