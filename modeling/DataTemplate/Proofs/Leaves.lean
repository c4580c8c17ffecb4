/-
Leaves of a printed document are read back.  At the spelling of an expression, a string, a key, a
keyword or a number the reader gives its node and stops right behind it.  Main statements:
`readExpression_yields`, `readText_yields` and `readKey_yields`.
-/
import DataTemplate.Proofs.Progress

namespace DataTemplate

variable {σ : Type}

/-- A rule found what, without positions, is `node`, and stopped in front of `rest`. -/
def Yields {α β : Type} {c : Cursor} (reading : Reading σ α c) (erase : α → β) (node : β)
    (rest : List Char) : Prop :=
  ∃ a d t, reading = (some (a, d), t) ∧ erase a = node ∧ d.1.rest = rest ∧ t.Plain

/-! ### Expressions -/

theorem readExpression_eq_none {c : Cursor} (h : Expression.scan c = none) (s : Session σ) :
    readExpression c s = (none, s) := by
  unfold readExpression
  rw [h]

theorem readExpression_of_scan {c : Cursor} {e : Expression} {d : c.After}
    (h : Expression.scan c = some (e, d)) (s : Session σ) : readExpression c s =
      (some ((s.finishExpression e).1, d), (s.finishExpression e).2) := by
  unfold readExpression
  rw [h]

theorem readExpression_yields (form : Braced) {c : Cursor} {rest : List Char} {s : Session σ}
    (hplain : s.Plain) (hc : c.rest = form.text ++ rest) :
    Yields (readExpression c s) Expression.erase form.node rest := by
  obtain ⟨e, d, hscan, he, hrest⟩ := form.scan_eq hc
  obtain ⟨hsame, hfinish⟩ := hplain.finishExpression e
  refine ⟨(s.finishExpression e).1, d, (s.finishExpression e).2, readExpression_of_scan hscan s, ?_,
    hrest, hfinish⟩
  rw [hsame, he]

/-! ### Strings -/

/-- The content of a string, without positions. -/
structure Content.Spells {quote : Quote} (content : Content) (first : StaticText quote)
    (more : List (Braced × StaticText quote)) : Prop where
  closed : content.closed = true
  first_eq : content.first.erase = first.node
  more_eq : content.more.map (fun (e, s) => (e.erase, s.erase)) =
    more.map fun (e, s) => (e.node, s.node)

theorem segmentBetween_erase {quote : Quote} {c d : Cursor} {form : StaticText quote}
    (h : c.Moves form.1 d) : (segmentBetween c d).erase = form.node := by
  simp only [segmentBetween, h.textTo_eq]
  rfl

theorem contentNeedles_eq (quote : Quote) :
    contentNeedles (some quote) = [quote.char, '{'].map fun stop => [stop] := rfl

/-- The first interruption of static text is found right behind it. -/
theorem find_static {quote : Quote} (form : StaticText quote) {stop : Char}
    (hstop : stop ∈ [quote.char, '{']) {c : Cursor} {rest : List Char}
    (hc : c.rest = form.1 ++ stop :: rest) :
    ∃ hit, c.find (contentNeedles (some quote)) (some '\\') = some hit ∧
      hit.before = form.1 ∧ hit.needle = [stop] ∧ hit.stop.rest = rest := by
  have hescape : '\\' ∉ [quote.char, '{'] := by cases quote <;> decide
  have hsearch := search_static hescape hstop form.2 rest
  rw [← hc, ← contentNeedles_eq] at hsearch
  exact Cursor.find_of_search hsearch

theorem readContent_spells {quote : Quote} (more : List (Braced × StaticText quote))
    {first : StaticText quote} {c : Cursor} {rest : List Char} {s : Session σ} (hplain : s.Plain)
    (hc : c.rest = first.1 ++ (TextForm.moreText more ++ quote.char :: rest)) :
    (readContent (some quote) c c s).1.Spells first more ∧
      (readContent (some quote) c c s).2.1.1.rest = rest ∧
      (readContent (some quote) c c s).2.2.Plain := by
  induction more generalizing first c s with
  | nil =>
    obtain ⟨hit, hfind, hbefore, hneedle, hrest⟩ := find_static first (by simp) hc
    have hquote : ([quote.char] == ['{']) = false := by cases quote <;> decide
    have hreach := hit.reach
    rw [hbefore] at hreach
    rw [readContent]
    simp only [hfind, hneedle, hquote]
    exact ⟨⟨rfl, segmentBetween_erase hreach, rfl⟩, hrest, hplain.observe _⟩
  | cons part more ih =>
    obtain ⟨e, next⟩ := part
    obtain ⟨tail, htail⟩ := e.text_eq
    have hbrace : c.rest = first.1 ++ '{' :: ('{' :: tail ++
        (next.1 ++ (TextForm.moreText more ++ quote.char :: rest))) := by
      rw [hc]
      simp [TextForm.moreText, htail]
    obtain ⟨hit, hfind, hbefore, hneedle, hrest⟩ := find_static first (by simp) hbrace
    have hstart : hit.start.rest =
        e.text ++ (next.1 ++ (TextForm.moreText more ++ quote.char :: rest)) := by
      rw [hit.rest_start, hneedle, hrest, htail]
      rfl
    obtain ⟨found, after, t, hread, he, hafter, ht⟩ := readExpression_yields e hplain hstart
    obtain ⟨hspells, hlast, hdone⟩ :=
      ih (ht.observe (.segment (segmentBetween c hit.start))) hafter
    have hreach := hit.reach
    rw [hbefore] at hreach
    rw [readContent]
    simp only [hfind, hneedle, hread]
    refine ⟨⟨hspells.closed, segmentBetween_erase hreach, ?_⟩, hlast, hdone⟩
    simp [he, hspells.first_eq, hspells.more_eq]

/-- A closed literal ends at the first quote that no backslash hides. -/
theorem Cursor.matchQuoted_search {c : Cursor} {raw : List Char} {d : c.After}
    (h : c.matchQuoted = .ok (some (raw, d))) {quote : Quote} {text : List Char}
    (hc : c.rest = quote.char :: text) :
    search [[quote.char]] (some '\\') text = some ⟨raw, [quote.char], d.1.rest⟩ := by
  have hquote : c.quote? = some quote := by simp [quote?, hc, Quote.ofChar?_char]
  obtain ⟨inner, hinner, ⟨-, hmatch⟩ | ⟨hit, stop, hfind, hstop, hmatch⟩⟩ :=
    matchQuoted_of_quote hquote
  · simp [hmatch] at h
  · obtain ⟨rfl, rfl⟩ : hit.before = raw ∧ stop = d := by simpa [hmatch] using h
    obtain rfl : inner.rest = text := List.append_cancel_left (hinner.rest_eq.symm.trans hc)
    have hsearch := search_of_find hfind
    rwa [List.mem_singleton.mp hit.mem, ← hstop] at hsearch

/-- A quoted literal without a brace in it is one static segment. -/
theorem TextForm.of_matchQuoted (form : TextForm) {c : Cursor} {raw rest : List Char} {d : c.After}
    (h : c.matchQuoted = .ok (some (raw, d))) (hbrace : raw.contains '{' = false)
    (hc : c.rest = form.text ++ rest) :
    form.more = [] ∧ raw = form.first.1 ∧ d.1.rest = rest := by
  have htext : c.rest = form.quote.char ::
      (form.first.1 ++ (moreText form.more ++ form.quote.char :: rest)) := by
    simpa [text] using hc
  have hsearch := Cursor.matchQuoted_search h htext
  have hescape : '\\' ∉ [form.quote.char] := by cases form.quote <;> decide
  have hstatic : isStatic [form.quote.char] form.first.1 = true :=
    isStatic_mono (by simp) form.first.2
  have hpassed := search_of_isStatic hstatic (moreText form.more ++ form.quote.char :: rest)
  rw [List.map_cons, List.map_nil, hsearch] at hpassed
  cases hmore : form.more with
  | nil =>
    have hstop := search_stop hescape (List.mem_singleton.mpr rfl) rest
    rw [List.map_cons, List.map_nil] at hstop
    rw [hmore, moreText, List.flatMap_nil, List.nil_append, hstop] at hpassed
    obtain ⟨hraw, -, hrest⟩ := Occurrence.mk.inj (Option.some.inj hpassed)
    exact ⟨rfl, by simpa using hraw, hrest⟩
  | cons part more =>
    -- The brace that opens the expression is passed on the way to the quote.
    obtain ⟨tail, htail⟩ := part.1.text_eq
    have hopening : isStatic [form.quote.char] ['{'] = true := by cases form.quote <;> decide
    have hmoreText : moreText form.more ++ form.quote.char :: rest =
        ['{'] ++ ('{' :: tail ++ (part.2.1 ++ (moreText more ++ form.quote.char :: rest))) := by
      simp [hmore, moreText, htail]
    have hopened := search_of_isStatic hopening
      ('{' :: tail ++ (part.2.1 ++ (moreText more ++ form.quote.char :: rest)))
    rw [List.map_cons, List.map_nil, ← hmoreText] at hopened
    rw [hopened, map_behind_behind] at hpassed
    obtain ⟨found, -, hraw⟩ := Option.map_eq_some_iff.mp hpassed.symm
    obtain ⟨rfl, -, -⟩ := Occurrence.mk.inj hraw
    simp at hbrace

/-- A printed string is read back, whether or not it goes by its content. -/
theorem readText_yields (form : TextForm) {c : Cursor} {rest : List Char} {s : Session σ}
    (hplain : s.Plain) (hc : c.rest = form.text ++ rest) :
    Yields (readText c s) Text.erase form.node rest := by
  have hquote : c.quote? = some form.quote := by
    simp [Cursor.quote?, hc, TextForm.text, Quote.ofChar?_char]
  have hread := readText_read c s
  generalize readText c s = reading at hread ⊢
  cases hread with
  | @static quote raw d text t hhere hraw hbrace hfinish =>
    obtain rfl : quote = form.quote := Option.some.inj (hhere.symm.trans hquote)
    obtain ⟨hmore, hfirst, hrest⟩ := form.of_matchQuoted hraw hbrace hc
    obtain ⟨rfl, rfl⟩ := Prod.mk.inj hfinish
    refine ⟨_, d, _, rfl, ?_, hrest, (hplain.observe _).observe _⟩
    simp only [Text.erase, TextForm.node, hmore, staticContent, hfirst]
    rfl
  | @content quote inner content d text u t hhere hinner hcontent hfinish hd =>
    obtain rfl : quote = form.quote := Option.some.inj (hhere.symm.trans hquote)
    have hrest : inner.rest =
        form.first.1 ++ (TextForm.moreText form.more ++ form.quote.char :: rest) := by
      have htext := hinner.rest_eq
      rw [hc] at htext
      simpa [TextForm.text] using htext.symm
    obtain ⟨hspells, hlast, hdone⟩ := readContent_spells form.more hplain hrest
    rw [hcontent] at hspells hlast hdone
    obtain ⟨rfl, rfl⟩ := Prod.mk.inj hfinish
    refine ⟨_, _, _, rfl, ?_, hlast, ?_⟩
    · simp only [Text.erase, TextForm.node, hspells.first_eq, hspells.more_eq]
    · rw [hspells.closed]
      exact hdone.observe _
  | none hnone => simp [hnone] at hquote

/-! ### Keys -/

theorem Cursor.quote?_eq_none {c : Cursor} {x : Char} {text : List Char} (hc : c.rest = x :: text)
    (hx : x ≠ '\x22' ∧ x ≠ '\x27') : c.quote? = none := by
  simp [quote?, hc, Quote.ofChar?, hx]

theorem Expression.scan_eq_none_of_head {c : Cursor} {x : Char} {text : List Char}
    (hc : c.rest = x :: text) (hx : x ≠ '{') : Expression.scan c = none := by
  have hother : '{' ≠ x := fun h => hx h.symm
  exact Expression.scan_eq_none (by simp [Cursor.startsWith, hc, List.isPrefixOf, hother])

/-- The characters that open a string, an expression or a composite. -/
def openers : List Char := ['\x22', '\x27', '{', '[']

theorem IdentifierForm.first_ne (form : IdentifierForm) : form.first ∉ openers ++ breakChars := by
  have hall : ((openers ++ breakChars).all fun x => !isIdentifierStart x) = true := by
    decide +kernel
  intro hmem
  have hfirst := List.all_eq_true.mp hall _ hmem
  simp [form.hfirst] at hfirst

theorem readKey_yields (form : KeyForm) {c : Cursor} {rest : List Char} {s : Session σ}
    (hplain : s.Plain) (hrest : tokenMayEnd rest = true) (hc : c.rest = form.spelling ++ rest) :
    Yields (readKey c s) Key.erase form.node rest := by
  rw [readKey_eq]
  cases form with
  | text form =>
    obtain ⟨text, d, t, hread, htext, hd, ht⟩ := readText_yields form hplain hc
    rw [hread]
    exact ⟨_, d, t, rfl, by rw [Key.erase, htext]; rfl, hd, ht⟩
  | expression form =>
    obtain ⟨tail, htail⟩ := form.text_eq
    have hhead : c.rest = '{' :: ('{' :: tail ++ rest) := by rw [hc, KeyForm.spelling, htail]; rfl
    have hquote := Cursor.quote?_eq_none hhead (by decide)
    obtain ⟨e, d, t, hread, he, hd, ht⟩ := readExpression_yields form hplain hc
    rw [readText_eq_none hquote, orElse, hread]
    exact ⟨_, d, t, rfl, by rw [Key.erase, he]; rfl, hd, ht⟩
  | identifier form =>
    have hfirst := form.first_ne
    simp only [openers, List.mem_cons, not_or, List.cons_append] at hfirst
    have hhead : c.rest = form.first :: (form.more ++ rest) := hc
    have hquote := Cursor.quote?_eq_none hhead ⟨hfirst.1, hfirst.2.1⟩
    have hscan := Expression.scan_eq_none_of_head hhead hfirst.2.2.1
    obtain ⟨identifier, d, hidentifier, he, hd⟩ := form.scan_eq hc hrest
    rw [readText_eq_none hquote, orElse, readExpression_eq_none hscan, orElse, readIdentifier,
      hidentifier]
    exact ⟨_, d, _, rfl, by rw [Key.erase, he]; rfl, hd, hplain.observe _⟩

/-- A key starts with no blank and no comment. -/
theorem KeyForm.spelling_eq (form : KeyForm) :
    ∃ x tail, form.spelling = x :: tail ∧ x ∉ breakChars ∧
      (form.isExpression = false → x ≠ '{') := by
  cases form with
  | text form =>
    have hquote : form.quote.char ∉ breakChars ∧ form.quote.char ≠ '{' := by
      cases form.quote <;> decide
    exact ⟨_, _, rfl, hquote.1, fun _ => hquote.2⟩
  | expression form =>
    obtain ⟨tail, htail⟩ := form.text_eq
    exact ⟨'{', _, htail, by decide, by simp [isExpression]⟩
  | identifier form =>
    have hfirst := form.first_ne
    rw [List.mem_append, not_or] at hfirst
    refine ⟨form.first, form.more, rfl, hfirst.2, fun _ => ?_⟩
    rintro heq
    exact hfirst.1 (by rw [heq]; decide)

/-! ### Values -/

theorem ScalarForm.text_eq (form : ScalarForm) :
    ∃ x tail, form.text = x :: tail ∧ x ∉ openers ++ breakChars := by
  cases form with
  | keyword word meaning hword =>
    have hall : (keywords.all fun entry =>
        entry.1.head?.any fun x => !(openers ++ breakChars).contains x) = true := by decide
    have hfirst := List.all_eq_true.mp hall (word, meaning) hword
    obtain ⟨x, hx, hplain⟩ := (Option.any_eq_true _ _).mp hfirst
    obtain ⟨tail, htail⟩ := List.head?_eq_some_iff.mp hx
    exact ⟨x, tail, htail, by simpa using hplain⟩
  | number numeral hproper =>
    obtain ⟨x, tail, htail, hx⟩ := Magnitude.text_head hproper
    cases hsign : numeral.sign with
    | some sign =>
      have hplain : sign.char ∉ openers ++ breakChars := by cases sign <;> decide
      exact ⟨sign.char, _, by rw [text, Numeral.text, hsign]; rfl, hplain⟩
    | none =>
      have hall : ((openers ++ breakChars).all fun x => !isDecimalDigit x && x != '.') = true := by
        decide
      refine ⟨x, tail, by simp [text, Numeral.text, hsign, signText, htail], fun hmem => ?_⟩
      have hplain := List.all_eq_true.mp hall x hmem
      rcases hx with hx | rfl
      · simp [hx] at hplain
      · simp at hplain

theorem readArray_eq_none {c : Cursor} {x : Char} {text : List Char} (hc : c.rest = x :: text)
    (hx : x ≠ '[') (rule : ValueRule σ c.rest.length) (s : Session σ) :
    readArray c rule s = (none, s) := by
  apply readArray_of_other
  intro rest hrest
  exact hx (List.cons.inj (hc.symm.trans hrest)).1

theorem readObject_eq_none {c : Cursor} {x : Char} {text : List Char} (hc : c.rest = x :: text)
    (hx : x ≠ '{') (rule : ValueRule σ c.rest.length) (s : Session σ) :
    readObject c rule s = (none, s) := by
  apply readObject_of_other
  intro rest hrest
  exact absurd (List.cons.inj (hc.symm.trans hrest)).1 hx

theorem readValue_text (form : TextForm) {c : Cursor} {rest : List Char} {s : Session σ}
    (hplain : s.Plain) (hc : c.rest = form.text ++ rest) :
    Yields (readValue c s) Value.erase (.text form.node) rest := by
  obtain ⟨text, d, t, hread, htext, hd, ht⟩ := readText_yields form hplain hc
  rw [readValue_eq, hread]
  exact ⟨.text text, d, t, rfl, by rw [Value.erase, htext], hd, ht⟩

theorem readValue_expression (form : Braced) {c : Cursor} {rest : List Char} {s : Session σ}
    (hplain : s.Plain) (hc : c.rest = form.text ++ rest) :
    Yields (readValue c s) Value.erase (.expression form.node) rest := by
  obtain ⟨tail, htail⟩ := form.text_eq
  have hhead : c.rest = '{' :: ('{' :: tail ++ rest) := by rw [hc, htail]; rfl
  obtain ⟨e, d, t, hread, he, hd, ht⟩ := readExpression_yields form hplain hc
  rw [readValue_eq, readText_eq_none (Cursor.quote?_eq_none hhead (by decide)), orElse, hread]
  exact ⟨.expression e, d, t, rfl, by rw [Value.erase, he], hd, ht⟩

theorem readValue_scalar (form : ScalarForm) {c : Cursor} {rest : List Char} {s : Session σ}
    (hplain : s.Plain) (hrest : tokenMayEnd rest = true) (hc : c.rest = form.text ++ rest) :
    Yields (readValue c s) Value.erase (.scalar form.node) rest := by
  obtain ⟨x, tail, htail, hx⟩ := form.text_eq
  simp only [openers, List.mem_cons, not_or, List.cons_append] at hx
  obtain ⟨hdouble, hsingle, hbrace, hbracket, -⟩ := hx
  have hhead : c.rest = x :: (tail ++ rest) := by rw [hc, htail]; rfl
  obtain ⟨scalar, d, hscalar, he, hd⟩ := form.scan_eq hc hrest
  rw [readValue_eq, readText_eq_none (Cursor.quote?_eq_none hhead ⟨hdouble, hsingle⟩), orElse,
    readExpression_eq_none (Expression.scan_eq_none_of_head hhead hbrace), orElse,
    readArray_eq_none hhead hbracket, orElse, readObject_eq_none hhead hbrace, orElse, readScalar,
    hscalar]
  exact ⟨.scalar scalar, d, _, rfl, by rw [Value.erase, he], hd, hplain.observe _⟩

end DataTemplate
