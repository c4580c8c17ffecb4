/-
A text inside a longer one.  A place of the text stands in the longer text with more in front of it and
more behind, and a rule that finds a token at the one finds the same token at the other, moved along.
Main statements: `Cursor.Embeds.find`, `readText_embeds`, `readKey_embeds` and `readScalar_embeds`.
-/
import DataTemplate.Proofs.Composites
import DataTemplate.Proofs.SessionLaws
import DataTemplate.Proofs.Shifts
import DataTemplate.Proofs.Spellings

namespace DataTemplate

variable {σ τ : Type} {k : Nat} {tail : List Char}

/-! ### Places -/

theorem Cursor.moves_of_rest_eq {c d : Cursor} {text : List Char} (hle : c ≤ d)
    (h : c.rest = text ++ d.rest) : c.Moves text d := by
  obtain ⟨other, hmoves⟩ := hle
  obtain rfl : other = text := List.append_cancel_right (hmoves.rest_eq.symm.trans h)
  exact hmoves

/-- `d` stands in a longer text where `c` stands in its own: `k` bytes further on, and with `tail`
behind what is left. -/
structure Cursor.Embeds (k : Nat) (tail : List Char) (c d : Cursor) : Prop where
  rest_eq : d.rest = c.rest ++ tail
  position_eq : d.position = c.position + k

namespace Cursor.Embeds

variable {c d c' d' : Cursor}

/-- Two moves over the same text end at places that belong together. -/
theorem of_moves (h : c.Embeds k tail c') {text : List Char} (hd : c.Moves text d)
    (hd' : c'.Moves text d') : d.Embeds k tail d' where
  rest_eq := by
    have hrest := h.rest_eq
    rw [hd.rest_eq, hd'.rest_eq, List.append_assoc] at hrest
    exact List.append_cancel_left hrest
  position_eq := by
    rw [hd'.position_eq, hd.position_eq, h.position_eq]
    omega

/-- A place further on is told by what is left there. -/
theorem of_rest (h : c.Embeds k tail c') (hle : c ≤ d) (hle' : c' ≤ d')
    (hrest : d'.rest = d.rest ++ tail) : d.Embeds k tail d' := by
  obtain ⟨text, hmoves⟩ := hle
  refine h.of_moves hmoves (moves_of_rest_eq hle' ?_)
  rw [h.rest_eq, hmoves.rest_eq, hrest, List.append_assoc]

theorem textTo_eq (h : c.Embeds k tail c') (hle : c ≤ d) (hle' : c' ≤ d')
    (hd : d.Embeds k tail d') : c'.textTo d' = c.textTo d := by
  obtain ⟨text, hmoves⟩ := hle
  have hrest : c'.rest = text ++ d'.rest := by
    rw [h.rest_eq, hmoves.rest_eq, hd.rest_eq, List.append_assoc]
  rw [(moves_of_rest_eq hle' hrest).textTo_eq, hmoves.textTo_eq]

theorem segmentBetween (h : c.Embeds k tail c') (hle : c ≤ d) (hle' : c' ≤ d')
    (hd : d.Embeds k tail d') :
    DataTemplate.segmentBetween c' d' = (DataTemplate.segmentBetween c d).shift k := by
  simp only [DataTemplate.segmentBetween, Segment.shift, Span.shift, h.textTo_eq hle hle' hd,
    h.position_eq, hd.position_eq]

/-- The first character is the same as long as there is one. -/
theorem head?_eq (h : c.Embeds k tail c') (hne : c.rest ≠ []) : c'.rest.head? = c.rest.head? := by
  obtain ⟨x, rest, hrest⟩ := List.exists_cons_of_ne_nil hne
  simp [h.rest_eq, hrest]

theorem rest_cons (h : c.Embeds k tail c') {x : Char} {rest : List Char} (hrest : c.rest = x :: rest) :
    c'.rest = x :: (rest ++ tail) := by
  rw [h.rest_eq, hrest, List.cons_append]

/-- A run of a class that ends in front of more text ends there in the longer text. -/
theorem matchWhile (h : c.Embeds k tail c') {p : Char → Bool} (hne : (c.matchWhile p).rest ≠ []) :
    (c.matchWhile p).Embeds k tail (c'.matchWhile p) ∧ c'.runOf p = c.runOf p := by
  have hends : (c.rest.dropWhile p).isEmpty = false := by simpa [Cursor.matchWhile, past] using hne
  have hrest : (c'.matchWhile p).rest = (c.matchWhile p).rest ++ tail := by
    simp [Cursor.matchWhile, past, h.rest_eq, List.dropWhile_append, hends]
  have hd := h.of_rest (c.moves_matchWhile p).le (c'.moves_matchWhile p).le hrest
  refine ⟨hd, ?_⟩
  have hsame := h.textTo_eq (c.moves_matchWhile p).le (c'.moves_matchWhile p).le hd
  rwa [(c.moves_matchWhile p).textTo_eq, (c'.moves_matchWhile p).textTo_eq] at hsame

theorem skipBlanks (h : c.Embeds k tail c') (hne : c.skipBlanks.rest ≠ []) :
    c.skipBlanks.Embeds k tail c'.skipBlanks := (h.matchWhile hne).1

end Cursor.Embeds

/-! ### Searching -/

theorem needleAt?_append_right {needles : List (List Char)} {m : Nat}
    (hlength : ∀ needle ∈ needles, needle.length = m) {text : List Char} (hm : m ≤ text.length)
    (tail : List Char) : needleAt? needles (text ++ tail) = needleAt? needles text := by
  induction needles with
  | nil => rfl
  | cons needle needles ih =>
    obtain ⟨hneedle, hothers⟩ := List.forall_mem_cons.mp hlength
    have hprefix : needle.isPrefixOf (text ++ tail) = needle.isPrefixOf text := by
      rw [Bool.eq_iff_iff, List.isPrefixOf_iff_prefix, List.isPrefixOf_iff_prefix]
      refine ⟨fun h => ?_, fun h => h.trans (List.prefix_append text tail)⟩
      exact List.prefix_of_prefix_length_le h (List.prefix_append text tail) (hneedle ▸ hm)
    have hlater := ih hothers
    simp only [needleAt?, List.find?_cons, hprefix] at hlater ⊢
    rw [hlater]

/-- What a search for needles of one length finds, it finds with more text behind. -/
theorem search_append {needles : List (List Char)} {m : Nat}
    (hlength : ∀ needle ∈ needles, needle.length = m) {escape : Option Char} {text : List Char}
    {found : Occurrence} (h : search needles escape text = some found) (tail : List Char) :
    search needles escape (text ++ tail) =
      some ⟨found.before, found.needle, found.after ++ tail⟩ := by
  fun_induction search needles escape text generalizing found with
  | case1 => simp at h
  | case2 => simp at h
  | case3 c hescape d ds ih =>
    obtain ⟨inner, hinner, rfl⟩ := Option.map_eq_some_iff.mp h
    simp only [List.cons_append, search, hescape, if_true, ih hinner]
    rfl
  | case4 c cs hescape needle hneedle =>
    obtain rfl := Option.some.inj h
    have hfits : needle.length ≤ (c :: cs).length := by
      have hsplit := congrArg List.length (needleAt?_append hneedle)
      rw [List.length_append] at hsplit
      omega
    have hsame := needleAt?_append_right hlength (hlength needle (needleAt?_mem hneedle) ▸ hfits)
      tail
    rw [hneedle, List.cons_append] at hsame
    have hdrop : ((c :: cs) ++ tail).drop needle.length = (c :: cs).drop needle.length ++ tail :=
      List.drop_append_of_le_length hfits
    rw [List.cons_append] at hdrop
    rw [List.cons_append, search.eq_def]
    simp only [hescape, hsame, hdrop]
    rfl
  | case5 c cs hescape hnone ih =>
    obtain ⟨inner, hinner, rfl⟩ := Option.map_eq_some_iff.mp h
    have hin := search_in hinner
    have hfits : m ≤ (c :: cs).length := by
      have hsplit := congrArg List.length hin.spelled
      simp only [List.length_append] at hsplit
      have := hlength _ hin.mem
      rw [List.length_cons]
      omega
    have hsame := needleAt?_append_right hlength hfits tail
    rw [hnone, List.cons_append] at hsame
    rw [List.cons_append, search.eq_def]
    simp only [hescape, hsame, ih hinner]
    rfl

/-- A search that finds a needle finds it in the longer text, in the same place. -/
theorem Cursor.Embeds.find {c c' : Cursor} (h : c.Embeds k tail c')
    {needles needles' : List (List Char)} (hneedles : needles = needles') {m : Nat}
    (hlength : ∀ needle ∈ needles, needle.length = m) {escape : Option Char}
    {hit : c.Hit needles} (hfind : c.find needles escape = some hit) :
    ∃ hit' : c'.Hit needles', c'.find needles' escape = some hit' ∧ hit'.before = hit.before ∧
      hit'.needle = hit.needle ∧ hit.start.Embeds k tail hit'.start ∧
      hit.stop.Embeds k tail hit'.stop := by
  subst hneedles
  have hsearch := search_append hlength (Cursor.search_of_find hfind) tail
  rw [← h.rest_eq] at hsearch
  obtain ⟨hit', hfind', hbefore, hneedle, -⟩ := Cursor.find_of_search hsearch
  have hreach := hit'.reach
  have hspell := hit'.spell
  rw [hbefore] at hreach
  rw [hneedle] at hspell
  have hstart := h.of_moves hit.reach hreach
  exact ⟨hit', hfind', hbefore, hneedle, hstart, hstart.of_moves hit.spell hspell⟩

/-! ### Sessions -/

/-- A session that goes on, knows of no earlier scan, and whose host leaves expressions as they
are. -/
structure Session.Neutral (s : Session σ) : Prop where
  going : s.halted = false
  none_handled : s.handled = #[]
  keeps : ∀ state e, (s.hooks.revise state e).1 = ⟨e.text, e.valueType⟩

/-- Nothing was reported between `s` and the later moment `t`. -/
structure Session.Quiet (s t : Session σ) : Prop where
  hooks_eq : t.hooks = s.hooks
  haltOnProblem_eq : t.haltOnProblem = s.haltOnProblem
  handled_eq : t.handled = s.handled
  halted_eq : t.halted = s.halted
  problems_eq : t.problems = s.problems

namespace Session.Quiet

variable {s t u : Session σ}

theorem refl (s : Session σ) : s.Quiet s := ⟨rfl, rfl, rfl, rfl, rfl⟩

theorem trans (h : s.Quiet t) (k : t.Quiet u) : s.Quiet u :=
  ⟨k.hooks_eq.trans h.hooks_eq, k.haltOnProblem_eq.trans h.haltOnProblem_eq,
    k.handled_eq.trans h.handled_eq, k.halted_eq.trans h.halted_eq,
    k.problems_eq.trans h.problems_eq⟩

theorem observe (s : Session σ) (node : Node) : s.Quiet (s.observe node) := ⟨rfl, rfl, rfl, rfl, rfl⟩

theorem flush (s : Session σ) (draft : PropertyDraft) : s.Quiet (draft.flush s).2 := by
  unfold PropertyDraft.flush
  split
  · exact refl s
  · exact observe s _

theorem neutral (h : s.Quiet t) (hs : s.Neutral) : t.Neutral :=
  ⟨h.halted_eq.trans hs.going, h.handled_eq.trans hs.none_handled, h.hooks_eq ▸ hs.keeps⟩

end Session.Quiet

theorem Session.Plain.neutral {s : Session σ} (h : s.Plain) : s.Neutral :=
  ⟨h.going, h.none_handled, h.keeps⟩

/-- A plain session stays plain as long as no problem is met. -/
theorem Session.Plain.of_grows {s t : Session σ} (h : s.Plain) (hgrows : s.Grows t)
    (ht : t.Unbroken) : t.Plain :=
  ⟨ht.going, ht.none_met, hgrows.handled_eq.trans h.none_handled, hgrows.hooks_eq ▸ h.keeps⟩

theorem Session.Neutral.finishExpression {s : Session σ} (h : s.Neutral) (e : Expression) :
    (s.finishExpression e).1 = e ∧ s.Quiet (s.finishExpression e).2 := by
  have hnone : (s.handled.find? fun earlier => earlier.bodySpan == e.bodySpan) = none := by
    simp [h.none_handled]
  unfold Session.finishExpression
  rw [hnone]
  constructor
  · simp only [ask, h.keeps]
    rfl
  · exact ⟨rfl, rfl, rfl, rfl, rfl⟩

/-- At a place of the longer text a rule found `a`, stopped where `d` stands in its own, and reported
nothing. -/
def Finds {α : Type} (k : Nat) (tail : List Char) (s : Session τ) {c : Cursor}
    (reading : Reading τ α c) (a : α) (d : Cursor) : Prop :=
  ∃ d' t, reading = (some (a, d'), t) ∧ d.Embeds k tail d'.1 ∧ s.Quiet t

/-! ### Expressions -/

section Rules

variable {c c' : Cursor} {s t : Session σ} {s' : Session τ}

theorem Cursor.Hit.rest_ne_nil {needles : List (List Char)} (hit : c.Hit needles) : c.rest ≠ [] := by
  rw [hit.reach.rest_eq, hit.spell.rest_eq]
  simp [hit.ne_nil]

theorem Expression.scan_embeds (h : c.Embeds k tail c') {e : Expression} {d : c.After}
    (hscan : Expression.scan c = some (e, d)) :
    ∃ d', Expression.scan c' = some (e.shift k, d') ∧ d.1.Embeds k tail d'.1 := by
  unfold Expression.scan at hscan ⊢
  split at hscan
  · rename_i hstarts
    dsimp only at hscan
    split at hscan
    · simp at hscan
    · rename_i hit hfind
      obtain ⟨rfl, rfl⟩ := by simpa using hscan
      have hstarts' : c'.startsWith ['{', '{'] = true := by
        rw [Cursor.startsWith, List.isPrefixOf_iff_prefix] at hstarts ⊢
        exact h.rest_eq ▸ hstarts.trans (List.prefix_append _ _)
      obtain ⟨hbody, hrun⟩ := h.matchWhile hit.rest_ne_nil
      have hcloser : [List.replicate (c.runOf (· == '{')).length '}'] =
          [List.replicate (c'.runOf (· == '{')).length '}'] := by rw [hrun]
      obtain ⟨hit', hfind', hbefore, -, -, hstop⟩ :=
        hbody.find hcloser (fun needle hneedle => by rw [List.mem_singleton.mp hneedle]) hfind
      rw [if_pos hstarts']
      simp only [hfind', hbefore, h.position_eq, hrun]
      exact ⟨_, rfl, hstop⟩
  · simp at hscan

theorem Expression.scan_head {e : Expression} {d : c.After} (h : Expression.scan c = some (e, d)) :
    ∃ rest, c.rest = '{' :: '{' :: rest := by
  unfold Expression.scan at h
  split at h
  · rename_i hstarts
    obtain ⟨rest, hrest⟩ := List.isPrefixOf_iff_prefix.mp hstarts
    exact ⟨rest, hrest.symm⟩
  · simp at h

theorem readExpression_embeds (hs : s.Neutral) (hs' : s'.Neutral) (h : c.Embeds k tail c')
    {e : Expression} {d : c.After} (hread : readExpression c s = (some (e, d), t)) :
    Finds k tail s' (readExpression c' s') (e.shift k) d.1 := by
  obtain ⟨scanned, hscan, hfinish⟩ := readExpression_some hread
  obtain rfl : scanned = e := (hs.finishExpression scanned).1.symm.trans (congrArg Prod.fst hfinish)
  obtain ⟨d', hscan', hd⟩ := Expression.scan_embeds h hscan
  obtain ⟨hsame, hquiet⟩ := hs'.finishExpression (scanned.shift k)
  refine ⟨d', (s'.finishExpression (scanned.shift k)).2, ?_, hd, hquiet⟩
  unfold readExpression
  rw [hscan', ← hsame]
  simp only [hsame]

end Rules

/-! ### String content -/

/-- The content of a string `k` bytes further on. -/
def Content.shift (k : Nat) (content : Content) : Content :=
  ⟨content.first.shift k, shiftMore k content.more, content.closed⟩

section Content

variable {quote : Quote} {segment c : Cursor} {s : Session σ} {text : List Char}

theorem readContent_rest_ne_nil (hclosed : (readContent (some quote) segment c s).1.closed = true) :
    c.rest ≠ [] := by
  fun_cases readContent (some quote) segment c s with
  | case1 hfind => simp [readContent, hfind] at hclosed
  | case2 hit | case3 hit | case4 hit => exact hit.rest_ne_nil

/-- The first segment of closed content ends at an expression or, without one, at the quote. -/
theorem readContent_first (hclosed : (readContent (some quote) segment c s).1.closed = true) :
    ∃ d, c ≤ d ∧ (readContent (some quote) segment c s).1.first = segmentBetween segment d ∧
      d.rest.head? = some (if (readContent (some quote) segment c s).1.more = [] then quote.char
        else '{') := by
  fun_induction readContent (some quote) segment c s with
  | case1 => simp at hclosed
  | case2 segment c s hit hfind hneedle t hread hlt content d u hrest ih =>
    rw [hrest] at ih
    obtain ⟨e, hle, hfirst, hhead⟩ := ih hclosed
    exact ⟨e, Cursor.le_trans (Cursor.le_of_lt hlt) hle, hfirst, hhead⟩
  | case3 segment c s hit hfind hneedle e after t hread hlt first content d u hrest ih =>
    have hbrace : hit.needle = ['{'] := by simpa using hneedle
    exact ⟨hit.start, hit.le_start, rfl, by simp [hit.rest_start, hbrace]⟩
  | case4 segment c s hit hfind hneedle =>
    have hquote : hit.needle = [quote.char] := by
      have hmem := hit.mem
      simp only [contentNeedles_eq, List.map_cons, List.map_nil, List.mem_cons,
        List.not_mem_nil, or_false] at hmem
      rcases hmem with hmem | hmem
      · exact hmem
      · simp [hmem] at hneedle
    exact ⟨hit.start, hit.le_start, rfl, by simp [hit.rest_start, hquote]⟩

/-- Content with two braces that open no expression is not settled. -/
theorem partsSettled_of_open {here : Cursor} (htext : segment.Moves text here)
    (hstatic : isStatic [] text = true) (hhere : here.Moves ['{'] c)
    (hbrace : c.rest.head? = some '{')
    (hclosed : (readContent (some quote) segment c s).1.closed = true) :
    partsSettled (readContent (some quote) segment c s).1.first
      (readContent (some quote) segment c s).1.more = false := by
  obtain ⟨d, ⟨between, hbetween⟩, hfirst, hhead⟩ := readContent_first hclosed
  generalize (readContent (some quote) segment c s).1 = content at *
  have hraw : content.first.raw.toList = text ++ '{' :: between := by
    have hmoves := (htext.trans hhere).trans hbetween
    rw [hfirst, segmentBetween, hmoves.textTo_eq]
    simp
  have hopen (rest : List Char) : bracesOpen ('{' :: '{' :: rest) = true := by simp [bracesOpen]
  rw [hbetween.rest_eq] at hbrace
  cases hmore : content.more with
  | nil =>
    have hquote : d.rest.head? = some quote.char := by simpa [hmore] using hhead
    cases between with
    | nil =>
      have hother : quote.char ≠ '{' := by cases quote <;> decide
      exact absurd (Option.some.inj (hquote.symm.trans hbrace)) hother
    | cons x between =>
      obtain rfl : x = '{' := by simpa using hbrace
      simp [partsSettled, hraw, bracesOpen_append hstatic (hopen between)]
  | cons part more =>
    obtain ⟨rest, hrest⟩ : ∃ rest, between ++ ['{'] = '{' :: rest := by
      cases between with
      | nil => exact ⟨[], rfl⟩
      | cons x between =>
        obtain rfl : x = '{' := by simpa using hbrace
        exact ⟨between ++ ['{'], rfl⟩
    have hall : content.first.raw.toList ++ ['{'] = text ++ '{' :: '{' :: rest := by
      rw [hraw, List.append_assoc, List.cons_append, hrest]
    simp [partsSettled, hall, bracesOpen_append hstatic (hopen rest)]

theorem contentNeedles_length :
    ∀ needle ∈ contentNeedles (some quote), needle.length = 1 := by
  simp [contentNeedles_eq]

/-- A lone brace opens no expression in the longer text either. -/
theorem Expression.scan_embeds_none {here c here' : Cursor} (h : here.Embeds k tail here')
    (hhere : here.Moves ['{'] c) (hne : c.rest ≠ []) (hlone : c.rest.head? ≠ some '{') :
    Expression.scan here' = none := by
  have hrest : here'.rest = '{' :: (c.rest ++ tail) := h.rest_cons hhere.rest_eq
  obtain ⟨x, rest, hx⟩ := List.exists_cons_of_ne_nil hne
  refine Expression.scan_eq_none_of_lone hrest ?_
  simpa [hx] using hlone

/-- Settled content reads the same in a longer text. -/
theorem readContent_embeds {segment' c' : Cursor} {s' : Session τ} (hs : s.Plain)
    (hs' : s'.Neutral) (hsegment : segment.Embeds k tail segment') (htext : segment.Moves text c)
    (htext' : segment'.Moves text c') (hstatic : isStatic [] text = true)
    (hclosed : (readContent (some quote) segment c s).1.closed = true)
    (hsettled : partsSettled (readContent (some quote) segment c s).1.first
      (readContent (some quote) segment c s).1.more = true) :
    (readContent (some quote) segment' c' s').1 =
        (readContent (some quote) segment c s).1.shift k ∧
      (readContent (some quote) segment c s).2.1.1.Embeds k tail
        (readContent (some quote) segment' c' s').2.1.1 ∧
      s'.Quiet (readContent (some quote) segment' c' s').2.2 := by
  have hc := hsegment.of_moves htext htext'
  fun_induction readContent (some quote) segment c s generalizing text segment' c' s' with
  | case1 => simp at hclosed
  | case2 segment c s hit hfind hneedle t hread hlt content d u hrest ih =>
    have hbrace : hit.needle = ['{'] := by simpa using hneedle
    obtain ⟨hscan, rfl⟩ := readExpression_none hread
    have hspell := hit.spell
    rw [hbrace] at hspell
    have hhere : isStatic [quote.char, '{'] hit.before = true :=
      isStatic_before (Cursor.search_of_find hfind)
    have hpassed : isStatic [] (text ++ hit.before) = true := by
      rw [isStatic_append hstatic]
      exact isStatic_mono (by simp) hhere
    rw [hrest] at ih
    have hclosed' : (readContent (some quote) segment hit.stop t).1.closed = true := by
      rw [hrest]
      exact hclosed
    have hlone : hit.stop.rest.head? ≠ some '{' := by
      intro hhead
      have hopen := partsSettled_of_open (htext.trans hit.reach) hpassed hspell hhead hclosed'
      rw [hrest] at hopen
      simp [hopen] at hsettled
    obtain ⟨hit', hfind', hbefore, hneedle', hstart, hstop⟩ := hc.find rfl contentNeedles_length hfind
    have hnone := Expression.scan_embeds_none hstart hspell (readContent_rest_ne_nil hclosed') hlone
    have hmoves := (htext.trans hit.reach).trans hit.spell
    have hmoves' := (htext'.trans hit'.reach).trans hit'.spell
    rw [hbefore, hneedle'] at hmoves'
    have hlater := ih hs hs' hsegment hmoves hmoves'
      (by rw [isStatic_append hpassed, hbrace]; decide) hclosed hsettled hstop
    rw [readContent]
    simp only [hfind', hneedle', hneedle, readExpression_eq_none hnone]
    exact hlater
  | case3 segment c s hit hfind hneedle e after t hread hlt first content d u hrest =>
    rename_i ih
    obtain ⟨hit', hfind', hbefore, hneedle', hstart, -⟩ := hc.find rfl contentNeedles_length hfind
    obtain ⟨after', t', hread', hafter, hquiet⟩ :=
      readExpression_embeds hs.neutral hs' hstart hread
    have hfirst : segmentBetween segment' hit'.start = first.shift k :=
      hsegment.segmentBetween (htext.trans hit.reach).le (htext'.trans hit'.reach).le hstart
    rw [hrest] at ih
    obtain ⟨scanned, -, hfinish⟩ := readExpression_some hread
    have ht : t.Plain := by
      have hplain := (hs.finishExpression scanned).2
      rwa [hfinish] at hplain
    have hparts : partsSettled content.first content.more = true :=
      (Bool.and_eq_true_iff.mp hsettled).2
    obtain ⟨hcontent, hd, hquiet'⟩ := ih (ht.observe _)
      ((Session.Quiet.observe t' (.segment (first.shift k))).neutral (hquiet.neutral hs')) hafter
      (.refl _) (.refl _) rfl hclosed hparts hafter
    rw [readContent]
    simp only [hfind', hneedle', hneedle, hread', hfirst, if_true, hcontent]
    exact ⟨rfl, hd, (hquiet.trans (.observe _ _)).trans hquiet'⟩
  | case4 segment c s hit hfind hneedle =>
    obtain ⟨hit', hfind', hbefore, hneedle', hstart, hstop⟩ := hc.find rfl contentNeedles_length hfind
    have hlast := hsegment.segmentBetween (htext.trans hit.reach).le (htext'.trans hit'.reach).le
      hstart
    rw [readContent]
    simp only [hfind', hneedle', hneedle, hlast]
    exact ⟨rfl, hstop, .observe s' _⟩

end Content

/-! ### Strings -/

/-- The short way of reading a literal without a brace comes to the same as reading its content. -/
theorem readText_eq_content {c : Cursor} {quote : Quote} (hquote : c.quote? = some quote)
    (s : Session σ) : ∃ inner content u, ∃ (d : inner.From) (hd : c < d.1),
      c.Moves [quote.char] inner ∧ readContent (some quote) inner inner s = (content, d, u) ∧
        readText c s = (some ((finishText (some quote) c d content u).1, ⟨d.1, hd⟩),
          (finishText (some quote) c d content u).2) := by
  have hread := readText_read c s
  generalize readText c s = reading at hread ⊢
  cases hread with
  | none hnone => simp [hquote] at hnone
  | @content other inner content d text u t hother hinner hcontent hfinish hd =>
    obtain rfl : quote = other := Option.some.inj (hquote.symm.trans hother)
    exact ⟨inner, content, u, d, hd, hinner, hcontent, by rw [hfinish]⟩
  | @static other raw d text t hother hraw hbrace hfinish =>
    obtain rfl : quote = other := Option.some.inj (hquote.symm.trans hother)
    have hinner := Cursor.moves_next_of_quote? hquote
    generalize (c.next (Cursor.ne_nil_of_quote? hquote)).1 = inner at hinner
    have hsearch := Cursor.matchQuoted_search hraw hinner.rest_eq
    have hstatic : isStatic [quote.char, '{'] raw = true := by
      have hfree : '{' ∉ raw := by simpa using hbrace
      have hneedle : search ([quote.char].map fun stop => [stop]) (some '\\') inner.rest =
          some ⟨raw, [quote.char], d.1.rest⟩ := hsearch
      have hquoted : isStatic [quote.char] raw = true := isStatic_before hneedle
      rcases isStatic_split (x := '{') (by decide) hquoted with h | ⟨before, after, rfl, -⟩
      · exact h
      · simp at hfree
    have hspelled := (search_in hsearch).spelled
    have hinside : inner.rest = raw ++ quote.char :: d.1.rest := by simpa using hspelled.symm
    obtain ⟨hit, hfind, hbefore, hneedle, hrest⟩ :=
      find_static ⟨raw, hstatic⟩ (by simp) hinside
    have hreach := hit.reach
    have hspell := hit.spell
    rw [hbefore] at hreach
    rw [hneedle] at hspell
    have hstop := (hinner.trans hreach).trans hspell
    obtain ⟨d, hd⟩ := d
    obtain rfl : d = hit.stop := by
      refine Cursor.Moves.unique (Cursor.moves_of_rest_eq (Cursor.le_of_lt hd) ?_) hstop
      rw [hstop.rest_eq, hrest]
    have hquotes : ([quote.char] == ['{']) = false := by cases quote <;> decide
    have hlast : segmentBetween inner hit.start = (staticContent c hit.stop raw).first := by
      simp only [segmentBetween, staticContent, hreach.textTo_eq, hspell.position_eq,
        hinner.position_eq, byteLength_cons, byteLength_nil, quote.utf8Size_char, Nat.add_zero,
        Nat.add_sub_cancel]
    have hcontent : readContent (some quote) inner inner s = (⟨segmentBetween inner hit.start, [],
        true⟩, ⟨hit.stop, Cursor.le_of_lt hit.lt_stop⟩,
        s.observe (.segment (segmentBetween inner hit.start))) := by
      rw [readContent]
      simp only [hfind, hneedle, hquotes]
      rfl
    refine ⟨inner, _, _, ⟨hit.stop, Cursor.le_of_lt hit.lt_stop⟩, hd, hinner, hcontent, ?_⟩
    rw [hlast]
    obtain ⟨rfl, rfl⟩ := Prod.mk.inj hfinish
    rfl

theorem finishText_closed {quote : Option Quote} {c d : Cursor} {content : Content}
    (h : content.closed = true) (s : Session σ) : finishText quote c d content s =
      (⟨⟨c.position, d.position⟩, quote, content.first, content.more⟩,
        s.observe (.value (.text ⟨⟨c.position, d.position⟩, quote, content.first,
          content.more⟩))) := by
  simp [finishText, h]

section Rules

variable {c c' : Cursor} {s t : Session σ} {s' : Session τ}

theorem Cursor.Embeds.quote?_eq (h : c.Embeds k tail c') (hne : c.rest ≠ []) :
    c'.quote? = c.quote? := by
  rw [quote?, quote?, h.head?_eq hne]

/-- A settled string reads the same in a longer text. -/
theorem readText_embeds (hs : s.Plain) (hs' : s'.Neutral) (h : c.Embeds k tail c') {text : Text}
    {d : c.After} (hread : readText c s = (some (text, d), t)) (ht : t.Unbroken)
    (hsettled : text.settled = true) : Finds k tail s' (readText c' s') (text.shift k) d.1 := by
  obtain ⟨quote, hquote⟩ := readText_some_quote hread
  have hquote' := (h.quote?_eq (Cursor.ne_nil_of_quote? hquote)).trans hquote
  obtain ⟨inner, content, u, e, he, hinner, hcontent, hreads⟩ := readText_eq_content hquote s
  obtain ⟨inner', content', u', e', he', hinner', hcontent', hreads'⟩ :=
    readText_eq_content hquote' s'
  rw [hreads] at hread
  obtain ⟨hfound, rfl⟩ := Prod.mk.inj hread
  obtain ⟨rfl, rfl⟩ := Prod.mk.inj (Option.some.inj hfound)
  have hclosed : content.closed = true := by
    cases hopen : content.closed with
    | true => rfl
    | false =>
      rw [finishText, hopen] at ht
      have hcommit := ht.of_grows (.observe _ _)
      exact absurd hcommit (Session.Unbroken.not_commit _ _ _)
  have hstart := h.of_moves hinner hinner'
  have hsame := readContent_embeds hs hs' hstart (.refl _) (.refl _) rfl
    (congrArg (·.1.closed) hcontent |>.trans hclosed) (by rw [hcontent]; exact hsettled)
  rw [hcontent, hcontent'] at hsame
  obtain ⟨rfl, hend, hquiet⟩ := hsame
  have hclosed' : (content.shift k).closed = true := hclosed
  rw [finishText_closed hclosed]
  rw [finishText_closed hclosed', h.position_eq, hend.position_eq] at hreads'
  exact ⟨_, _, hreads', hend, hquiet.trans (.observe _ _)⟩

theorem Identifier.scan_head {identifier : Identifier} {d : c.After}
    (hscan : Identifier.scan c = some (identifier, d)) :
    ∃ x rest, c.rest = x :: rest ∧ isIdentifierStart x = true := by
  unfold Identifier.scan at hscan
  split at hscan
  · rename_i hstart
    cases hrest : c.rest with
    | nil => simp [hrest] at hstart
    | cons x rest => exact ⟨x, rest, rfl, by simpa [hrest] using hstart⟩
  · simp at hscan

theorem Identifier.scan_embeds (h : c.Embeds k tail c') {identifier : Identifier} {d : c.After}
    (hscan : Identifier.scan c = some (identifier, d))
    (hend : tokenMayEnd (d.1.rest ++ tail) = true) :
    ∃ d', Identifier.scan c' = some (identifier.shift k, d') ∧ d.1.Embeds k tail d'.1 := by
  obtain ⟨x, rest, hrest, hx⟩ := Identifier.scan_head hscan
  unfold Identifier.scan at hscan ⊢
  rw [dif_pos (by simpa [hrest] using hx)] at hscan
  obtain ⟨rfl, rfl⟩ := by simpa using hscan
  have hmoves := c.moves_matchWhile isIdentifierContinue
  have hrest' : c'.rest = c.runOf isIdentifierContinue ++
      ((c.matchWhile isIdentifierContinue).rest ++ tail) := by
    rw [h.rest_eq, hmoves.rest_eq, List.append_assoc]
  obtain ⟨hrun, hleft⟩ := Cursor.rest_matchWhile hrest' (forall_mem_takeWhile _ _)
    (head?_any_of_tokenMayEnd hend fun _ => not_isIdentifierContinue_of_mem)
  have hd := h.of_rest hmoves.le (c'.moves_matchWhile _).le hleft
  rw [dif_pos (by simpa [h.rest_cons hrest] using hx)]
  simp only [hrun, h.position_eq, hd.position_eq]
  exact ⟨_, rfl, hd⟩

/-- Where an identifier stands, nothing else is a key. -/
theorem readKey_of_identifier {identifier : Identifier} {d : c.After}
    (hscan : Identifier.scan c = some (identifier, d)) :
    readKey c s = (some (.identifier identifier, d), s.observe (.identifier identifier)) := by
  obtain ⟨x, rest, hrest, hx⟩ := Identifier.scan_head hscan
  have hfirst := IdentifierForm.first_ne ⟨x, [], hx, by simp⟩
  simp only [openers, List.cons_append, List.mem_cons, not_or] at hfirst
  have hquote := Cursor.quote?_eq_none hrest ⟨hfirst.1, hfirst.2.1⟩
  have hnone := Expression.scan_eq_none_of_head hrest hfirst.2.2.1
  rw [readKey_eq, readText_eq_none hquote, orElse, readExpression_eq_none hnone, orElse,
    readIdentifier, hscan, orElse]

/-- A settled key reads the same in a longer text, where a token may end behind it. -/
theorem readKey_embeds (hs : s.Plain) (hs' : s'.Neutral) (h : c.Embeds k tail c') {key : Key}
    {d : c.After} (hread : readKey c s = (some (key, d), t)) (ht : t.Unbroken)
    (hsettled : key.settled = true) (hend : tokenMayEnd (d.1.rest ++ tail) = true) :
    Finds k tail s' (readKey c' s') (key.shift k) d.1 := by
  have hkey := readKey_read c s
  rw [hread] at hkey
  cases hkey with
  | text hread =>
    rw [Key.settled_text] at hsettled
    obtain ⟨d', t', hread', hd, hquiet⟩ := readText_embeds hs hs' h hread ht hsettled
    rw [readKey_eq, hread']
    exact ⟨d', t', rfl, hd, hquiet⟩
  | expression hquote hread =>
    have hquote' := (h.quote?_eq (Cursor.rest_ne_nil_of_lt d.2)).trans hquote
    obtain ⟨d', t', hread', hd, hquiet⟩ := readExpression_embeds hs.neutral hs' h hread
    rw [readKey_eq, readText_eq_none hquote', orElse, hread']
    exact ⟨d', t', rfl, hd, hquiet⟩
  | identifier _ _ hidentifier =>
    obtain ⟨d', hidentifier', hd⟩ := Identifier.scan_embeds h hidentifier hend
    rw [readKey_of_identifier hidentifier']
    exact ⟨d', _, rfl, hd, .observe s' _⟩

/-! ### Keywords and numbers -/

theorem Scalar.scan_embeds (h : c.Embeds k tail c') {scalar : Scalar} {d : c.After}
    (hscan : Scalar.scan c = some (scalar, d)) (hend : tokenMayEnd (d.1.rest ++ tail) = true) :
    ∃ d', Scalar.scan c' = some (scalar.shift k, d') ∧ d.1.Embeds k tail d'.1 := by
  unfold Scalar.scan at hscan
  split at hscan
  · simp at hscan
  · rename_i raw meaning rest hliteral
    obtain ⟨rfl, rfl⟩ := by simpa using hscan
    obtain ⟨form, rfl, rfl⟩ := ScalarForm.of_literalAt? hliteral
    have happend := (literalAt?_append hliteral).1
    have hliteral' : literalAt? (form.text ++ (rest ++ tail)) =
        some (form.text, form.meaning, rest ++ tail) := form.literalAt?_eq hend
    rw [← List.append_assoc, happend, ← h.rest_eq] at hliteral'
    unfold Scalar.scan
    split
    · rename_i hnone
      simp [hnone] at hliteral'
    · rename_i raw' meaning' rest' hsome
      obtain ⟨rfl, rfl, rfl⟩ : raw' = form.text ∧ meaning' = form.meaning ∧ rest' = rest ++ tail := by
        simpa using hsome.symm.trans hliteral'
      have hd := h.of_moves (c.moves_past happend)
        (c'.moves_past (literalAt?_append hsome).1)
      simp only [h.position_eq, hd.position_eq]
      exact ⟨_, rfl, hd⟩

theorem Scalar.scan_head {scalar : Scalar} {d : c.After} (hscan : Scalar.scan c = some (scalar, d)) :
    ∃ x rest, c.rest = x :: rest ∧ x ∉ openers ++ breakChars := by
  unfold Scalar.scan at hscan
  split at hscan
  · simp at hscan
  · rename_i raw meaning rest hliteral
    obtain ⟨form, rfl, -⟩ := ScalarForm.of_literalAt? hliteral
    obtain ⟨x, text, htext, hx⟩ := form.text_eq
    refine ⟨x, text ++ rest, ?_, hx⟩
    rw [← (literalAt?_append hliteral).1, htext]
    rfl

/-- Where nothing opens, a value can only be a keyword or a number. -/
theorem readValue_eq_scalar {x : Char} {rest : List Char} (hc : c.rest = x :: rest)
    (hx : x ∉ openers) (s : Session σ) : readValue c s =
      orElse (readScalar c s) (fun (scalar, d) => (Value.scalar scalar, d)) fun s => (none, s) := by
  simp only [openers, List.mem_cons, List.not_mem_nil, or_false, not_or] at hx
  obtain ⟨hdouble, hsingle, hbrace, hbracket⟩ := hx
  rw [readValue_eq, readText_eq_none (Cursor.quote?_eq_none hc ⟨hdouble, hsingle⟩), orElse,
    readExpression_eq_none (Expression.scan_eq_none_of_head hc hbrace), orElse,
    readArray_eq_none hc hbracket, orElse, readObject_eq_none hc hbrace, orElse]

/-- A keyword or a number reads the same in a longer text, where a token may end behind it. -/
theorem readScalar_embeds (h : c.Embeds k tail c') {scalar : Scalar} {d : c.After}
    (hscan : Scalar.scan c = some (scalar, d)) (hend : tokenMayEnd (d.1.rest ++ tail) = true) :
    Finds k tail s' (readValue c' s') (.scalar (scalar.shift k)) d.1 := by
  obtain ⟨x, rest, hrest, hx⟩ := Scalar.scan_head hscan
  rw [List.mem_append, not_or] at hx
  obtain ⟨d', hscan', hd⟩ := Scalar.scan_embeds h hscan hend
  rw [readValue_eq_scalar (h.rest_cons hrest) hx.1, readScalar, hscan']
  exact ⟨d', _, rfl, hd, .observe s' _⟩

end Rules

end DataTemplate
