/-
How string content is cut into parts.  Segments and expressions take turns and lie side by side; a
segment ends where its quote, the end of the text or an expression comes, so that none of them
stands in a segment but behind a backslash.  A literal that is read in the short way is the string
that its content gives.  Main statements: `readText_eq_readTextContent` and
`readTextContent_built`.
-/
import DataTemplate.Proofs.Embedding
import DataTemplate.Proofs.Fidelity
import DataTemplate.Proofs.Outcome
import Mathlib.Data.List.Induction

namespace DataTemplate

variable {σ : Type} {quote : Option Quote} {c d stop : Cursor}

/-! ### Literals without a brace -/

/-- The string that a literal from `c` to `d` is if all of its content is one segment. -/
def literalText (quote : Quote) (c d : Cursor) (raw : List Char) : Text where
  span := ⟨c.position, d.position⟩
  quote := some quote
  first := ⟨⟨c.position + 1, d.position - 1⟩, String.ofList raw⟩
  more := []

/-- The session after a literal of one segment: the host is told of the segment, then of the
string. -/
def Session.observeLiteral (s : Session σ) (text : Text) : Session σ :=
  (s.observe (.segment text.first)).observe (.value (.text text))

/-- What reading the content of the quoted string here comes to. -/
def readQuotedContent {quote : Quote} (h : c.quote? = some quote) (s : Session σ) :
    Reading σ Text c :=
  let inner := c.next (Cursor.ne_nil_of_quote? h)
  let read := readTextContent (some quote) c inner.1 s
  (some (read.1, ⟨read.2.1.1, Cursor.lt_of_lt_of_le inner.2 read.2.1.2⟩), read.2.2)

theorem readText_eq_readQuotedContent {quote : Quote} (h : c.quote? = some quote)
    (s : Session σ) : readText c s = readQuotedContent h s := by
  obtain ⟨inner, content, u, d, hd, hinner, hcontent, hread⟩ := readText_eq_content h s
  obtain rfl : inner = (c.next (Cursor.ne_nil_of_quote? h)).1 :=
    hinner.unique (Cursor.moves_next_of_quote? h)
  rw [hread]
  simp only [readQuotedContent, readTextContent, hcontent]

theorem readText_literal {quote : Quote} (h : c.quote? = some quote) {raw : List Char}
    {d : c.After} (hraw : c.matchQuoted = .ok (some (raw, d))) (hbrace : '{' ∉ raw)
    (s : Session σ) :
    readText c s = (some (literalText quote c d.1 raw, d),
      s.observeLiteral (literalText quote c d.1 raw)) := by
  have hfree : raw.contains '{' = false := by simpa using hbrace
  unfold readText
  split
  · rename_i hnone
    simp [h] at hnone
  · rename_i other hother
    obtain rfl : quote = other := Option.some.inj (h.symm.trans hother)
    simp only [hraw, hfree]
    rfl

/-- The short way of reading a literal cannot be told from reading its content: not by the string,
nor by where it ends, nor by what the session and the host hold afterwards.  A literal without a
brace is one segment in either way. -/
theorem readText_eq_readTextContent {quote : Quote} (h : c.quote? = some quote)
    (s : Session σ) :
    readText c s = readQuotedContent h s ∧
      ∀ raw d, c.matchQuoted = .ok (some (raw, d)) → '{' ∉ raw →
        readQuotedContent h s = (some (literalText quote c d.1 raw, d),
          s.observeLiteral (literalText quote c d.1 raw)) := by
  refine ⟨readText_eq_readQuotedContent h s, ?_⟩
  intro raw d hraw hbrace
  rw [← readText_eq_readQuotedContent h s]
  exact readText_literal h hraw hbrace s

/-- An escaped quote does not end a literal. -/
theorem readText_eq_readTextContent_escaped :
    let c := Cursor.ofText "\"\\\"\"".toList
    let s := Session.start ({} : Hooks Unit) () true
    ∃ (h : c.quote? = some .double) (d : c.After),
      c.matchQuoted = .ok (some (['\\', '\x22'], d)) ∧
        readText c s = readQuotedContent h s ∧
        readQuotedContent h s = (some (literalText .double c d.1 ['\\', '\x22'], d),
          s.observeLiteral (literalText .double c d.1 ['\\', '\x22'])) := by
  intro c s
  have hquote : c.quote? = some .double := rfl
  have hliteral : ∃ d : c.After, c.matchQuoted = .ok (some (['\\', '\x22'], d)) := ⟨_, rfl⟩
  obtain ⟨d, hraw⟩ := hliteral
  obtain ⟨hsame, hcontent⟩ := readText_eq_readTextContent hquote s
  exact ⟨hquote, d, hraw, hsame, hcontent _ d hraw (by decide)⟩

/-! ### What stands in the open -/

/-- The number of backslashes that a text ends in. -/
def trailingBackslashes (text : List Char) : Nat :=
  (text.reverse.takeWhile (· == '\\')).length

/-- No backslash hides the character after a text, since each backslash that the text ends in hides
another of them. -/
def Exposes (text : List Char) : Prop := trailingBackslashes text % 2 = 0

/-- A character stands in a text behind `before`, and no backslash hides it. -/
def OpenAt (x : Char) (before text : List Char) : Prop :=
  Exposes before ∧ ∃ after, text = before ++ x :: after

theorem trailingBackslashes_concat (text : List Char) (x : Char) :
    trailingBackslashes (text ++ [x]) = if x = '\\' then trailingBackslashes text + 1 else 0 := by
  by_cases hx : x = '\\'
  · simp [trailingBackslashes, hx]
  · simp [trailingBackslashes, hx]

theorem isStatic_concat (text : List Char) (x : Char) :
    isStatic [] (text ++ [x]) = (decide (x ≠ '\\') || !isStatic [] text) := by
  fun_induction isStatic [] text with
  | case1 => by_cases hx : x = '\\' <;> simp [isStatic, hx]
  | case2 => simp [isStatic]
  | case3 y ys ih => simpa [isStatic] using ih
  | case4 y ys hy ih =>
    rw [List.cons_append, isStatic_cons hy, ih]
    simp

/-- Walking over a text, backslashes with the characters that they hide, ends in step with it just
if the backslashes at its end pair up. -/
theorem exposes_iff {text : List Char} : Exposes text ↔ isStatic [] text = true := by
  induction text using List.reverseRecOn with
  | nil => simp [Exposes, trailingBackslashes, isStatic]
  | append_singleton text x ih =>
    unfold Exposes at ih ⊢
    rw [trailingBackslashes_concat, isStatic_concat]
    by_cases hx : x = '\\'
    · simp only [hx, if_true, ne_eq, not_true, decide_false, Bool.false_or, Bool.not_eq_true']
      rw [← Bool.not_eq_true, ← ih]
      omega
    · simp [hx]

theorem exposes_nil : Exposes [] := exposes_iff.mpr rfl

theorem Exposes.append_iff {xs ys : List Char} (h : Exposes xs) :
    Exposes (xs ++ ys) ↔ Exposes ys := by
  rw [exposes_iff, exposes_iff, isStatic_append (exposes_iff.mp h)]

theorem OpenAt.append {x : Char} {before xs ys : List Char} (h : OpenAt x before (xs ++ ys))
    (hxs : Exposes xs) :
    OpenAt x before xs ∨ ∃ between, before = xs ++ between ∧ OpenAt x between ys := by
  obtain ⟨hbefore, after, hsplit⟩ := h
  rcases append_cons_eq_append_iff.mp hsplit.symm with ⟨rest, hfront, -⟩ | ⟨between, rfl, hys⟩
  · exact .inl ⟨hbefore, rest, hfront⟩
  · exact .inr ⟨between, rfl, hxs.append_iff.mp hbefore, after, hys⟩

theorem OpenAt.singleton {x y : Char} {before : List Char} (h : OpenAt x before [y]) :
    before = [] ∧ x = y := by
  obtain ⟨-, after, hsplit⟩ := h
  cases before with
  | nil => exact ⟨rfl, (List.cons.inj hsplit).1.symm⟩
  | cons z before => simp at hsplit

/-- A search stops at the first needle that no backslash hides. -/
theorem search_openAt {stops : List Char} (hescape : '\\' ∉ stops) {x : Char} (hx : x ∈ stops)
    {before text : List Char} (h : OpenAt x before text) :
    ∃ found, search (stops.map fun stop => [stop]) (some '\\') text = some found ∧
      found.before.length ≤ before.length := by
  obtain ⟨hbefore, after, rfl⟩ := h
  have hwalk := exposes_iff.mp hbefore
  clear hbefore
  fun_induction isStatic [] before with
  | case1 => exact ⟨_, search_stop hescape hx after, Nat.le_refl _⟩
  | case2 => simp at hwalk
  | case3 y ys ih =>
    obtain ⟨found, hfound, hle⟩ := ih hwalk
    refine ⟨found.behind ['\\', y], ?_, by simpa [Occurrence.behind] using hle⟩
    simp only [List.cons_append]
    rw [search_cons_escape, hfound]
    rfl
  | case4 y ys hy ih =>
    obtain ⟨found, hfound, hle⟩ := ih (by simpa using hwalk)
    have hother : some '\\' ≠ some y := fun heq => hy (Option.some.inj heq).symm
    simp only [List.cons_append]
    rw [search_cons hother, needleAt?_singletons]
    by_cases hstop : y ∈ stops
    · rw [if_pos hstop]
      exact ⟨_, rfl, Nat.zero_le _⟩
    · rw [if_neg hstop, hfound]
      exact ⟨_, rfl, by simpa [Occurrence.behind] using hle⟩

/-! ### Segments -/

/-- What a string opens with. -/
def opening (quote : Option Quote) : List Char := (quote.map Quote.char).toList

/-- The characters that may interrupt the static text of a string. -/
def contentStops (quote : Option Quote) : List Char := opening quote ++ ['{']

theorem contentNeedles_eq_map (quote : Option Quote) :
    contentNeedles quote = (contentStops quote).map fun stop => [stop] := by
  cases quote <;> rfl

theorem backslash_not_mem_contentStops (quote : Option Quote) : '\\' ∉ contentStops quote := by
  rcases quote with - | (- | -) <;> decide

/-- Text from `c` on that a segment may hold: no quote stands in the open, and at no brace in the
open an expression can be read. -/
structure StaticRun (quote : Option Quote) (c : Cursor) (text : List Char) : Prop where
  no_quote : ∀ mark, quote = some mark → ∀ before, ¬ OpenAt mark.char before text
  no_expression : ∀ before d, OpenAt '{' before text → c.Moves before d →
    Expression.scan d = none

theorem StaticRun.append {xs ys : List Char} (hxs : StaticRun quote c xs) (hopen : Exposes xs)
    (hmoves : c.Moves xs d) (hys : StaticRun quote d ys) : StaticRun quote c (xs ++ ys) where
  no_quote mark hquote before h := by
    rcases h.append hopen with hin | ⟨between, -, hin⟩
    · exact hxs.no_quote mark hquote before hin
    · exact hys.no_quote mark hquote between hin
  no_expression before e h he := by
    rcases h.append hopen with hin | ⟨between, rfl, hin⟩
    · exact hxs.no_expression before e hin he
    · obtain ⟨middle, hmiddle, hlast⟩ := he.split
      obtain rfl : middle = d := hmiddle.unique hmoves
      exact hys.no_expression between e hin hlast

/-- Text in which nothing that could interrupt it stands in the open. -/
theorem StaticRun.of_closed {text : List Char}
    (h : ∀ x ∈ contentStops quote, ∀ before, ¬ OpenAt x before text) : StaticRun quote c text where
  no_quote mark hquote before hopen := by
    refine h mark.char ?_ before hopen
    simp [contentStops, opening, hquote]
  no_expression before d hopen := by
    refine absurd hopen (h '{' ?_ before)
    simp [contentStops]

theorem StaticRun.nil : StaticRun quote c [] := by
  refine .of_closed ?_
  rintro x - before ⟨-, after, hnone⟩
  simp at hnone

/-- A brace at which no expression can be read. -/
theorem StaticRun.brace (h : Expression.scan c = none) : StaticRun quote c ['{'] where
  no_quote mark _ before hopen := by
    have hbrace := hopen.singleton.2
    revert hbrace
    cases mark <;> decide
  no_expression before d hopen hd := by
    obtain ⟨rfl, -⟩ := hopen.singleton
    obtain rfl := hd.unique (.refl c)
    exact h

theorem StaticRun.of_find_none (h : c.find (contentNeedles quote) (some '\\') = none) :
    StaticRun quote c c.rest := by
  refine .of_closed ?_
  intro x hx before hopen
  obtain ⟨found, hfound, -⟩ := search_openAt (backslash_not_mem_contentStops quote) hx hopen
  rw [← contentNeedles_eq_map, Cursor.search_of_find_none h] at hfound
  simp at hfound

/-- Static text from `c` up to `d`, with nothing hidden behind it: what the search for the end of a
segment has passed over. -/
structure Passed (quote : Option Quote) (c d : Cursor) (text : List Char) : Prop where
  moves : c.Moves text d
  run : StaticRun quote c text
  exposes : Exposes text

theorem Passed.refl (c : Cursor) : Passed quote c c [] := ⟨.refl c, .nil, exposes_nil⟩

theorem Passed.trans {e : Cursor} {xs ys : List Char} (h : Passed quote c d xs)
    (k : Passed quote d e ys) : Passed quote c e (xs ++ ys) where
  moves := h.moves.trans k.moves
  run := h.run.append h.exposes h.moves k.run
  exposes := h.exposes.append_iff.mpr k.exposes

/-- A brace is passed over if no expression can be read there. -/
theorem Passed.brace (hmoves : c.Moves ['{'] d) (hscan : Expression.scan c = none) :
    Passed quote c d ['{'] := ⟨hmoves, .brace hscan, exposes_iff.mpr (by decide)⟩

section Hit

variable {hit : c.Hit (contentNeedles quote)}

/-- The text up to what interrupts it is passed over. -/
theorem Passed.of_find (h : c.find (contentNeedles quote) (some '\\') = some hit) :
    Passed quote c hit.start hit.before := by
  have hsearch : search ((contentStops quote).map fun stop => [stop]) (some '\\') c.rest =
      some ⟨hit.before, hit.needle, hit.stop.rest⟩ := by
    rw [← contentNeedles_eq_map]
    exact Cursor.search_of_find h
  refine ⟨hit.reach, .of_closed ?_, ?_⟩
  · -- a stop in the open would have been found in its place
    rintro x hx before ⟨hbefore, after, hsplit⟩
    have hopen : OpenAt x before c.rest := by
      refine ⟨hbefore, after ++ (hit.needle ++ hit.stop.rest), ?_⟩
      rw [hit.reach.rest_eq, hit.rest_start, hsplit]
      simp
    obtain ⟨found, hfound, hle⟩ := search_openAt (backslash_not_mem_contentStops quote) hx hopen
    obtain rfl := Option.some.inj (hsearch.symm.trans hfound)
    have hlength := congrArg List.length hsplit
    simp only [List.length_append, List.length_cons] at hlength
    dsimp only at hle
    omega
  · exact exposes_iff.mpr (isStatic_mono (by simp) (isStatic_before hsearch))

theorem mark_of_needle (hneedle : (hit.needle == ['{']) ≠ true) :
    ∃ mark, quote = some mark ∧ hit.needle = [mark.char] := by
  have hmem := hit.mem
  cases quote with
  | none => simp_all [contentNeedles]
  | some mark => exact ⟨mark, rfl, by simp_all [contentNeedles]⟩

end Hit

/-! ### Parts side by side -/

/-- The parts of a string side by side from `c` to `stop`: static text, and an expression behind
each segment but the last.  Where the source goes on, the last segment hides nothing either. -/
inductive Laid (quote : Option Quote) :
    Cursor → Cursor → Segment → List (Expression × Segment) → Prop
  | last {c stop : Cursor} {text : List Char} (hmoves : c.Moves text stop)
      (hrun : StaticRun quote c text) (hopen : stop.rest ≠ [] → Exposes text) :
      Laid quote c stop ⟨⟨c.position, stop.position⟩, String.ofList text⟩ []
  | cons {c d after stop : Cursor} {text : List Char} {e : Expression} {next : Segment}
      {more : List (Expression × Segment)} (hpassed : Passed quote c d text) (hlt : d < after)
      (he : e.span = ⟨d.position, after.position⟩) (hnext : Laid quote after stop next more) :
      Laid quote c stop ⟨⟨c.position, d.position⟩, String.ofList text⟩ ((e, next) :: more)

/-- String content that ends at `stop` is followed by its quote up to `d`, or the text is over. -/
def TextEnds (quote : Option Quote) (stop d : Cursor) : Prop :=
  (stop.rest = [] ∧ d = stop) ∨ ∃ mark, quote = some mark ∧ stop.Moves [mark.char] d

theorem segmentBetween_moves {text : List Char} (h : c.Moves text d) :
    segmentBetween c d = ⟨⟨c.position, d.position⟩, String.ofList text⟩ := by
  rw [segmentBetween, h.textTo_eq]

/-- Content is laid from the start of its first segment, up to its quote or to the end of the
text. -/
theorem readContent_laid (quote : Option Quote) {segment c : Cursor}
    (h : ∃ text, Passed quote segment c text) (s : Session σ) : ∃ stop,
      Laid quote segment stop (readContent quote segment c s).1.first
        (readContent quote segment c s).1.more ∧
      TextEnds quote stop (readContent quote segment c s).2.1.1 ∧
      ((readContent quote segment c s).1.closed = true ↔
        ¬ (quote.isSome = true ∧ stop.rest = [])) := by
  fun_induction readContent quote segment c s with
  | case1 segment c s hfind last =>
    obtain ⟨text, hpassed⟩ := h
    have hmoves := hpassed.moves.trans c.moves_toEnd
    have hrun := hpassed.run.append hpassed.exposes hpassed.moves (.of_find_none hfind)
    have hend : c.toEnd.rest = [] := rfl
    refine ⟨c.toEnd, ?_, .inl ⟨hend, rfl⟩, ?_⟩
    · rw [show last = _ from segmentBetween_moves hmoves]
      exact .last hmoves hrun (absurd hend)
    · cases quote <;> simp [hend]
  | case2 segment c s hit hfind hneedle t hread hlt content d u hrest ih =>
    -- the brace goes to the segment, since no expression starts there
    obtain ⟨text, hpassed⟩ := h
    have hbrace : hit.needle = ['{'] := by simpa using hneedle
    have hspell := hit.spell
    rw [hbrace] at hspell
    have hscan := (readExpression_none hread).1
    have hnext := ih ⟨_, (hpassed.trans (.of_find hfind)).trans (.brace hspell hscan)⟩
    rwa [hrest] at hnext
  | case3 segment c s hit hfind hneedle e after t hread hlt first content d u hrest ih =>
    obtain ⟨text, hpassed⟩ := h
    have hsegment := hpassed.trans (.of_find hfind)
    obtain ⟨stop, hlaid, hend, hclosed⟩ := ih ⟨_, .refl after.1⟩
    rw [hrest] at hlaid hend hclosed
    refine ⟨stop, ?_, hend, hclosed⟩
    rw [show first = _ from segmentBetween_moves hsegment.moves]
    exact .cons hsegment after.2 (readExpression_span hread) hlaid
  | case4 segment c s hit hfind hneedle last =>
    obtain ⟨text, hpassed⟩ := h
    have hsegment := hpassed.trans (.of_find hfind)
    obtain ⟨mark, hquote, hmark⟩ := mark_of_needle hneedle
    have hspell := hit.spell
    rw [hmark] at hspell
    refine ⟨hit.start, ?_, .inr ⟨mark, hquote, hspell⟩, ?_⟩
    · rw [show last = _ from segmentBetween_moves hsegment.moves]
      exact .last hsegment.moves hsegment.run fun _ => hsegment.exposes
    · simp [hspell.rest_eq]

/-! ### What a string is made of -/

/-- Spans side by side from `start` to `stop`. -/
def Span.Abut (start stop : Nat) : List Span → Prop
  | [] => start = stop
  | span :: spans => span.start = start ∧ span.start ≤ span.stop ∧ Abut span.stop stop spans

/-- The parts of a string by its first segment and the pairs behind it. -/
def partsOf (first : Segment) (more : List (Expression × Segment)) : List TextPart :=
  .segment first :: more.flatMap fun (e, s) => [.expression e, .segment s]

section Parts

variable {first : Segment} {more : List (Expression × Segment)} {i : Nat}

theorem partsOf_cons (first next : Segment) (e : Expression)
    (more : List (Expression × Segment)) :
    partsOf first ((e, next) :: more) = .segment first :: .expression e :: partsOf next more := rfl

theorem length_partsOf : (partsOf first more).length = 2 * more.length + 1 := by
  induction more generalizing first with
  | nil => rfl
  | cons part more ih =>
    rw [partsOf_cons, List.length_cons, List.length_cons, ih, List.length_cons]
    omega

/-- Segments stand at the even places, and expressions at the odd ones. -/
theorem partsOf_place {part : TextPart} (h : (partsOf first more)[i]? = some part) :
    match part with
    | .segment _ => i % 2 = 0
    | .expression _ => i % 2 = 1 := by
  induction more generalizing first i with
  | nil =>
    obtain ⟨rfl, rfl⟩ : i = 0 ∧ TextPart.segment first = part := by
      simpa [partsOf, List.getElem?_singleton] using h
    rfl
  | cons pair more ih =>
    rw [partsOf_cons] at h
    match i with
    | 0 =>
      obtain rfl := Option.some.inj h
      rfl
    | 1 =>
      obtain rfl := Option.some.inj h
      rfl
    | i + 2 =>
      have hlater := ih h
      cases part <;> simpa using hlater

theorem Text.isDynamic_iff (t : Text) :
    t.isDynamic = true ↔ ∃ e, TextPart.expression e ∈ t.parts := by
  obtain ⟨span, quote, first, more⟩ := t
  cases more with
  | nil => simp [isDynamic, parts]
  | cons part more =>
    obtain ⟨e, next⟩ := part
    simp only [isDynamic, List.isEmpty_cons, Bool.not_false, true_iff]
    exact ⟨e, by simp [parts]⟩

theorem Laid.le (h : Laid quote c stop first more) : c ≤ stop := by
  induction h with
  | last hmoves => exact hmoves.le
  | cons hpassed hlt _ _ ih =>
    exact Cursor.le_trans hpassed.moves.le (Cursor.le_trans (Cursor.le_of_lt hlt) ih)

theorem Laid.abut (h : Laid quote c stop first more) :
    Span.Abut c.position stop.position (first.span :: partSpansAfter more) := by
  induction h with
  | last hmoves => exact ⟨rfl, Cursor.position_le_of_le hmoves.le, rfl⟩
  | @cons c d after stop text e next more hpassed hlt he hnext ih =>
    refine ⟨rfl, Cursor.position_le_of_le hpassed.moves.le, ?_⟩
    have hspans : partSpansAfter ((e, next) :: more) =
        e.span :: next.span :: partSpansAfter more := rfl
    rw [hspans, he]
    exact ⟨rfl, Cursor.position_le_of_le (Cursor.le_of_lt hlt), ih⟩

/-- A segment is static text of the source; behind it nothing is hidden, unless it is the last and
the source ends with it. -/
theorem Laid.segment (h : Laid quote c stop first more) {segment : Segment}
    (hi : (partsOf first more)[i]? = some (.segment segment)) :
    ∃ start d text, start.source = c.source ∧ start.Moves text d ∧ StaticRun quote start text ∧
      segment = ⟨⟨start.position, d.position⟩, String.ofList text⟩ ∧
      (i + 1 < (partsOf first more).length ∨ stop.rest ≠ [] → Exposes text) := by
  induction h generalizing i with
  | @last c stop text hmoves hrun hopen =>
    obtain ⟨rfl, hsegment⟩ : i = 0 ∧
        TextPart.segment ⟨⟨c.position, stop.position⟩, String.ofList text⟩ = .segment segment := by
      simpa [partsOf, List.getElem?_singleton] using hi
    refine ⟨c, stop, text, rfl, hmoves, hrun, (TextPart.segment.inj hsegment).symm, ?_⟩
    rintro (hmore | hrest)
    · simp [partsOf] at hmore
    · exact hopen hrest
  | @cons c d after stop text e next more hpassed hlt he hnext ih =>
    rw [partsOf_cons] at hi ⊢
    match i with
    | 0 =>
      have hsegment := TextPart.segment.inj (Option.some.inj hi)
      exact ⟨c, d, text, rfl, hpassed.moves, hpassed.run, hsegment.symm, fun _ => hpassed.exposes⟩
    | 1 => simp at hi
    | i + 2 =>
      obtain ⟨start, d', text', hsource, hmoves, hrun, hsegment, hopen⟩ := ih hi
      have hafter : after.source = c.source :=
        (Cursor.source_eq_of_lt hlt).trans hpassed.moves.source_eq
      refine ⟨start, d', text', hsource.trans hafter, hmoves, hrun, hsegment, ?_⟩
      have hplace : i + 2 + 1 < (partsOf next more).length + 1 + 1 ↔
          i + 1 < (partsOf next more).length := by omega
      rwa [List.length_cons, List.length_cons, hplace]

end Parts

/-- A string that opens at `c` and was made of the content from there to `stop`. -/
structure TextBuilt (σ : Type) (quote : Option Quote) (c stop : Cursor) (text : Text) : Prop where
  le : c ≤ stop
  odd : text.parts.length % 2 = 1
  segment_even : ∀ i segment, text.parts[i]? = some (.segment segment) → i % 2 = 0
  expression_odd : ∀ i e, text.parts[i]? = some (.expression e) → i % 2 = 1
  dynamic : text.isDynamic = true ↔ ∃ e, TextPart.expression e ∈ text.parts
  abut : Span.Abut (c.position + byteLength (opening quote)) stop.position text.partSpans
  spells : ∀ segment, .segment segment ∈ text.parts →
    segment.span.Spells c.source segment.raw.toList
  no_quote : ∀ segment, .segment segment ∈ text.parts → ∀ mark, quote = some mark →
    ∀ before, ¬ OpenAt mark.char before segment.raw.toList
  no_expression : ∀ segment, .segment segment ∈ text.parts →
    ∀ before, OpenAt '{' before segment.raw.toList → ∃ d : Cursor, d.source = c.source ∧
      d.position = segment.span.start + byteLength before ∧ d.rest.head? = some '{' ∧
      ∀ s : Session σ, readExpression d s = (none, s)
  exposes : ∀ i segment, text.parts[i]? = some (.segment segment) →
    i + 1 < text.parts.length ∨ stop.rest ≠ [] → Exposes segment.raw.toList

theorem Laid.built {inner : Cursor} {text : Text} (hinner : c.Moves (opening quote) inner)
    (h : Laid quote inner stop text.first text.more) : TextBuilt σ quote c stop text where
  le := Cursor.le_trans hinner.le h.le
  odd := by
    rw [show text.parts.length = _ from length_partsOf]
    omega
  segment_even _ _ hi := partsOf_place hi
  expression_odd _ _ hi := partsOf_place hi
  dynamic := text.isDynamic_iff
  abut := by
    rw [text.partSpans_eq, ← hinner.position_eq]
    exact h.abut
  spells segment hmem := by
    obtain ⟨i, hi⟩ := List.mem_iff_getElem?.mp hmem
    obtain ⟨start, d, raw, hsource, hmoves, -, rfl, -⟩ := h.segment hi
    rw [String.toList_ofList, ← hinner.source_eq, ← hsource]
    exact hmoves.spells
  no_quote segment hmem mark hquote before hopen := by
    obtain ⟨i, hi⟩ := List.mem_iff_getElem?.mp hmem
    obtain ⟨start, d, raw, -, -, hrun, rfl, -⟩ := h.segment hi
    rw [String.toList_ofList] at hopen
    exact hrun.no_quote mark hquote before hopen
  no_expression segment hmem before hopen := by
    obtain ⟨i, hi⟩ := List.mem_iff_getElem?.mp hmem
    obtain ⟨start, d, raw, hsource, hmoves, hrun, rfl, -⟩ := h.segment hi
    rw [String.toList_ofList] at hopen
    obtain ⟨after, rfl⟩ := hopen.2
    obtain ⟨place, hplace, hbrace⟩ := hmoves.split
    have hscan := hrun.no_expression before place hopen hplace
    have hhead : place.rest.head? = some '{' := by simp [hbrace.rest_eq]
    exact ⟨place, (hplace.source_eq.trans hsource).trans hinner.source_eq, hplace.position_eq,
      hhead, readExpression_eq_none hscan⟩
  exposes i segment hi := by
    obtain ⟨start, d, raw, -, -, -, rfl, hexposes⟩ := h.segment hi
    rw [String.toList_ofList]
    exact hexposes

/-- What a problem adds depends on the problems met before, not on the rest of the session. -/
theorem Session.commit_congr {s t : Session σ} (hproblems : t.problems = s.problems)
    (hhalted : t.halted = s.halted) (hpolicy : t.haltOnProblem = s.haltOnProblem) (cause : Cause)
    (position : Nat) :
    (t.commit cause position).problems = (s.commit cause position).problems ∧
      (t.commit cause position).halted = (s.commit cause position).halted := by
  unfold Session.commit
  rw [hhalted]
  split
  · exact ⟨hproblems, hhalted⟩
  · exact ⟨by simp [Session.push, hproblems], hpolicy⟩

/-- A string is made of its content, from behind its quote or from `c` if it has none, up to its
quote or to the end of the text.  That the string misses its end is a problem just if it has a
quote and the text is over. -/
theorem readTextContent_built {inner : Cursor} (hinner : c.Moves (opening quote) inner)
    (s : Session σ) : ∃ stop,
      TextBuilt σ quote c stop (readTextContent quote c inner s).1 ∧
      TextEnds quote stop (readTextContent quote c inner s).2.1.1 ∧
      (readTextContent quote c inner s).1.span =
        ⟨c.position, (readTextContent quote c inner s).2.1.1.position⟩ ∧
      let told := if quote.isSome = true ∧ stop.rest = [] then
        s.commit .unclosedString c.sourceLength else s
      (readTextContent quote c inner s).2.2.problems = told.problems ∧
        (readTextContent quote c inner s).2.2.halted = told.halted := by
  obtain ⟨stop, hlaid, hend, hclosed⟩ := readContent_laid quote ⟨[], .refl inner⟩ s
  obtain ⟨hproblems, hhalted⟩ := readContent_problems quote inner inner s
  have hgrows : s.Grows (readContent quote inner inner s).2.2 :=
    Session.Grows.law.content quote inner inner s
  refine ⟨stop, hlaid.built hinner, hend, rfl, ?_⟩
  simp only [readTextContent, finishText]
  by_cases hmissing : quote.isSome = true ∧ stop.rest = []
  · have hopen : (readContent quote inner inner s).1.closed = false := by
      simpa [hmissing] using hclosed
    rw [if_pos hmissing, hopen]
    exact Session.commit_congr hproblems hhalted hgrows.haltOnProblem_eq _ _
  · rw [if_neg hmissing, hclosed.mpr hmissing]
    exact ⟨hproblems, hhalted⟩

theorem readTextContent_built_unclosed :
    ∃ inner stop,
      (Cursor.ofText "\"a\x7b\x7b\x7bb\x7d\x7d".toList).Moves (opening (some .double)) inner ∧
      TextBuilt Unit (some .double) (.ofText "\"a\x7b\x7b\x7bb\x7d\x7d".toList) stop
        (readTextContent (some .double) (.ofText "\"a\x7b\x7b\x7bb\x7d\x7d".toList) inner
          (Session.start ({} : Hooks Unit) () true)).1 ∧
      (readTextContent (some .double) (.ofText "\"a\x7b\x7b\x7bb\x7d\x7d".toList) inner
        (Session.start ({} : Hooks Unit) () true)).2.2.problems = #[⟨.unclosedString, 8⟩] := by
  let c := Cursor.ofText "\"a\x7b\x7b\x7bb\x7d\x7d".toList
  have hinner : c.Moves (opening (some .double)) (c.next (by decide)).1 :=
    Cursor.moves_next_of_quote? rfl
  obtain ⟨stop, hbuilt, -⟩ := readTextContent_built hinner (Session.start ({} : Hooks Unit) () true)
  exact ⟨_, stop, hinner, hbuilt, by decide +kernel⟩

end DataTemplate
