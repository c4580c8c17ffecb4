/-
Where leaves stand.  What a rule reads at `c` up to `d` has the span from `c` to `d`, and the parts of
a string follow each other inside it.  Main statements: `Expression.scan_some`, `readContent_row`,
`readText_span` and `readKey_span`.
-/
import DataTemplate.Proofs.Rounds

namespace DataTemplate

variable {σ : Type}

/-! ### Text and bytes -/

@[simp] theorem utf8ByteSize_ofList (cs : List Char) :
    (String.ofList cs).utf8ByteSize = byteLength cs := by
  induction cs with
  | nil => rfl
  | cons c cs ih =>
    have hcons : String.ofList (c :: cs) = String.singleton c ++ String.ofList cs := by
      rw [← String.toList_inj]
      simp
    rw [hcons, String.utf8ByteSize_append, ih, byteLength_cons, String.utf8ByteSize_singleton]

theorem byteLength_replicate {x : Char} (hx : x.utf8Size = 1) (n : Nat) :
    byteLength (List.replicate n x) = n := by
  induction n with
  | zero => rfl
  | succ n ih => simp [List.replicate_succ, hx, ih, Nat.add_comm]

theorem takeWhile_eq_replicate (x : Char) (cs : List Char) :
    cs.takeWhile (· == x) = List.replicate (cs.takeWhile (· == x)).length x := by
  apply List.eq_replicate_of_mem
  intro y hy
  have hall : (cs.takeWhile (· == x)).all (· == x) = true := List.all_takeWhile
  simpa using List.all_eq_true.mp hall y hy

theorem Quote.utf8Size_char (quote : Quote) : quote.char.utf8Size = 1 := by
  cases quote <;> decide

theorem Quote.byteLength_char (quote : Quote) : byteLength [quote.char] = 1 := by
  simp [quote.utf8Size_char]

/-! ### Boundaries and rows of spans -/

/-- A byte position between two characters of a text, or at either end. -/
def IsBoundary (source : List Char) (position : Nat) : Prop :=
  ∃ before after, source = before ++ after ∧ position = byteLength before

theorem Cursor.isBoundary (c : Cursor) : IsBoundary c.source c.position := by
  obtain ⟨before, hsource, hposition⟩ := c.splits
  exact ⟨before, c.rest, hsource, hposition⟩

theorem IsBoundary.le {source : List Char} {position : Nat} (h : IsBoundary source position) :
    position ≤ byteLength source := by
  obtain ⟨before, after, rfl, rfl⟩ := h
  simp

/-- A span that does not run backwards, within a text and without splitting a character. -/
structure Span.In (source : List Char) (span : Span) : Prop where
  start_le_stop : span.start ≤ span.stop
  stop_le : span.stop ≤ byteLength source
  start_boundary : IsBoundary source span.start
  stop_boundary : IsBoundary source span.stop

theorem Span.in_of_boundary {source : List Char} {start stop : Nat} (h : start ≤ stop)
    (hstart : IsBoundary source start) (hstop : IsBoundary source stop) :
    Span.In source ⟨start, stop⟩ := ⟨h, hstop.le, hstart, hstop⟩

theorem Span.in_of_le {c d : Cursor} (h : c ≤ d) : Span.In c.source ⟨c.position, d.position⟩ :=
  Span.in_of_boundary (Cursor.position_le_of_le h) c.isBoundary
    (Cursor.source_eq_of_le h ▸ d.isBoundary)

/-- Spans that follow each other between two positions. -/
def Span.Row (start stop : Nat) : List Span → Prop
  | [] => start ≤ stop
  | span :: spans => start ≤ span.start ∧ span.start ≤ span.stop ∧ Row span.stop stop spans

namespace Span.Row

variable {start stop middle : Nat} {spans : List Span}

theorem le (h : Span.Row start stop spans) : start ≤ stop := by
  induction spans generalizing start with
  | nil => exact h
  | cons span spans ih =>
    obtain ⟨hstart, hspan, hrest⟩ := h
    exact Nat.le_trans hstart (Nat.le_trans hspan (ih hrest))

theorem mono_left (h : Span.Row middle stop spans) (hle : start ≤ middle) :
    Span.Row start stop spans := by
  cases spans with
  | nil => exact Nat.le_trans hle h
  | cons span spans => exact ⟨Nat.le_trans hle h.1, h.2⟩

theorem mono_right (h : Span.Row start middle spans) (hle : middle ≤ stop) :
    Span.Row start stop spans := by
  induction spans generalizing start with
  | nil => exact Nat.le_trans h hle
  | cons span spans ih => exact ⟨h.1, h.2.1, ih h.2.2⟩

theorem append_iff {others : List Span} :
    Span.Row start stop (spans ++ others) ↔
      ∃ middle, Span.Row start middle spans ∧ Span.Row middle stop others := by
  induction spans generalizing start with
  | nil =>
    constructor
    · exact fun h => ⟨start, Nat.le_refl _, h⟩
    · rintro ⟨middle, hle, h⟩
      exact mono_left h hle
  | cons span spans ih =>
    constructor
    · rintro ⟨hstart, hspan, h⟩
      obtain ⟨middle, hspans, hothers⟩ := ih.mp h
      exact ⟨middle, ⟨hstart, hspan, hspans⟩, hothers⟩
    · rintro ⟨middle, ⟨hstart, hspan, hspans⟩, hothers⟩
      exact ⟨hstart, hspan, ih.mpr ⟨middle, hspans, hothers⟩⟩

/-- A span behind a row makes it longer. -/
theorem concat (h : Span.Row start stop spans) (span : Span) (hle : stop ≤ span.start)
    (hspan : span.start ≤ span.stop) : Span.Row start span.stop (spans ++ [span]) :=
  append_iff.mpr ⟨stop, h, hle, hspan, Nat.le_refl _⟩

/-- The spans in front of a row's last are a row that ends no later. -/
theorem init {others : List Span} (h : Span.Row start stop (spans ++ others)) :
    ∃ middle, middle ≤ stop ∧ Span.Row start middle spans := by
  obtain ⟨middle, hspans, hothers⟩ := append_iff.mp h
  exact ⟨middle, hothers.le, hspans⟩

theorem le_of_mem (h : Span.Row start stop spans) :
    ∀ span ∈ spans, span.start ≤ span.stop := by
  induction spans generalizing start with
  | nil => simp
  | cons span spans ih => exact List.forall_mem_cons.mpr ⟨h.2.1, ih h.2.2⟩

/-- Every span of a row lies between its ends. -/
theorem bounds (h : Span.Row start stop spans) {span : Span} (hspan : span ∈ spans) :
    start ≤ span.start ∧ span.stop ≤ stop := by
  induction spans generalizing start with
  | nil => simp at hspan
  | cons first spans ih =>
    obtain ⟨hstart, hfirst, hrest⟩ := h
    rcases List.mem_cons.mp hspan with rfl | hspan
    · exact ⟨hstart, hrest.le⟩
    · obtain ⟨hle, hstop⟩ := ih hrest hspan
      exact ⟨by omega, hstop⟩

theorem pairwise (h : Span.Row start stop spans) :
    spans.Pairwise fun a b => a.stop ≤ b.start := by
  induction spans generalizing start with
  | nil => exact .nil
  | cons span spans ih =>
    obtain ⟨-, -, hrest⟩ := h
    exact .cons (fun other hother => (hrest.bounds hother).1) (ih hrest)

end Span.Row

/-- The span of a mark of one byte. -/
def markSpan (position : Nat) : Span := ⟨position, position + 1⟩

/-! ### Expressions -/

/-- The text of an expression: its braces around its body. -/
theorem Expression.scan_some {c : Cursor} {e : Expression} {d : c.After}
    (h : Expression.scan c = some (e, d)) :
    ∃ opened closed : Cursor, c.Moves (List.replicate e.braces '{') opened ∧
      opened.Moves e.raw.toList closed ∧ closed.Moves (List.replicate e.braces '}') d.1 ∧
      e.start = c.position ∧ 2 ≤ e.braces ∧ e.text = e.raw ∧ e.valueType = .unknown := by
  unfold Expression.scan at h
  split at h
  · rename_i hstarts
    dsimp only at h
    split at h
    · simp at h
    · rename_i hit hfind
      obtain ⟨rfl, rfl⟩ := by simpa using h
      have hopen := c.moves_matchWhile (· == '{')
      have hneedle := List.mem_singleton.mp hit.mem
      have hspell := hit.spell
      rw [hneedle] at hspell
      refine ⟨c.matchWhile (· == '{'), hit.start, ?_, by simpa using hit.reach, hspell, rfl, ?_, rfl,
        rfl⟩
      · rwa [Cursor.runOf, takeWhile_eq_replicate] at hopen
      · obtain ⟨rest, hrest⟩ := List.isPrefixOf_iff_prefix.mp hstarts
        simp [Cursor.runOf, ← hrest]
  · simp at h

theorem Expression.scan_span {c : Cursor} {e : Expression} {d : c.After}
    (h : Expression.scan c = some (e, d)) : e.span = ⟨c.position, d.1.position⟩ := by
  obtain ⟨opened, closed, hopen, hbody, hclose, hstart, -, -, -⟩ := Expression.scan_some h
  have hraw : byteLength e.raw.toList = e.raw.utf8ByteSize := by
    rw [← utf8ByteSize_ofList, String.ofList_toList]
  rw [Expression.span, Expression.bodySpan, hclose.position_eq, hbody.position_eq,
    hopen.position_eq, hstart, byteLength_replicate (by decide), byteLength_replicate (by decide),
    hraw]

theorem Session.finishExpression_revise (s : Session σ) (e : Expression) :
    ∃ revision, (s.finishExpression e).1 = e.revise revision := by
  unfold Session.finishExpression
  split
  · exact ⟨_, rfl⟩
  · exact ⟨_, rfl⟩

@[simp] theorem Expression.span_revise (e : Expression) (revision : Revision) :
    (e.revise revision).span = e.span := rfl

theorem readExpression_span {c : Cursor} {s t : Session σ} {e : Expression} {d : c.After}
    (h : readExpression c s = (some (e, d), t)) : e.span = ⟨c.position, d.1.position⟩ := by
  obtain ⟨scanned, hscan, hfinish⟩ := readExpression_some h
  obtain ⟨revision, hrevise⟩ := s.finishExpression_revise scanned
  rw [hfinish] at hrevise
  rw [show e = scanned.revise revision from hrevise, Expression.span_revise]
  exact Expression.scan_span hscan

/-! ### Strings -/

/-- Where the parts of a string stand. -/
def Text.partSpans (t : Text) : List Span := t.parts.map TextPart.span

/-- The spans of the parts that follow the first segment. -/
def partSpansAfter (more : List (Expression × Segment)) : List Span :=
  more.flatMap fun (e, s) => [e.span, s.span]

theorem Text.partSpans_eq (t : Text) : t.partSpans = t.first.span :: partSpansAfter t.more := by
  have hmore (more : List (Expression × Segment)) :
      (more.flatMap fun (e, s) => [TextPart.expression e, .segment s]).map TextPart.span =
        partSpansAfter more := by
    induction more with
    | nil => rfl
    | cons part more ih =>
      simp only [partSpansAfter, List.flatMap_cons, List.map_append] at ih ⊢
      rw [ih]
      rfl
  rw [partSpans, parts, List.map_cons, hmore]
  rfl

/-- The parts of some content, in a row and each within the text. -/
structure Content.Row (source : List Char) (start stop : Nat) (content : Content) : Prop where
  row : Span.Row start stop (content.first.span :: partSpansAfter content.more)
  inside : ∀ span ∈ content.first.span :: partSpansAfter content.more, span.In source

theorem Content.Row.mono_right {source : List Char} {start middle stop : Nat} {content : Content}
    (h : content.Row source start middle) (hle : middle ≤ stop) : content.Row source start stop :=
  ⟨h.row.mono_right hle, h.inside⟩

theorem Content.row_single {source : List Char} {segment : Segment} (closed : Bool)
    (h : segment.span.In source) :
    Content.Row source segment.span.start segment.span.stop ⟨segment, [], closed⟩ where
  row := ⟨Nat.le_refl _, h.start_le_stop, Nat.le_refl _⟩
  inside := by simpa [partSpansAfter] using h

theorem Content.row_cons {source : List Char} {segment : Segment} {e : Expression} {stop : Nat}
    {content : Content} (hsegment : segment.span.In source) (he : e.span.In source)
    (hle : segment.span.stop ≤ e.span.start) (h : content.Row source e.span.stop stop) :
    Content.Row source segment.span.start stop
      ⟨segment, (e, content.first) :: content.more, content.closed⟩ where
  row := ⟨Nat.le_refl _, hsegment.start_le_stop, hle, he.start_le_stop, h.row⟩
  inside := by
    intro span hspan
    simp only [partSpansAfter, List.flatMap_cons, List.cons_append, List.nil_append,
      List.mem_cons] at hspan
    rcases hspan with rfl | rfl | hspan
    · exact hsegment
    · exact he
    · exact h.inside span (List.mem_cons.mpr hspan)

theorem segmentBetween_in {c d : Cursor} (h : c ≤ d) :
    (segmentBetween c d).span.In c.source := Span.in_of_le h

/-- The parts of what was read as string content fill the text that was read in a row. -/
theorem readContent_row (quote : Option Quote) {segment c : Cursor} (hle : segment ≤ c)
    (s : Session σ) : (readContent quote segment c s).1.Row segment.source segment.position
      (readContent quote segment c s).2.1.1.position := by
  fun_induction readContent quote segment c s with
  | case1 segment c s hfind last =>
    exact Content.row_single _ (segmentBetween_in (Cursor.le_trans hle c.le_toEnd))
  | case2 segment c s hit hfind hneedle t hread hlt content d u hrest ih =>
    have hnext := ih (Cursor.le_trans hle (Cursor.le_of_lt hlt))
    rw [hrest] at hnext
    exact hnext
  | case3 segment c s hit hfind hneedle e after t hread hlt first content d u hrest ih =>
    have hstart := Cursor.le_trans hle hit.le_start
    have hspan := readExpression_span hread
    have hafter := Cursor.le_of_lt after.2
    have hnext := ih (Cursor.le_refl _)
    rw [hrest] at hnext
    rw [Cursor.source_eq_of_le (Cursor.le_trans hstart hafter)] at hnext
    refine Content.row_cons (segmentBetween_in hstart) ?_ ?_ ?_
    · rw [hspan, ← Cursor.source_eq_of_le hstart]
      exact Span.in_of_le hafter
    · simp [hspan, segmentBetween]
    · simpa [hspan] using hnext
  | case4 segment c s hit hfind hneedle last =>
    have hsegment := segmentBetween_in (Cursor.le_trans hle hit.le_start)
    refine (Content.row_single _ hsegment).mono_right ?_
    exact Cursor.position_le_of_le (Cursor.le_of_lt hit.start_lt_stop)

theorem Cursor.matchQuoted_of_no_quote {c : Cursor} (h : c.quote? = none) :
    c.matchQuoted = .ok none := by
  unfold matchQuoted
  split
  · rfl
  · rename_i opening rest hrest
    have hopening : Quote.ofChar? opening = none := by simpa [quote?, hrest] using h
    split
    · rfl
    · simp_all

theorem Cursor.matchQuoted_of_quote {c : Cursor} {quote : Quote} (h : c.quote? = some quote) :
    ∃ inner, c.Moves [quote.char] inner ∧
      ((inner.find [[quote.char]] (some '\\') = none ∧
          c.matchQuoted = .error ⟨quote, c.sourceLength⟩) ∨
        ∃ (hit : inner.Hit [[quote.char]]) (d : c.After),
          inner.find [[quote.char]] (some '\\') = some hit ∧ d.1 = hit.stop ∧
            c.matchQuoted = .ok (some (hit.before, d))) := by
  unfold matchQuoted
  split
  · rename_i hrest
    simp [quote?, hrest] at h
  · rename_i opening rest hrest
    have hopening : Quote.ofChar? opening = some quote := by simpa [quote?, hrest] using h
    obtain rfl := Quote.char_of_ofChar? hopening
    refine ⟨_, moves_next hrest, ?_⟩
    simp only [Quote.ofChar?_char]
    cases hfind : (c.next (rest_ne_nil hrest)).1.find [[quote.char]] (some '\\') with
    | none => exact .inl ⟨rfl, rfl⟩
    | some hit => exact .inr ⟨hit, ⟨hit.stop, lt_trans (c.next _).2 hit.lt_stop⟩, rfl, rfl, rfl⟩

/-- A closed quoted literal: its quote, its raw content and its quote again. -/
theorem Cursor.matchQuoted_some {c : Cursor} {raw : List Char} {d : c.After}
    (h : c.matchQuoted = .ok (some (raw, d))) :
    ∃ (quote : Quote) (inner stop : Cursor), c.quote? = some quote ∧
      c.Moves [quote.char] inner ∧ inner.Moves raw stop ∧ stop.Moves [quote.char] d.1 := by
  cases hquote : c.quote? with
  | none => simp [matchQuoted_of_no_quote hquote] at h
  | some quote =>
    obtain ⟨inner, hinner, ⟨-, hmatch⟩ | ⟨hit, stop, -, hstop, hmatch⟩⟩ :=
      matchQuoted_of_quote hquote
    · simp [hmatch] at h
    · obtain ⟨rfl, rfl⟩ : hit.before = raw ∧ stop = d := by simpa [hmatch] using h
      have hspell := hit.spell
      rw [List.mem_singleton.mp hit.mem, ← hstop] at hspell
      exact ⟨quote, inner, hit.start, rfl, hinner, hit.reach, hspell⟩

theorem finishText_eq {quote : Option Quote} {c d : Cursor} {content : Content} {s t : Session σ}
    {text : Text} (h : finishText quote c d content s = (text, t)) :
    text = ⟨⟨c.position, d.position⟩, quote, content.first, content.more⟩ :=
  (Prod.mk.inj h).1.symm

/-- A string that was read, with its parts inside its span. -/
structure Text.Spans (c d : Cursor) (text : Text) : Prop where
  span_eq : text.span = ⟨c.position, d.position⟩
  row : Span.Row c.position d.position text.partSpans
  inside : ∀ span ∈ text.partSpans, span.In c.source

theorem Content.Row.text {quote : Option Quote} {c d : Cursor} {start : Nat} {content : Content}
    {text : Text} (h : content.Row c.source start d.position) (hle : c.position ≤ start)
    (htext : text = ⟨⟨c.position, d.position⟩, quote, content.first, content.more⟩) :
    text.Spans c d := by
  subst htext
  refine ⟨rfl, ?_, ?_⟩
  · rw [Text.partSpans_eq]
    exact h.row.mono_left hle
  · rw [Text.partSpans_eq]
    exact h.inside

theorem readText_spans {c : Cursor} {s t : Session σ} {text : Text} {d : c.After}
    (h : readText c s = (some (text, d), t)) : text.Spans c d.1 := by
  have hread := readText_read c s
  rw [h] at hread
  cases hread with
  | @static _ raw _ _ _ hquote hraw hbrace hfinish =>
    obtain ⟨quote, inner, stop, -, hinner, hstop, hd⟩ := Cursor.matchQuoted_some hraw
    have hstart : inner.position = c.position + 1 := by
      simp [hinner.position_eq, quote.utf8Size_char]
    have hend : stop.position = d.1.position - 1 := by
      simp [hd.position_eq, quote.utf8Size_char]
    have hsegment : (staticContent c d.1 raw).first.span.In c.source := by
      have := Span.in_of_le hstop.le
      rwa [hinner.source_eq, hstart, hend] at this
    have hrow := (Content.row_single true hsegment).mono_right
      (show _ ≤ d.1.position from Nat.sub_le _ _)
    exact hrow.text (Nat.le_add_right _ _) (finishText_eq hfinish)
  | @content quote inner content e _ _ _ hquote hinner hcontent hfinish hd =>
    have hrow := readContent_row (some quote) (Cursor.le_refl inner) s
    rw [hcontent, hinner.source_eq] at hrow
    exact hrow.text (Cursor.position_le_of_le hinner.le) (finishText_eq hfinish)

theorem readKey_span {c : Cursor} {s t : Session σ} {key : Key} {d : c.After}
    (h : readKey c s = (some (key, d), t)) : key.span = ⟨c.position, d.1.position⟩ := by
  have hread := readKey_read c s
  rw [h] at hread
  cases hread with
  | text h => exact (readText_spans h).span_eq
  | expression _ h => exact readExpression_span h
  | identifier _ _ hidentifier =>
    unfold Identifier.scan at hidentifier
    split at hidentifier
    · obtain ⟨rfl, rfl⟩ := by simpa using hidentifier
      rfl
    · simp at hidentifier

end DataTemplate
