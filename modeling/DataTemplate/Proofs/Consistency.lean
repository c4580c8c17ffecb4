/-
The records of a document fit together, whichever way the reading took: its value stands where the
document says, a document without a value has one problem and nothing else, and a document that was
read as a string holds all of its text.  Main statements: `readContent_slices` and
`readDocument_consistent`.
-/
import DataTemplate.Json.Document
import DataTemplate.Proofs.Fidelity

namespace DataTemplate

variable {σ : Type} {source : List Char}

/-! ### Slices -/

/-- The text that a span of `source` covers. -/
def Span.slice (source : List Char) (span : Span) : List Char :=
  (cutBytes (span.stop - span.start) (cutBytes span.start source).2).1

/-- The text of `source` from a position on. -/
def textFrom (source : List Char) (position : Nat) : List Char := (cutBytes position source).2

theorem Span.Spells.slice_eq {span : Span} {text : List Char} (h : span.Spells source text) :
    span.slice source = text := by
  obtain ⟨before, after, rfl, rfl⟩ := h
  rw [slice, cutBytes_byteLength, Nat.add_sub_cancel_left, cutBytes_byteLength]

theorem Cursor.Moves.slice_eq {c d : Cursor} {text : List Char} (h : c.Moves text d) :
    Span.slice c.source ⟨c.position, d.position⟩ = text := h.spells.slice_eq

theorem Cursor.textFrom_position (c : Cursor) : textFrom c.source c.position = c.rest := by
  obtain ⟨before, hsource, hposition⟩ := c.splits
  rw [textFrom, hsource, hposition, cutBytes_byteLength]

example : Span.slice ['a', 'é', 'b'] ⟨1, 3⟩ = ['é'] := by decide

/-! ### The parts of a string -/

/-- The parts of some content in order. -/
def Content.parts (content : Content) : List TextPart :=
  .segment content.first :: content.more.flatMap fun (e, s) => [.expression e, .segment s]

/-- The slices of some parts, put together. -/
def partSlices (source : List Char) (parts : List TextPart) : List Char :=
  parts.flatMap fun part => part.span.slice source

theorem segmentBetween_slice {c d : Cursor} {text : List Char} (h : c.Moves text d) :
    (segmentBetween c d).span.slice c.source = text := h.slice_eq

/-- The slices of the parts of string content are the text that was read, up to its quote. -/
theorem readContent_slices (quote : Option Quote) {segment c : Cursor} (hle : segment ≤ c)
    (s : Session σ) : ∃ stop,
      segment.Moves (partSlices segment.source (readContent quote segment c s).1.parts) stop ∧
        ((readContent quote segment c s).2.1.1 = stop ∨ ∃ mark, quote = some mark ∧
          stop.Moves [mark.char] (readContent quote segment c s).2.1.1) := by
  fun_induction readContent quote segment c s with
  | case1 segment c s hfind last =>
    obtain ⟨text, hmoves⟩ := Cursor.le_trans hle c.le_toEnd
    have hslice := segmentBetween_slice hmoves
    exact ⟨c.toEnd, by simpa [partSlices, Content.parts, TextPart.span, last, hslice] using hmoves,
      .inl rfl⟩
  | case2 segment c s hit hfind hneedle t hread hlt content d u hrest ih =>
    have hnext := ih (Cursor.le_trans hle (Cursor.le_of_lt hlt))
    rwa [hrest] at hnext
  | case3 segment c s hit hfind hneedle e after t hread hlt first content d u hrest ih =>
    obtain ⟨text, hmoves⟩ := Cursor.le_trans hle hit.le_start
    obtain ⟨body, -, hbody⟩ := after.2
    obtain ⟨stop, hcontent, hend⟩ := ih (Cursor.le_refl _)
    rw [hrest, hbody.source_eq, hmoves.source_eq] at hcontent
    rw [hrest] at hend
    have hfirst := segmentBetween_slice hmoves
    have hspan : e.span.slice segment.source = body := by
      rw [readExpression_span hread, ← hmoves.source_eq]
      exact hbody.slice_eq
    refine ⟨stop, ?_, hend⟩
    have htext := (hmoves.trans hbody).trans hcontent
    simpa [partSlices, Content.parts, TextPart.span, first, hfirst, hspan] using htext
  | case4 segment c s hit hfind hneedle last =>
    obtain ⟨text, hmoves⟩ := Cursor.le_trans hle hit.le_start
    have hslice := segmentBetween_slice hmoves
    refine ⟨hit.start, ?_, .inr ?_⟩
    · simpa [partSlices, Content.parts, TextPart.span, last, hslice] using hmoves
    · have hmem := hit.mem
      cases quote with
      | none => simp_all [contentNeedles]
      | some mark =>
        have hmark : hit.needle = [mark.char] := by simp_all [contentNeedles]
        exact ⟨mark, rfl, hmark ▸ hit.spell⟩

/-- The parts of a string without quotes make up the text that is left. -/
theorem readTextContent_slices (c : Cursor) (s : Session σ) :
    partSlices c.source (readTextContent none c c s).1.parts = c.rest := by
  obtain ⟨stop, hmoves, hend⟩ := readContent_slices none (Cursor.le_refl c) s
  have hstop : (readContent none c c s).2.1.1 = stop := by simpa using hend
  have hlast := (readContent_unquoted c c s).2
  have htotal : byteLength stop.rest = 0 := by
    have hlength := Cursor.sourceLength_eq_of_le hmoves.le
    rw [hstop] at hlast
    simp only [Cursor.sourceLength] at hlength hlast
    omega
  have hrest := hmoves.rest_eq
  rw [byteLength_eq_zero_iff.mp htotal, List.append_nil] at hrest
  exact hrest.symm

/-! ### Documents -/

/-- The records of a document of `source` fit together. -/
structure Document.Consistent (source : List Char) (document : Document) : Prop where
  error_first : ∀ style,
    (document.members style).lookup "errors" =
        some (.array (document.problems.map Problem.toJson)) ∧
      (document.members style).lookup "error" =
        some (((document.problems.map Problem.toJson).head?).getD .null)
  root_span : ∀ root, document.root = some root → root.span = ⟨document.start, document.stop⟩
  no_root : document.root = none →
    document.problems = [⟨.noValue, document.start⟩] ∧ Cause.noValue.message = "invalid input" ∧
      document.stop = document.start ∧ document.expressions = [] ∧ document.readAsString = false
  as_string : document.readAsString = true →
    document.problems = [] ∧ ∃ text, document.root = some (.text text) ∧ text.quote = none ∧
      text.span = ⟨document.start, byteLength source⟩ ∧
      partSlices source text.parts = textFrom source document.start

theorem Document.members_error (style : NumberStyle) (document : Document) :
    (document.members style).lookup "errors" =
        some (.array (document.problems.map Problem.toJson)) ∧
      (document.members style).lookup "error" =
        some (((document.problems.map Problem.toJson).head?).getD .null) := by
  obtain ⟨root, expressions, start, stop, problems, readAsString⟩ := document
  cases problems <;> exact ⟨rfl, rfl⟩

section Document

variable (options : ReadOptions) (hooks : Hooks σ) (state : σ)

/-- The value that is read first starts where the leading trivia ends. -/
theorem firstRoot_start {value : Value}
    (h : (firstRoot options hooks state source).1.value = some value) :
    value.span.start = (documentStart options hooks state source).position := by
  have hread := firstRoot_read options hooks state source
  generalize firstRoot options hooks state source = first at hread h
  cases hread with
  | empty hend hvalue =>
    obtain rfl := Option.some.inj h
    rw [hvalue, Cursor.sourceLength, hend, byteLength_nil, Nat.add_zero]
    cases options.emptyInput <;> rfl
  | value hvalue =>
    obtain rfl := Option.some.inj h
    rw [(readValue_placed hvalue).1]
  | none => simp at h

variable (source) in
/-- Leading trivia leaves a session that has met nothing. -/
theorem openDocument_empty :
    (openDocument options hooks state source).2.problems = #[] ∧
      (openDocument options hooks state source).2.expressions = #[] := by
  obtain ⟨state', hs⟩ := skipTrivia_session (.ofText source)
    (Session.start hooks state options.onError.halts)
  rw [openDocument, hs]
  exact ⟨rfl, rfl⟩

/-- Where no value is read, that is the one problem, and nothing else is met. -/
theorem notedSession_of_no_root (h : (firstRoot options hooks state source).1.value = none) :
    (notedSession options hooks state source).problems =
        #[⟨.noValue, (documentStart options hooks state source).position⟩] ∧
      (notedSession options hooks state source).expressions = #[] := by
  obtain ⟨hproblems, hexpressions⟩ := openDocument_empty source options hooks state
  have hread := firstRoot_read options hooks state source
  rw [notedSession]
  generalize firstRoot options hooks state source = first at hread h
  cases hread with
  | empty | value => simp at h
  | none =>
    have hmet : ((openDocument options hooks state source).2.push .noValue
        (documentStart options hooks state source).position).problems ≠ #[] := by
      simp [Session.push]
    dsimp only
    rw [noteRemainder_of_problems options _ hmet]
    simp [Session.push, hproblems, hexpressions]

/-- The text that is read again as a string is all that is left. -/
theorem rereadText_slices :
    partSlices source (rereadText options hooks state source).1.parts =
      textFrom source (documentStart options hooks state source).position := by
  have hslices := readTextContent_slices (documentStart options hooks state source)
    (notedSession options hooks state source).clearProblems.restartExpressions
  have htext := (documentStart options hooks state source).textFrom_position
  rw [documentStart_source] at hslices htext
  rw [htext]
  exact hslices

end Document

/-- Whatever the text and the options, the records of a document that comes out fit together. -/
theorem readDocument_consistent {options : ReadOptions} {hooks : Hooks σ} {state : σ}
    {document : Document} (h : (readDocument options hooks state source).1 = .ok document) :
    document.Consistent source := by
  have hread := readDocument_read options hooks state source
  generalize readDocument options hooks state source = outcome at hread h
  cases hread with
  | failed => simp at h
  | asValue hkeeps hpolicy =>
    obtain rfl := Except.ok.inj h
    refine ⟨fun style => Document.members_error style _, ?_, ?_, by simp⟩
    · intro root hroot
      have hstart := firstRoot_start options hooks state hroot
      dsimp only at hroot ⊢
      rw [hroot, ← hstart]
      rfl
    · intro hroot
      obtain ⟨hproblems, hexpressions⟩ := notedSession_of_no_root options hooks state hroot
      dsimp only at hroot ⊢
      rw [hproblems, hexpressions, hroot]
      exact ⟨rfl, rfl, rfl, rfl, rfl⟩
  | asString hrereads =>
    obtain rfl := Except.ok.inj h
    obtain ⟨hspan, hquote, -⟩ := rereadText_spec options hooks state source
    have hlength := (documentStart options hooks state source).sourceLength_eq
    rw [documentStart_source] at hlength
    refine ⟨fun style => Document.members_error style _, ?_, by simp, fun _ =>
      ⟨rfl, _, rfl, hquote, ?_, rereadText_slices options hooks state⟩⟩
    · rintro root ⟨⟩
      exact hspan
    · rw [← hlength]
      exact hspan

/-- An expression with text behind it and a comment in front: all but the comment is the string. -/
theorem readDocument_consistent_reread :
    ∃ document,
      (readDocument { onError := .stop } ({} : Hooks Unit) ()
        "/*é*/ \x7b\x7ba\x7d\x7d é\x7b".toList).1 = .ok document ∧
      document.readAsString = true ∧ document.start = 7 ∧
      document.Consistent "/*é*/ \x7b\x7ba\x7d\x7d é\x7b".toList := by
  have hdocument : ∃ document, (readDocument { onError := .stop } ({} : Hooks Unit) ()
      "/*é*/ \x7b\x7ba\x7d\x7d é\x7b".toList).1 = .ok document ∧
      document.readAsString = true ∧ document.start = 7 :=
    ⟨_, rfl, by decide +kernel, by decide +kernel⟩
  obtain ⟨document, hdocument, hstring, hstart⟩ := hdocument
  exact ⟨document, hdocument, hstring, hstart, readDocument_consistent hdocument⟩

end DataTemplate
