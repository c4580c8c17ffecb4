/-
The stages of reading a document: its leading trivia, its value, the note about text after it, and the
second reading as a string.  Main statement: `readDocument_read`, which lists what can come out.
-/
import DataTemplate.Proofs.Rounds

namespace DataTemplate

variable {σ : Type}

/-! ### Content of strings commits no problem -/

@[simp] theorem Session.finishExpression_problems (s : Session σ) (e : Expression) :
    (s.finishExpression e).2.problems = s.problems := by
  unfold Session.finishExpression
  split <;> rfl

@[simp] theorem Session.finishExpression_halted (s : Session σ) (e : Expression) :
    (s.finishExpression e).2.halted = s.halted := by
  unfold Session.finishExpression
  split <;> rfl

theorem readExpression_problems {c : Cursor} {s t : Session σ}
    {found : Option (Expression × c.After)} (h : readExpression c s = (found, t)) :
    t.problems = s.problems ∧ t.halted = s.halted := by
  unfold readExpression at h
  split at h
  · obtain ⟨-, rfl⟩ := Prod.mk.inj h
    exact ⟨rfl, rfl⟩
  · obtain ⟨-, rfl⟩ := Prod.mk.inj h
    exact ⟨s.finishExpression_problems _, s.finishExpression_halted _⟩

theorem readContent_problems (quote : Option Quote) (segment c : Cursor) (s : Session σ) :
    (readContent quote segment c s).2.2.problems = s.problems ∧
      (readContent quote segment c s).2.2.halted = s.halted := by
  fun_induction readContent quote segment c s with
  | case1 => exact ⟨rfl, rfl⟩
  | case2 segment c s hit hfind hneedle t hread hlt content d u hrest ih =>
    obtain ⟨hproblems, hhalted⟩ := readExpression_problems hread
    rw [hrest] at ih
    exact ⟨ih.1.trans hproblems, ih.2.trans hhalted⟩
  | case3 segment c s hit hfind hneedle e after t hread hlt first content d u hrest ih =>
    obtain ⟨hproblems, hhalted⟩ := readExpression_problems hread
    rw [hrest] at ih
    exact ⟨ih.1.trans hproblems, ih.2.trans hhalted⟩
  | case4 => exact ⟨rfl, rfl⟩

/-- Content without quotes runs to the end of the text, and ends where it should. -/
theorem readContent_unquoted (segment c : Cursor) (s : Session σ) :
    (readContent none segment c s).1.closed = true ∧
      (readContent none segment c s).2.1.1.position = c.sourceLength := by
  fun_induction readContent none segment c s with
  | case1 segment c s => exact ⟨rfl, c.moves_toEnd.position_eq⟩
  | case2 segment c s hit hfind hneedle t hread hlt content d u hrest ih =>
    rw [hrest, Cursor.sourceLength_eq_of_le (Cursor.le_of_lt hlt)] at ih
    exact ih
  | case3 segment c s hit hfind hneedle e after t hread hlt first content d u hrest ih =>
    rw [hrest, Cursor.sourceLength_eq_of_le (Cursor.le_of_lt hlt)] at ih
    exact ih
  | case4 segment c s hit hfind hneedle =>
    have := List.mem_singleton.mp hit.mem
    simp [this] at hneedle

/-- The string that is read from `c` to the end of the text. -/
theorem readTextContent_unquoted (c : Cursor) (s : Session σ) :
    (readTextContent none c c s).1.span = ⟨c.position, c.sourceLength⟩ ∧
      (readTextContent none c c s).1.quote = none ∧
      (readTextContent none c c s).2.2.problems = s.problems ∧
      (readTextContent none c c s).2.2.halted = s.halted := by
  obtain ⟨hclosed, hend⟩ := readContent_unquoted c c s
  obtain ⟨hproblems, hhalted⟩ := readContent_problems none c c s
  simp only [readTextContent, finishText, hclosed, hend, if_true]
  exact ⟨trivial, trivial, hproblems, hhalted⟩

/-! ### Stages -/

/-- What reading the value of a document comes to: the text has ended, there is a value, or there is
none. -/
inductive RootRead (emptyInput : EmptyInput) (c : Cursor) (s : Session σ) :
    Root c × Session σ → Prop
  | empty {value : Value} (hend : c.rest = []) (hvalue : value = emptyInput.value c.sourceLength) :
      RootRead emptyInput c s (⟨some value, c, c.le_refl⟩, s.observe (.value value))
  | value {value : Value} {d : c.After} {t : Session σ} (h : readValue c s = (some (value, d), t))
      (hle : c ≤ d.1.skipBlanks) : RootRead emptyInput c s (⟨some value, d.1.skipBlanks, hle⟩, t)
  | none (h : readValue c s = (none, s)) :
      RootRead emptyInput c s (⟨none, c, c.le_refl⟩, s.push .noValue c.position)

theorem readRoot_read (emptyInput : EmptyInput) (c : Cursor) (s : Session σ) :
    RootRead emptyInput c s (readRoot emptyInput c s) := by
  unfold readRoot
  split
  · rename_i hend
    have hrest : c.rest = [] := by simpa [Cursor.atEnd] using hend
    refine .empty hrest ?_
    rw [Cursor.sourceLength, hrest, byteLength_nil, Nat.add_zero]
  · split
    · exact .value ‹_› _
    · rename_i t hread
      obtain rfl := readValue_none hread
      exact .none hread

/-- Trivia changes nothing but the state of the host. -/
theorem skipTrivia_session (c : Cursor) (s : Session σ) :
    ∃ state, (skipTrivia c s).2 = { s with state := state } := by
  fun_induction skipTrivia c s with
  | case1 c s => exact ⟨s.state, rfl⟩
  | case2 c s d hd hlt e t hrest ih =>
    rw [hrest] at ih
    obtain ⟨state, ht⟩ := ih
    exact ⟨state, ht⟩

/-- A note about text after the value is one more problem. -/
theorem noteRemainder_cases (options : ReadOptions) {c : Cursor} (root : Root c) (s : Session σ) :
    noteRemainder options root s = s ∨
      ∃ position, noteRemainder options root s = s.push .trailingText position := by
  unfold noteRemainder
  dsimp only
  split
  · exact .inr ⟨_, rfl⟩
  · exact .inl rfl

theorem noteRemainder_of_problems (options : ReadOptions) {c : Cursor} (root : Root c)
    {s : Session σ} (h : s.problems ≠ #[]) : noteRemainder options root s = s := by
  simp [noteRemainder, Session.hasProblems, h]

/-- A first reading without problems of a document that is not empty is the reading of a value. -/
theorem RootRead.exists_value {emptyInput : EmptyInput} {c : Cursor} {s : Session σ}
    {read : Root c × Session σ} (h : RootRead emptyInput c s read)
    (hproblems : read.2.problems = #[])
    (hplaceholder : read.1.value ≠ some (emptyInput.value c.sourceLength)) :
    ∃ value d, readValue c s = (some (value, d), read.2) ∧ read.1.value = some value ∧
      read.1.after.1 = d.1.skipBlanks := by
  cases h with
  | empty _ hvalue => exact absurd (congrArg some hvalue) hplaceholder
  | @value value d _ hvalue => exact ⟨value, d, hvalue, rfl, rfl⟩
  | none => simp [Session.push] at hproblems

section Stages

variable (options : ReadOptions) (hooks : Hooks σ) (state : σ) (source : List Char)

theorem documentStart_source : (documentStart options hooks state source).source = source :=
  Cursor.source_eq_of_le
    (skipTrivia (.ofText source) (Session.start hooks state options.onError.halts)).1.2

theorem firstRoot_read : RootRead options.emptyInput (documentStart options hooks state source)
    (openDocument options hooks state source).2 (firstRoot options hooks state source) :=
  readRoot_read _ _ _

/-- The string that the text is read as, and the session after it. -/
def rereadText : Text × Session σ :=
  let start := documentStart options hooks state source
  let (text, _, s) := readTextContent none start start
    (notedSession options hooks state source).clearProblems.restartExpressions
  (text, s)

/-- What can come out of a document: its value, the text as a string, or the first problem. -/
inductive DocumentRead : Except Problem Document × σ → Prop
  | asValue (hkeeps : rereads options hooks state source = false)
      (hpolicy : options.onError = .fail →
        (notedSession options hooks state source).problems[0]? = none) :
      DocumentRead (.ok {
        root := (firstRoot options hooks state source).1.value
        expressions := (notedSession options hooks state source).expressions.toList
        start := (documentStart options hooks state source).position
        stop := ((firstRoot options hooks state source).1.value.map (·.span.stop)).getD
          (documentStart options hooks state source).position
        problems := (notedSession options hooks state source).problems.toList
        readAsString := false }, (notedSession options hooks state source).state)
  | asString (hrereads : rereads options hooks state source = true) :
      DocumentRead (.ok {
        root := some (.text (rereadText options hooks state source).1)
        expressions := (rereadText options hooks state source).2.expressions.toList
        start := (documentStart options hooks state source).position
        stop := (documentStart options hooks state source).sourceLength
        problems := []
        readAsString := true }, (rereadText options hooks state source).2.state)
  | failed {problem : Problem} (hkeeps : rereads options hooks state source = false)
      (hpolicy : options.onError = .fail)
      (hproblem : (notedSession options hooks state source).problems[0]? = some problem) :
      DocumentRead (.error problem, (notedSession options hooks state source).state)

/-- The value and the session that are left, after a second reading if there is one. -/
def finalReading : Option Value × Session σ :=
  if rereads options hooks state source then
    (some (.text (rereadText options hooks state source).1),
      (rereadText options hooks state source).2)
  else
    ((firstRoot options hooks state source).1.value, notedSession options hooks state source)

/-- The outcome, by the value and the session that are left. -/
theorem readDocument_eq : readDocument options hooks state source =
    (let (value, s) := finalReading options hooks state source
     match if options.onError = .fail then s.problems[0]? else none with
     | some problem => (.error problem, s.state)
     | none =>
       (.ok {
         root := value
         expressions := s.expressions.toList
         start := (documentStart options hooks state source).position
         stop := (value.map (·.span.stop)).getD (documentStart options hooks state source).position
         problems := s.problems.toList
         readAsString := rereads options hooks state source }, s.state)) := by
  unfold readDocument
  rfl

/-- A document that comes out holds the value and the records that are left. -/
theorem readDocument_ok {document : Document}
    (h : (readDocument options hooks state source).1 = .ok document) :
    document.root = (finalReading options hooks state source).1 ∧
      document.expressions = (finalReading options hooks state source).2.expressions.toList ∧
      document.problems = (finalReading options hooks state source).2.problems.toList := by
  rw [readDocument_eq] at h
  dsimp only at h
  split at h
  · simp at h
  · obtain rfl := Except.ok.inj h
    exact ⟨rfl, rfl, rfl⟩

/-- The host ends in the state that the last reading leaves. -/
theorem readDocument_state : (readDocument options hooks state source).2 =
    (finalReading options hooks state source).2.state := by
  rw [readDocument_eq]
  dsimp only
  split <;> rfl

theorem rereadText_spec :
    (rereadText options hooks state source).1.span =
        ⟨(documentStart options hooks state source).position,
          (documentStart options hooks state source).sourceLength⟩ ∧
      (rereadText options hooks state source).1.quote = none ∧
      (rereadText options hooks state source).2.problems = #[] := by
  obtain ⟨hspan, hquote, hproblems, -⟩ := readTextContent_unquoted
    (documentStart options hooks state source)
    (notedSession options hooks state source).clearProblems.restartExpressions
  exact ⟨hspan, hquote, hproblems⟩

theorem readDocument_read :
    DocumentRead options hooks state source (readDocument options hooks state source) := by
  rw [readDocument_eq, finalReading]
  cases hrereads : rereads options hooks state source with
  | true =>
    obtain ⟨hspan, -, hproblems⟩ := rereadText_spec options hooks state source
    have hread := DocumentRead.asString hrereads
    simpa [hproblems, Value.span, hspan] using hread
  | false =>
    simp only [Bool.false_eq_true, if_false]
    split
    · rename_i problem hproblem
      split at hproblem
      · exact .failed hrereads ‹_› hproblem
      · simp at hproblem
    · rename_i hnone
      refine .asValue hrereads ?_
      intro hpolicy
      simpa [hpolicy] using hnone

end Stages

end DataTemplate
