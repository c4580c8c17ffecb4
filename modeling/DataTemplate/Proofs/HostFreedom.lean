/-
What a host can change.  A host decides what becomes of the expressions of a text, and of nothing
else; and if its answer depends on the expression alone, every expression carries that answer, also
where a text is read twice and the second reading takes up the answers of the first.  Main
statement: `readDocument_host`.
-/
import DataTemplate.Proofs.FreshPlaces
import DataTemplate.Proofs.HostCalls

namespace DataTemplate

variable {σ : Type} {f : Expression → Revision}

/-! ### Answers -/

/-- The answers of a host depend on the expression alone. -/
def Hooks.AnswersBy (hooks : Hooks σ) (f : Expression → Revision) : Prop :=
  ∀ state e, (hooks.revise state e).1 = f e

/-- An expression carries what `f` makes of it. -/
def Expression.RevisedBy (f : Expression → Revision) (e : Expression) : Prop :=
  e = e.bare.revise (f e.bare)

/-- An expression carries what `f` makes of it, or what an earlier expression in its place
carries. -/
inductive Expression.AnsweredBy (f : Expression → Revision) (handled : Array Expression)
    (e : Expression) : Prop
  | asked (h : e.RevisedBy f)
  | earlier {first : Expression} (hmem : first ∈ handled) (hspan : first.bodySpan = e.bodySpan)
      (h : e = e.bare.revise ⟨first.text, first.valueType⟩)

/-- Every expression of a session carries an answer. -/
def Session.AnsweredBy (f : Expression → Revision) (s : Session σ) : Prop :=
  ∀ e ∈ s.expressions.toList, e.AnsweredBy f s.handled

theorem Session.AnsweredBy.of_eq {s t : Session σ} (h : s.AnsweredBy f)
    (hexpressions : t.expressions = s.expressions) (hhandled : t.handled = s.handled) :
    t.AnsweredBy f := by
  intro e he
  rw [hexpressions] at he
  exact hhandled ▸ h e he

theorem Session.AnsweredBy.finish {s : Session σ} (hhooks : s.hooks.AnswersBy f)
    (h : s.AnsweredBy f) {e : Expression} (he : e.bare = e) :
    (s.finishExpression e).2.AnsweredBy f := by
  intro x hx
  rw [(Session.Grows.finishExpression s e).handled_eq]
  rw [s.finishExpression_expressions, Array.toList_push, List.mem_append, List.mem_singleton] at hx
  rcases hx with hx | rfl
  · exact h x hx
  · unfold Session.finishExpression
    split
    · rename_i first hfound
      have hspan : first.bodySpan = e.bodySpan := by simpa using Array.find?_some hfound
      refine .earlier (Array.mem_of_find?_eq_some hfound) hspan ?_
      rw [Expression.bare_revise, he]
    · refine .asked ?_
      have hanswer : (s.ask e).1 = e.revise (f e) := congrArg e.revise (hhooks s.state e)
      simp only [hanswer, Expression.RevisedBy, Expression.bare_revise, he]

/-- Every expression carries an answer, at every moment of a reading. -/
theorem Session.answeredBy_law : Session.Law fun _ (s : Session σ) _ t =>
    s.hooks.AnswersBy f → s.Grows t ∧ (s.AnsweredBy f → t.AnsweredBy f) where
  move _ s _ := ⟨.refl s, id⟩
  trans h k hs := by
    obtain ⟨hst, hfirst⟩ := h hs
    obtain ⟨htu, hsecond⟩ := k (hst.hooks_eq ▸ hs)
    exact ⟨hst.trans htu, fun hanswered => hsecond (hfirst hanswered)⟩
  observe _ s node _ := ⟨.observe s node, fun h => h.of_eq rfl rfl⟩
  commit _ s cause position _ := by
    have hgrows := Session.Grows.commit s cause position
    exact ⟨hgrows, fun h => h.of_eq (s.commit_expressions cause position) hgrows.handled_eq⟩
  finish s _ e _ hscan hs :=
    ⟨.finishExpression s e, fun h => h.finish hs (Expression.bare_of_scan hscan)⟩
  rollback _ _ _ _ h hs := by
    obtain ⟨hgrows, -⟩ := h hs
    refine ⟨hgrows.rollback, fun hanswered => ?_⟩
    rw [hgrows.rollback_eq]
    exact hanswered.of_eq rfl rfl

/-- In a second reading, too, every expression carries the answer about itself: what the first has
found in its place is the same expression. -/
theorem Expression.AnsweredBy.revisedBy {source : List Char} {handled : Array Expression}
    {e : Expression} (h : e.AnsweredBy f handled) (he : e.bare.ScannedIn source)
    (hhandled : ∀ first ∈ handled, first.RevisedBy f ∧ first.bare.ScannedIn source) :
    e.RevisedBy f := by
  cases h with
  | asked h => exact h
  | @earlier first hmem hspan h =>
    obtain ⟨hrevised, hscanned⟩ := hhandled first hmem
    have hsame : first.bare = e.bare := hscanned.unique he hspan
    have hanswer : (⟨first.text, first.valueType⟩ : Revision) = f e.bare := by
      rw [← hsame, hrevised]
      rfl
    rw [hanswer] at h
    exact h

/-! ### Documents -/

section Documents

variable (options : ReadOptions) (hooks : Hooks σ) (state : σ) (source : List Char)

theorem notedSession_revisedBy (hhooks : hooks.AnswersBy f) :
    (notedSession options hooks state source).hooks = hooks ∧
      (notedSession options hooks state source).handled = #[] ∧
      ∀ e ∈ (notedSession options hooks state source).expressions.toList, e.RevisedBy f := by
  obtain ⟨d, t, hlaw, hgrows, ⟨problems, hnoted⟩, -⟩ :=
    notedSession_follows options hooks state source Session.answeredBy_law
  have hstart : (Session.start hooks state options.onError.halts).AnsweredBy f := by
    simp [Session.AnsweredBy, Session.start]
  have hanswered : t.AnsweredBy f := (hlaw hhooks).2 hstart
  have hnone : t.handled = #[] := hgrows.handled_eq
  rw [hnoted]
  refine ⟨hgrows.hooks_eq, hnone, fun e he => ?_⟩
  cases hanswered e he with
  | asked h => exact h
  | earlier hmem => simp [hnone] at hmem

theorem skipTrivia_fresh {c : Cursor} (s : Session σ) (hc : c.Fresh) :
    (skipTrivia c s).1.1.Fresh := by
  fun_induction skipTrivia c s with
  | case1 => exact hc.skipBlanks
  | case2 c s d hd hlt e t hrest ih =>
    rw [hrest] at ih
    exact ih (Cursor.fresh_of_comment? hd)

/-- A reading comes fresh to the value of a document. -/
theorem documentStart_fresh : (documentStart options hooks state source).Fresh :=
  skipTrivia_fresh _ (.start source)

/-- What is read twice was scanned at fresh places the first time. -/
theorem notedSession_scanned (hrereads : rereads options hooks state source = true) :
    ∀ e ∈ (notedSession options hooks state source).expressions.toList,
      e.bare.ScannedIn source := by
  have hopened : (openDocument options hooks state source).2.expressions = #[] :=
    skipTrivia_expressions _ _
  have hempty : (openDocument options hooks state source).2.problems = #[] := by
    obtain ⟨after, hstart⟩ := openDocument_session options hooks state source
    rw [hstart]
    rfl
  have hnoted := noteRemainder_expressions options (firstRoot options hooks state source).1
    (firstRoot options hooks state source).2
  have hkeeps := keeps_of_recovering options hooks state source
  have hread := firstRoot_read options hooks state source
  change ∀ e ∈ (noteRemainder options (firstRoot options hooks state source).1
    (firstRoot options hooks state source).2).expressions.toList, _
  rw [hnoted]
  generalize firstRoot options hooks state source = read at hread hkeeps ⊢
  cases hread with
  | empty => simp [Session.observe, hopened]
  | none => simp [Session.push, hopened]
  | @value value d t hvalue =>
    refine readValue_scanned hvalue (documentStart_source options hooks state source)
      (documentStart_fresh options hooks state source) ?_ ?_
    · intro _ e he
      simp [hopened] at he
    · intro hrecovering
      have hcomposite : mayBeLoose (some value) = false := by
        refine readValue_composite hvalue fun hsame => hrecovering.has_problem ?_
        rw [hsame]
        exact hempty
      obtain ⟨-, hkept, -⟩ := hkeeps hrecovering hcomposite
      simp [hkept] at hrereads

/-- After a second reading, too, every expression carries the answer about itself. -/
theorem rereadText_revisedBy (hhooks : hooks.AnswersBy f)
    (hrereads : rereads options hooks state source = true) :
    ∀ e ∈ (rereadText options hooks state source).2.expressions.toList, e.RevisedBy f := by
  obtain ⟨hsame, hnone, hrevised⟩ := notedSession_revisedBy options hooks state source hhooks
  have hscanned := notedSession_scanned options hooks state source hrereads
  obtain ⟨start, hstart⟩ : ∃ start, start = documentStart options hooks state source := ⟨_, rfl⟩
  have hfresh : start.Fresh := hstart ▸ documentStart_fresh options hooks state source
  have hsource : start.source = source := hstart ▸ documentStart_source options hooks state source
  -- the session that the second reading starts with
  obtain ⟨s, hs⟩ : ∃ s, s = (notedSession options hooks state
      source).clearProblems.restartExpressions := ⟨_, rfl⟩
  have hempty : s.expressions = #[] := hs ▸ rfl
  have hhandled : s.handled = (notedSession options hooks state source).expressions := by
    simp [hs, Session.restartExpressions, Session.clearProblems, hnone]
  have hhost : s.hooks.AnswersBy f := by
    have hhooks' : s.hooks = hooks := hs ▸ hsame
    exact hhooks' ▸ hhooks
  have hfinal : (rereadText options hooks state source).2 =
      (readTextContent none start start s).2.2 := by
    rw [hs, hstart]
    rfl
  have hproblems := (rereadText_spec options hooks state source).2.2
  rw [hfinal] at hproblems ⊢
  have law := Session.answeredBy_law (σ := σ) (f := f)
  have hread : s.Grows (readTextContent none start start s).2.2 ∧
      (s.AnsweredBy f → (readTextContent none start start s).2.2.AnsweredBy f) :=
    law.trans (c := start) (d := start) (e := start) (law.content none start start s)
      (law.finishText start rfl) hhost
  obtain ⟨hgrows, hanswered⟩ := hread
  have hanswers := hanswered (by simp [Session.AnsweredBy, hempty])
  have hagain : (readTextContent none start start s).2.2.Scanned source := by
    refine finishText_scanned rfl (readContent_scanned none start start s hsource hfresh ?_)
    simp [Session.Scanned, hempty]
  intro e he
  have he' := hagain (fun hrecovering => hrecovering.has_problem hproblems) e he
  refine (hanswers e he).revisedBy he' fun first hfirst => ?_
  have hearlier : first ∈ (notedSession options hooks state source).expressions.toList := by
    rw [← hhandled]
    exact Array.mem_toList_iff.mpr (hgrows.handled_eq ▸ hfirst)
  exact ⟨hrevised first hearlier, hscanned first hearlier⟩

theorem finalReading_revisedBy (hhooks : hooks.AnswersBy f) :
    ∀ e ∈ (finalReading options hooks state source).2.expressions.toList, e.RevisedBy f := by
  unfold finalReading
  split
  · exact rereadText_revisedBy options hooks state source hhooks ‹_›
  · exact (notedSession_revisedBy options hooks state source hhooks).2.2

/-- A document carries the answers of the host, in its tree and in its registry. -/
theorem readDocument_revisedBy (hhooks : hooks.AnswersBy f) {document : Document}
    (hdocument : (readDocument options hooks state source).1 = .ok document) :
    document.mapExpressions (fun e => e.bare.revise (f e.bare)) = document := by
  obtain ⟨hroot, hexpressions, -⟩ := readDocument_ok options hooks state source hdocument
  have hrevised := finalReading_revisedBy options hooks state source hhooks
  have hregisters := finalReading_registers options hooks state source
  rw [← hroot] at hregisters
  rw [← hexpressions] at hrevised
  refine Document.mapExpressions_eq_self (fun root htree e he => ?_)
    fun e he => (hrevised e he).symm
  have hmem : e ∈ document.expressions := by
    rw [hexpressions]
    apply hregisters.sublist.subset
    simpa [htree] using he
  exact (hrevised e hmem).symm

end Documents

section Outcomes

variable (options : ReadOptions) (hooks : Hooks σ) (state : σ) (source : String)

/-- If the answers of a host depend on the expressions alone, an outcome is what it is without the
answers, with the answers filled in. -/
theorem readDocument_refilled (hhooks : hooks.AnswersBy f) :
    (readDocument options hooks state source.toList).1 =
      ((readDocument options hooks state source.toList).1.map
        (Document.mapExpressions Expression.bare)).map
          (Document.mapExpressions fun e => e.revise (f e)) := by
  have hrevised := @readDocument_revisedBy _ _ options hooks state source.toList hhooks
  generalize (readDocument options hooks state source.toList).1 = outcome at hrevised ⊢
  cases outcome with
  | error problem => rfl
  | ok document =>
    have hsame := hrevised rfl
    simp only [Except.map, Document.mapExpressions_mapExpressions]
    exact congrArg Except.ok hsame.symm

/-- Without a host expressions stay as they were scanned. -/
theorem parse_bare : (parse options source).map (Document.mapExpressions Expression.bare) =
    parse options source := by
  have hhooks : ({} : Hooks Unit).AnswersBy fun e => ⟨e.text, e.valueType⟩ := fun _ _ => rfl
  have hrefilled := readDocument_refilled options ({} : Hooks Unit) () source hhooks
  have hsame (document : Document) :
      document.mapExpressions (fun e => e.revise ⟨e.text, e.valueType⟩) = document :=
    Document.mapExpressions_eq_self (fun _ _ _ _ => rfl) fun _ _ => rfl
  have hnothing : ((parse options source).map (Document.mapExpressions Expression.bare)).map
      (Document.mapExpressions fun e => e.revise ⟨e.text, e.valueType⟩) =
        (parse options source).map (Document.mapExpressions Expression.bare) := by
    cases parse options source with
    | error => rfl
    | ok document => exact congrArg Except.ok (hsame _)
  exact (hrefilled.trans hnothing).symm

end Outcomes

/-- What a host can change.  Whatever a host answers, and whatever it does with what it is told, the
outcome is the one without a host, but for what it makes of the expressions: the same problem, or a
document that differs in the texts and the value types of expressions only.  And if its answers
depend on the expressions alone, these are its answers about the expressions that are found without
it, in the tree and in the registry. -/
theorem readDocument_host (options : ReadOptions) (hooks : Hooks σ) (state : σ) (source : String) :
    (readDocument options hooks state source.toList).1.map
        (Document.mapExpressions Expression.bare) = parse options source ∧
      ∀ f : Expression → Revision, hooks.AnswersBy f →
        (readDocument options hooks state source.toList).1 =
          (parse options source).map (Document.mapExpressions fun e => e.revise (f e)) := by
  have hbare := (readDocument_bare options hooks state source).trans (parse_bare options source)
  refine ⟨hbare, fun f hhooks => ?_⟩
  rw [← hbare]
  exact readDocument_refilled options hooks state source hhooks

/-- A host that counts its answers, over a text that is read twice. -/
theorem readDocument_host_reread :
    ∃ (hooks : Hooks Nat) (f : Expression → Revision) (document : Document),
      hooks.AnswersBy f ∧
      parse { onError := .recover } "\x7b\x7ba\x7d\x7d and \x7b\x7bb\x7d\x7d" = .ok document ∧
      document.readAsString = true ∧ document.expressions.length = 2 ∧
      (readDocument { onError := .recover } hooks 0
        "\x7b\x7ba\x7d\x7d and \x7b\x7bb\x7d\x7d".toList).1 =
          .ok (document.mapExpressions fun e => e.revise (f e)) := by
  let f : Expression → Revision := fun e => ⟨e.raw ++ "!", .string⟩
  let hooks : Hooks Nat := { revise := fun count e => (f e, count + 1) }
  have hhooks : hooks.AnswersBy f := fun _ _ => rfl
  have hdocument : ∃ document, parse { onError := .recover }
      "\x7b\x7ba\x7d\x7d and \x7b\x7bb\x7d\x7d" = .ok document ∧
      document.readAsString = true ∧ document.expressions.length = 2 :=
    ⟨_, rfl, by decide +kernel, by decide +kernel⟩
  obtain ⟨document, hparse, hstring, hlength⟩ := hdocument
  refine ⟨hooks, f, document, hhooks, hparse, hstring, hlength, ?_⟩
  rw [(readDocument_host _ hooks 0 _).2 f hhooks, hparse]
  rfl

end DataTemplate
