/-
Problems are reported in the order of the text.  A reading commits a problem where it stands, and then
halts, moves on, or has reached the end; so every problem lies between the start of the document and
the place reached, and only the end is reported more than once.  Main statement:
`readDocument_problems_ordered`.
-/
import DataTemplate.Proofs.Outcome
import DataTemplate.Proofs.SessionLaws
import DataTemplate.Proofs.Spans

namespace DataTemplate

variable {σ : Type} {n : Nat} {start : Nat}

/-- A problem at a place of the text that is not in front of `start`. -/
structure Problem.Placed (source : List Char) (start : Nat) (problem : Problem) : Prop where
  start_le : start ≤ problem.position
  le_length : problem.position ≤ byteLength source
  boundary : IsBoundary source problem.position

/-- The second problem lies behind the first, or both at the end of the text. -/
def Problem.Precedes (source : List Char) (first second : Problem) : Prop :=
  first.position < second.position ∨
    first.position = byteLength source ∧ second.position = byteLength source

/-- Problems of a text in the order of their places, none in front of `start`. -/
structure Problem.InOrder (source : List Char) (start : Nat) (problems : List Problem) : Prop where
  placed : ∀ p ∈ problems, p.Placed source start
  ordered : problems.Pairwise (Problem.Precedes source)

/-- The problems of a reading that has reached `c`.  Those of one that goes on are in front of `c`, or
at the end with it. -/
structure Session.Reported (start : Nat) (c : Cursor) (s : Session σ) : Prop where
  reached : start ≤ c.position
  inOrder : Problem.InOrder c.source start s.problems.toList
  passed : s.halted = false → ∀ p ∈ s.problems.toList,
    p.position < c.position ∨ p.position = byteLength c.source ∧ c.rest = []

theorem Problem.InOrder.nil (source : List Char) (start : Nat) : InOrder source start [] :=
  ⟨by simp, .nil⟩

theorem Cursor.position_of_end {c : Cursor} (h : c.rest = []) : c.position = byteLength c.source := by
  rw [← c.sourceLength_eq, sourceLength, h, byteLength_nil, Nat.add_zero]

theorem Cursor.rest_nil_of_le {c d : Cursor} (hle : c ≤ d) (h : c.rest = []) : d.rest = [] := by
  obtain ⟨text, hmoves⟩ := hle
  exact (List.append_eq_nil_iff.mp (hmoves.rest_eq ▸ h)).2

/-- A problem can be reported at any place. -/
theorem Cursor.placed (c : Cursor) (h : start ≤ c.position) (cause : Cause) :
    Problem.Placed c.source start ⟨cause, c.position⟩ :=
  ⟨h, c.isBoundary.le, c.isBoundary⟩

theorem Problem.InOrder.single (c : Cursor) (h : start ≤ c.position) (cause : Cause) :
    InOrder c.source start [⟨cause, c.position⟩] :=
  ⟨List.forall_mem_singleton.mpr (c.placed h cause), List.pairwise_singleton _ _⟩

namespace Session.Reported

variable {c d : Cursor} {s t : Session σ}

theorem fresh (h : s.problems = #[]) (c : Cursor) : s.Reported c.position c where
  reached := Nat.le_refl _
  inOrder := by simpa [h] using Problem.InOrder.nil c.source c.position
  passed := by simp [h]

/-- Only the problems and the halt matter. -/
theorem congr (h : s.Reported start c) (hproblems : t.problems = s.problems)
    (hhalted : t.halted = s.halted) : t.Reported start c where
  reached := h.reached
  inOrder := hproblems ▸ h.inOrder
  passed := by simpa only [hproblems, hhalted] using h.passed

theorem observe (h : s.Reported start c) (node : Node) : (s.observe node).Reported start c :=
  h.congr rfl rfl

theorem mono (h : s.Reported start c) (hle : c ≤ d) : s.Reported start d where
  reached := Nat.le_trans h.reached (Cursor.position_le_of_le hle)
  inOrder := Cursor.source_eq_of_le hle ▸ h.inOrder
  passed hgo p hp := by
    rw [Cursor.source_eq_of_le hle]
    rcases h.passed hgo p hp with hlt | ⟨hend, hrest⟩
    · exact .inl (Nat.lt_of_lt_of_le hlt (Cursor.position_le_of_le hle))
    · exact .inr ⟨hend, Cursor.rest_nil_of_le hle hrest⟩

/-- The problem at the place reached comes after all others. -/
theorem inOrder_push (h : s.Reported start c) (hgo : s.halted = false) (cause : Cause) :
    Problem.InOrder c.source start (s.problems.toList ++ [⟨cause, c.position⟩]) where
  placed := List.forall_mem_append.mpr
    ⟨h.inOrder.placed, List.forall_mem_singleton.mpr (c.placed h.reached cause)⟩
  ordered := by
    refine List.pairwise_append.mpr ⟨h.inOrder.ordered, List.pairwise_singleton _ _, ?_⟩
    intro p hp q hq
    obtain rfl := List.mem_singleton.mp hq
    rcases h.passed hgo p hp with hlt | ⟨hend, hrest⟩
    · exact .inl hlt
    · exact .inr ⟨hend, Cursor.position_of_end hrest⟩

/-- A problem is committed where the reading stands if it then halts, moves on or has reached the
end. -/
theorem commit (h : s.Reported start c) (cause : Cause) (hle : c ≤ d)
    (hleaves : (s.commit cause c.position).halted = true ∨ c < d ∨ c.rest = []) :
    (s.commit cause c.position).Reported start d := by
  by_cases hhalted : s.halted = true
  · rw [Session.commit_of_halted hhalted]
    exact h.mono hle
  · have hgo : s.halted = false := eq_false_of_ne_true hhalted
    have hproblems : (s.commit cause c.position).problems.toList =
        s.problems.toList ++ [⟨cause, c.position⟩] := by
      simp [Session.commit, Session.push, hgo]
    have hsource := Cursor.source_eq_of_le hle
    refine ⟨(h.mono hle).reached, ?_, ?_⟩
    · rw [hproblems, hsource]
      exact h.inOrder_push hgo cause
    · intro hgoes p hp
      have hlater : c < d ∨ c.rest = [] := by simpa [hgoes] using hleaves
      rw [hproblems, List.mem_append, List.mem_singleton] at hp
      rcases hp with hp | rfl
      · exact (h.mono hle).passed hgo p hp
      · rcases hlater with hlt | hend
        · exact .inl (Cursor.position_lt_of_lt hlt)
        · exact .inr ⟨hsource ▸ Cursor.position_of_end hend, Cursor.rest_nil_of_le hle hend⟩

theorem flush (h : s.Reported start c) (draft : PropertyDraft) :
    (draft.flush s).2.Reported start c := by
  unfold PropertyDraft.flush
  split
  · exact h
  · exact h.observe _

theorem begin (h : s.Reported start c) (draft : PropertyDraft) (key : Key) :
    (draft.begin key s).2.Reported start c := h.flush draft

end Session.Reported

/-! ### Strings and keys -/

/-- Quoted content that misses its quote runs to the end of the text. -/
theorem readContent_unclosed {quote : Option Quote} {segment c : Cursor} {s : Session σ}
    (h : (readContent quote segment c s).1.closed = false) :
    (readContent quote segment c s).2.1.1.rest = [] := by
  fun_induction readContent quote segment c s with
  | case1 => rfl
  | case2 segment c s hit hfind hneedle t hread hlt content d u hrest ih =>
    rw [hrest] at ih
    exact ih h
  | case3 segment c s hit hfind hneedle e after t hread hlt first content d u hrest ih =>
    rw [hrest] at ih
    exact ih h
  | case4 => simp at h

/-- A string adds no problem, or one at the end of the text, up to which it then runs. -/
theorem readText_problems {c : Cursor} {s t : Session σ} {text : Text} {d : c.After}
    (h : readText c s = (some (text, d), t)) :
    (t.problems = s.problems ∧ t.halted = s.halted) ∨
      d.1.rest = [] ∧ ∃ u : Session σ, u.problems = s.problems ∧ u.halted = s.halted ∧
        t.problems = (u.commit .unclosedString d.1.position).problems ∧
        t.halted = (u.commit .unclosedString d.1.position).halted := by
  have hread := readText_read c s
  rw [h] at hread
  cases hread with
  | static _ _ _ hfinish =>
    obtain ⟨-, rfl⟩ := Prod.mk.inj hfinish
    exact .inl ⟨rfl, rfl⟩
  | @content quote inner content d _ u _ _ hinner hcontent hfinish _ =>
    obtain ⟨hproblems, hhalted⟩ := readContent_problems (some quote) inner inner s
    have hunclosed (h : (readContent (some quote) inner inner s).1.closed = false) :=
      readContent_unclosed h
    rw [hcontent] at hproblems hhalted hunclosed
    obtain ⟨-, rfl⟩ := Prod.mk.inj hfinish
    cases hclosed : content.closed with
    | true => exact .inl ⟨hproblems, hhalted⟩
    | false =>
      have hend := hunclosed hclosed
      have hle := Cursor.le_trans hinner.le d.2
      have hposition : c.sourceLength = d.1.position := by
        rw [Cursor.position_of_end hend, Cursor.source_eq_of_le hle, c.sourceLength_eq]
      refine .inr ⟨hend, u, hproblems, hhalted, ?_, ?_⟩
      · simp [Session.observe, hposition]
      · simp [Session.observe, hposition]

theorem Session.Reported.text {c : Cursor} {s t : Session σ} {found : Option (Text × c.After)}
    (hs : s.Reported start c) (h : readText c s = (found, t)) : t.Reported start (endOf c found) := by
  cases found with
  | none =>
    obtain ⟨-, rfl⟩ := readText_none h
    exact hs
  | some found =>
    obtain ⟨text, d⟩ := found
    have hd := hs.mono (Cursor.le_of_lt d.2)
    rcases readText_problems h with ⟨hproblems, hhalted⟩ | ⟨hend, u, hproblems, hhalted, ht, hht⟩
    · exact hd.congr hproblems hhalted
    · have hu : u.Reported start d.1 := hd.congr hproblems hhalted
      exact (hu.commit .unclosedString d.1.le_refl (.inr (.inr hend))).congr ht hht

theorem Session.Reported.expression {c : Cursor} {s t : Session σ}
    {found : Option (Expression × c.After)} (hs : s.Reported start c)
    (h : readExpression c s = (found, t)) : t.Reported start (endOf c found) := by
  obtain ⟨hproblems, hhalted⟩ := readExpression_problems h
  have ht := hs.congr hproblems hhalted
  cases found with
  | none => exact ht
  | some found => exact ht.mono (Cursor.le_of_lt found.2.2)

theorem Session.Reported.key {c : Cursor} {s t : Session σ} {found : Option (Key × c.After)}
    (hs : s.Reported start c) (h : readKey c s = (found, t)) : t.Reported start (endOf c found) := by
  have hread := readKey_read c s
  rw [h] at hread
  cases hread with
  | text h => exact hs.text h
  | expression _ h => exact hs.expression h
  | @identifier _ d => exact (hs.observe _).mono (Cursor.le_of_lt d.2)
  | none => exact hs

/-- A key that ends in front of more text adds no problem. -/
theorem readKey_problems {c : Cursor} {s t : Session σ} {key : Key} {d : c.After}
    (h : readKey c s = (some (key, d), t)) (hend : d.1.rest ≠ []) :
    t.problems = s.problems ∧ t.halted = s.halted := by
  have hread := readKey_read c s
  rw [h] at hread
  cases hread with
  | text h =>
    rcases readText_problems h with hsame | ⟨hnil, -⟩
    · exact hsame
    · exact absurd hnil hend
  | expression _ h => exact readExpression_problems h
  | identifier => exact ⟨rfl, rfl⟩

/-! ### Arrays and objects -/

/-- Wherever the rule is applied, what it reports stays in order. -/
def ValueRule.Reports (start : Nat) (rule : ValueRule σ n) : Prop :=
  ∀ ⦃c hc s found t⦄, rule c hc s = (found, t) → s.Reported start c → t.Reported start (endOf c found)

theorem SlotRound.reported {rule : ValueRule σ n} (hrule : rule.Reports start) {c : Cursor}
    {hc : c.rest.length < n} {draft : SlotDraft} {s : Session σ} {round : Round σ SlotDraft c}
    (hround : SlotRound rule c hc draft s round) (hs : s.Reported start c) :
    round.session.Reported start round.outcome.1 := by
  have hle := round.le_outcome
  cases hround with
  | ended | closed | comma => exact hs.mono hle
  | comment => exact (hs.observe _).mono hle
  | value _ _ hvalue => exact hrule hvalue hs
  | halt _ hhalt => exact hs.commit _ hle (.inl hhalt)
  | @recover d => exact hs.commit _ hle (.inr (.inl d.2))

/-- Recovery from the problem at `c` moves on, and reports nothing more. -/
theorem PropertyRecovery.reported {c : Cursor} {draft : PropertyDraft} {s : Session σ} {cause : Cause}
    {round : Round σ PropertyDraft c}
    (hround : PropertyRecovery c draft (s.commit cause c.position) round)
    (hs : s.Reported start c) : round.session.Reported start round.outcome.1 := by
  have hle := round.le_outcome
  cases hround with
  | @lost d => exact hs.commit cause hle (.inr (.inl d.2))
  | @closed landing => exact hs.commit cause hle (.inr (.inl landing.lt_after))
  | comma _ _ hlt => exact hs.commit cause hle (.inr (.inl hlt))
  | @key landing key d t _ _ hlt hkey hd =>
    have hhere := Cursor.le_of_position_le (Cursor.le_of_lt d.2) landing.reach hd
    have hmore : d.1.rest ≠ [] := by
      obtain ⟨text, hmoves⟩ := Cursor.lt_of_le_of_lt hhere landing.here_lt_after
      rw [hmoves.2.rest_eq]
      simp [hmoves.1]
    obtain ⟨hproblems, hhalted⟩ := readKey_problems hkey hmore
    have ht := (hs.commit cause hle (.inr (.inl hlt))).congr hproblems hhalted
    exact ht.begin draft key
  | @detach landing tried _ _ hlt htried =>
    have hgrows : (s.commit cause c.position).Grows tried :=
      htried ▸ Session.Grows.law.key (c := c) rfl
    have hback : (tried.rollback (s.commit cause c.position).checkpoint).Reported start
        landing.after := by
      rw [hgrows.rollback_eq]
      exact (hs.commit cause hle (.inr (.inl hlt))).congr rfl rfl
    exact hback.flush draft

theorem PropertyRound.reported {rule : ValueRule σ n} (hrule : rule.Reports start) {c : Cursor}
    {hc : c.rest.length < n} {draft : PropertyDraft} {s : Session σ}
    {round : Round σ PropertyDraft c} (hround : PropertyRound rule c hc draft s round)
    (hs : s.Reported start c) : round.session.Reported start round.outcome.1 := by
  have hle := round.le_outcome
  cases hround with
  | ended | closed | colon | comma => exact hs.mono hle
  | comment => exact (hs.observe _).mono hle
  | key _ hkey => exact (hs.key hkey).begin draft _
  | value _ _ hvalue => exact hrule hvalue hs
  | halt _ hhalt => exact hs.commit _ hle (.inl hhalt)
  | recover _ _ hround => exact hround.reported hs

/-- A loop that ends without its closing bracket was halted, or has reached the end. -/
theorem rounds_unclosed {δ : Type} (step : RoundStep σ δ n)
    (hstep : ∀ ⦃c⦄ (hc : c.rest.length < n) (draft s) ⦃last draft' t⦄,
      step c hc draft s = .stop last draft' false t → t.halted = true ∨ last.1.rest = [])
    {c : Cursor} (hc : c.rest.length < n) (draft : δ) (s : Session σ)
    (h : (rounds step c hc draft s).2.2.1 = false) :
    (rounds step c hc draft s).2.2.2.halted = true ∨ (rounds step c hc draft s).1.1.rest = [] := by
  fun_induction rounds step c hc draft s with
  | case1 c hc draft s hhalted => exact .inl hhalted
  | case2 c hc draft s hgo hle hn last draft' closed t hround =>
    obtain rfl : closed = false := h
    exact hstep hn draft s hround
  | case3 c hc draft s hgo hle hn next draft' t hround hlt hn' last result hrest ih =>
    rw [hrest] at ih
    exact ih h

theorem SlotRound.unclosed {rule : ValueRule σ n} {c : Cursor} {hc : c.rest.length < n}
    {draft draft' : SlotDraft} {s t : Session σ} {last : c.From}
    (hround : SlotRound rule c hc draft s (.stop last draft' false t)) :
    t.halted = true ∨ last.1.rest = [] := by
  cases hround with
  | ended hend => exact .inr hend
  | halt _ hhalt => exact .inl hhalt

theorem PropertyRound.unclosed {rule : ValueRule σ n} {c : Cursor} {hc : c.rest.length < n}
    {draft draft' : PropertyDraft} {s t : Session σ} {last : c.From}
    (hround : PropertyRound rule c hc draft s (.stop last draft' false t)) :
    t.halted = true ∨ last.1.rest = [] := by
  cases hround with
  | ended hend => exact .inr hend
  | halt _ hhalt => exact .inl hhalt
  | recover _ _ hround => cases hround

/-- The missing bracket of a composite is reported at the end of the text. -/
theorem Session.Reported.commitUnclosed {c : Cursor} {s : Session σ} (hs : s.Reported start c)
    {closed : Bool} (cause : Cause) (h : closed = false → s.halted = true ∨ c.rest = []) :
    (s.commitUnclosed closed cause c.position).Reported start c := by
  unfold Session.commitUnclosed
  split
  · exact hs
  · rename_i hopen
    obtain ⟨hgo, hunclosed⟩ : s.halted = false ∧ closed = false := by simpa using hopen
    have hend : c.rest = [] := by simpa [hgo] using h hunclosed
    exact hs.commit cause c.le_refl (.inr (.inr hend))

theorem readSlots_reported {rule : ValueRule σ n} (hquiet : rule.Quiet)
    (hrule : rule.Reports start) {c : Cursor} (hc : c.rest.length < n) {s : Session σ}
    (hs : s.Reported start c) {d : c.From} {draft : SlotDraft} {closed : Bool} {t : Session σ}
    (h : readSlots rule c hc {} s = (d, draft, closed, t)) :
    (t.commitUnclosed closed .unclosedArray d.1.position).Reported start d.1 := by
  have hround := slotStep_round (σ := σ) hquiet
  rw [readSlots_eq_rounds] at h
  have hreported := rounds_invariant (slotStep rule) (fun d _ t => t.Reported start d)
    (fun d _ _ ht => ht.mono d.le_skipBlanks)
    (fun d hd draft t ht => (hround d hd draft t).reported hrule ht) hc {} s hs
  have hunclosed := rounds_unclosed (slotStep rule)
    (fun d hd draft s _ _ _ hstep => (hstep ▸ hround d hd draft s).unclosed) hc {} s
  rw [h] at hreported hunclosed
  exact hreported.commitUnclosed _ hunclosed

theorem readProperties_reported {rule : ValueRule σ n} (hquiet : rule.Quiet)
    (hrule : rule.Reports start) {c : Cursor} (hc : c.rest.length < n) {s : Session σ}
    (hs : s.Reported start c) {d : c.From} {draft : PropertyDraft} {closed : Bool} {t : Session σ}
    (h : readProperties rule c hc {} s = (d, draft, closed, t)) :
    (t.commitUnclosed closed draft.awaited.missing d.1.position).Reported start d.1 := by
  have hround := propertyStep_round (σ := σ) hquiet
  rw [readProperties_eq_rounds] at h
  have hreported := rounds_invariant (propertyStep rule) (fun d _ t => t.Reported start d)
    (fun d _ _ ht => ht.mono d.le_skipBlanks)
    (fun d hd draft t ht => (hround d hd draft t).reported hrule ht) hc {} s hs
  have hunclosed := rounds_unclosed (propertyStep rule)
    (fun d hd draft s _ _ _ hstep => (hstep ▸ hround d hd draft s).unclosed) hc {} s
  rw [h] at hreported hunclosed
  exact hreported.commitUnclosed _ hunclosed

/-! ### Values and documents -/

/-- Reading a value reports its problems in order. -/
theorem Session.Reported.value {c : Cursor} {s t : Session σ} {found : Option (Value × c.After)}
    (hs : s.Reported start c) (h : readValue c s = (found, t)) :
    t.Reported start (endOf c found) := by
  have hread := readValue_read c s
  rw [h] at hread
  cases hread with
  | text h => exact hs.text h
  | expression _ h => exact hs.expression h
  | @array inner hlt d draft closed t _ hinner hslots hvalue hd =>
    have hrule : ValueRule.Reports (σ := σ) (n := c.rest.length) start fun d _ s => readValue d s :=
      fun _ _ _ _ _ h hs => hs.value h
    exact (readSlots_reported readValue_quiet hrule hlt (hs.mono hinner.le) hslots).observe _
  | @object inner hlt d draft closed t u _ hinner hbrace hproperties hu hvalue hd =>
    have hrule : ValueRule.Reports (σ := σ) (n := c.rest.length) start fun d _ s => readValue d s :=
      fun _ _ _ _ _ h hs => hs.value h
    have hdone := readProperties_reported readValue_quiet hrule hlt (hs.mono hinner.le) hproperties
    rw [← hu] at hdone
    exact (hdone.flush draft).observe _
  | @scalar _ d => exact (hs.observe _).mono (Cursor.le_of_lt d.2)
  | none => exact hs
termination_by c.rest.length

/-- The first reading of a document reports its problems in order. -/
theorem RootRead.reported {emptyInput : EmptyInput} {c : Cursor} {s : Session σ}
    {read : Root c × Session σ} (h : RootRead emptyInput c s read) (hs : s.problems = #[]) :
    Problem.InOrder c.source c.position read.2.problems.toList := by
  have hstart : s.Reported c.position c := .fresh hs c
  cases h with
  | empty => exact hstart.inOrder
  | value hvalue _ =>
    have hvalue := hstart.value hvalue
    exact Cursor.source_eq_of_lt (Subtype.property _) ▸ hvalue.inOrder
  | none =>
    have hproblems : (s.push .noValue c.position).problems.toList = [⟨.noValue, c.position⟩] := by
      simp [Session.push, hs]
    rw [hproblems]
    exact .single c (Nat.le_refl _) _

/-- Text after the value is reported only if nothing else is. -/
theorem noteRemainder_reported (options : ReadOptions) {c : Cursor} (root : Root c) {s : Session σ}
    (hs : Problem.InOrder c.source c.position s.problems.toList) :
    Problem.InOrder c.source c.position (noteRemainder options root s).problems.toList := by
  unfold noteRemainder
  dsimp only
  split
  · rename_i hnote
    have hnone : s.problems = #[] := by
      simp only [Session.hasProblems, Bool.and_eq_true, Bool.not_eq_true', Bool.not_eq_false',
        Array.isEmpty_iff] at hnote
      exact hnote.1.1.1
    have hafter := Problem.InOrder.single root.after.1 (Cursor.position_le_of_le root.after.2)
      .trailingText
    rw [Cursor.source_eq_of_le root.after.2] at hafter
    simpa [Session.push, hnone] using hafter
  · exact hs

section Documents

variable (options : ReadOptions) (hooks : Hooks σ) (state : σ) (source : List Char)

theorem openDocument_problems : (openDocument options hooks state source).2.problems = #[] := by
  obtain ⟨state', hsession⟩ := skipTrivia_session (.ofText source)
    (Session.start hooks state options.onError.halts)
  exact congrArg Session.problems hsession

/-- The problems of the first reading stand in order behind the start of the document. -/
theorem notedSession_reported :
    Problem.InOrder source (documentStart options hooks state source).position
      (notedSession options hooks state source).problems.toList := by
  have hnoted := noteRemainder_reported options (firstRoot options hooks state source).1
    ((firstRoot_read options hooks state source).reported
      (openDocument_problems options hooks state source))
  rwa [documentStart_source] at hnoted

end Documents

/-- The problems that a host is told of: those of the document, or the one that it failed with. -/
def reportedProblems : Except Problem Document → List Problem
  | .error problem => [problem]
  | .ok document => document.problems

/-- Every problem that is reported lies between the start of the value and the end of the text and
splits no character.  Problems are reported in the order of the text, two at one place only at its
end. -/
theorem readDocument_problems_ordered (options : ReadOptions) (hooks : Hooks σ) (state : σ)
    (source : List Char) :
    (∀ document, (readDocument options hooks state source).1 = .ok document →
      document.start = (documentStart options hooks state source).position) ∧
    (∀ p ∈ reportedProblems (readDocument options hooks state source).1,
      (documentStart options hooks state source).position ≤ p.position ∧
        p.position ≤ byteLength source ∧ IsBoundary source p.position) ∧
    (reportedProblems (readDocument options hooks state source).1).Pairwise fun p q =>
      p.position ≤ q.position ∧ (p.position = q.position → p.position = byteLength source) := by
  have hnoted := notedSession_reported options hooks state source
  have hread := readDocument_read options hooks state source
  have horder : Problem.InOrder source (documentStart options hooks state source).position
      (reportedProblems (readDocument options hooks state source).1) := by
    generalize readDocument options hooks state source = outcome at hread
    cases hread with
    | asValue => exact hnoted
    | asString => exact .nil _ _
    | failed _ _ hproblem =>
      refine ⟨List.forall_mem_singleton.mpr (hnoted.placed _ ?_), List.pairwise_singleton _ _⟩
      exact Array.mem_toList_iff.mpr (Array.mem_of_getElem? hproblem)
  refine ⟨?_, ?_, ?_⟩
  · intro document hdocument
    generalize readDocument options hooks state source = outcome at hread hdocument
    cases hread with
    | asValue | asString => obtain rfl := Except.ok.inj hdocument; rfl
    | failed => simp at hdocument
  · intro p hp
    obtain ⟨hstart, hlength, hboundary⟩ := horder.placed p hp
    exact ⟨hstart, hlength, hboundary⟩
  · refine horder.ordered.imp ?_
    rintro p q (hlt | ⟨hp, hq⟩)
    · exact ⟨Nat.le_of_lt hlt, fun heq => absurd heq (Nat.ne_of_lt hlt)⟩
    · exact ⟨Nat.le_of_eq (hp.trans hq.symm), fun _ => hp⟩

end DataTemplate
