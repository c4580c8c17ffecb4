/-
Two readings of one text: one halts at the first problem, the other goes on.  They are in step until
a problem is met, and from then on the first changes no more and the second only adds to its
problems.  Main statement: `readValue_runs`.
-/
import DataTemplate.Proofs.SessionLaws
import DataTemplate.Proofs.Outcome

namespace DataTemplate

variable {σ : Type} {n : Nat}

/-- The same session, which goes on after problems. -/
def Session.lenient (s : Session σ) : Session σ := { s with haltOnProblem := false }

/-- No problem was met, and the first one will halt the reading. -/
structure Session.Clean (s : Session σ) : Prop where
  halts : s.haltOnProblem = true
  going : s.halted = false
  none_met : s.problems = #[]

/-- The first run has halted with a problem, which is the first one of the second run. -/
structure Session.Parted (s t : Session σ) : Prop where
  halted : s.halted = true
  first : ∃ problem, s.problems = #[problem] ∧ t.problems[0]? = some problem

/-- How two runs end: in step and with the `same` outcome, or parted. -/
inductive RunsEnd (same : Prop) (s t : Session σ) : Prop
  | inStep (hsame : same) (hclean : s.Clean) (heq : t = s.lenient)
  | parted (h : s.Parted t)

/-! ### Sessions -/

theorem Session.Clean.of_grows {s t : Session σ} (h : s.Clean) (hgrows : s.Grows t)
    (hproblems : t.problems = s.problems) (hhalted : t.halted = s.halted) : t.Clean where
  halts := hgrows.haltOnProblem_eq.trans h.halts
  going := hhalted.trans h.going
  none_met := hproblems.trans h.none_met

theorem Session.Clean.observe {s : Session σ} (h : s.Clean) (node : Node) :
    (s.observe node).Clean := h.of_grows (.observe s node) rfl rfl

/-- Once the runs have parted they stay so, whatever they do. -/
theorem Session.Parted.of_grows {s t s' t' : Session σ} (h : s.Parted t) (hs : s.Grows s')
    (ht : t.Grows t') : s'.Parted t' := by
  obtain ⟨problem, hproblems, hfirst⟩ := h.first
  obtain ⟨hhalted, heq⟩ := hs.halted h.halted
  refine ⟨hhalted, problem, heq.trans hproblems, ?_⟩
  obtain ⟨more, hmore⟩ := ht.problems
  rw [← Array.getElem?_toList] at hfirst ⊢
  obtain ⟨hlt, -⟩ := List.getElem?_eq_some_iff.mp hfirst
  rwa [← hmore, List.getElem?_append_left hlt]

/-- The first problem parts the runs. -/
theorem Session.Clean.commit {s : Session σ} (h : s.Clean) (cause : Cause) (position : Nat) :
    (s.commit cause position).Parted (s.lenient.commit cause position) := by
  have hfirst : s.commit cause position =
      { s.push cause position with halted := s.haltOnProblem } := by
    rw [Session.commit, if_neg (by simp [h.going])]
  have hsecond : s.lenient.commit cause position =
      { s.lenient.push cause position with halted := false } := by
    rw [Session.commit, if_neg (by simp [Session.lenient, h.going])]
    rfl
  rw [hfirst, hsecond]
  refine ⟨h.halts, ⟨cause, position⟩, ?_, ?_⟩
  · simp [Session.push, h.none_met]
  · simp [Session.push, Session.lenient, h.none_met]

theorem RunsEnd.imp {same same' : Prop} {s t : Session σ} (h : RunsEnd same s t)
    (himp : same → same') : RunsEnd same' s t := by
  cases h with
  | inStep hsame hclean heq => exact .inStep (himp hsame) hclean heq
  | parted hparted => exact .parted hparted

/-! ### Alternatives -/

/-- A reader that leaves the session alone unless it finds something. -/
def QuietReader {α : Type} (read : Session σ → Option α × Session σ) : Prop :=
  ∀ ⦃s⦄, (read s).1 = none → (read s).2 = s

/-- The runs of a reader end in step or parted. -/
def ReaderRuns {α : Type} (read : Session σ → Option α × Session σ) : Prop :=
  ∀ ⦃s⦄, s.Clean → RunsEnd ((read s.lenient).1 = (read s).1) (read s).2 (read s.lenient).2

section Readers

variable {α β : Type} {read : Session σ → Option α × Session σ} (hquiet : QuietReader read)
  (hruns : ReaderRuns read)

include hquiet hruns

/-- Two runs of a quiet reader find the same in step, find nothing, or find something and part. -/
theorem ReaderRuns.found {s : Session σ} (hclean : s.Clean) :
    (∃ a t, read s = (some a, t) ∧ read s.lenient = (some a, t.lenient) ∧ t.Clean) ∨
      (read s = (none, s) ∧ read s.lenient = (none, s.lenient)) ∨
      ∃ a t b u, read s = (some a, t) ∧ read s.lenient = (some b, u) ∧ t.Parted u := by
  have hend := hruns hclean
  have hx := hquiet (s := s)
  have hy := hquiet (s := s.lenient)
  generalize read s = x at hend hx
  generalize read s.lenient = y at hend hy
  obtain ⟨found, s'⟩ := x
  obtain ⟨found', t'⟩ := y
  cases hend with
  | inStep hsame hclean' heq =>
    obtain rfl : found' = found := hsame
    obtain rfl : t' = s'.lenient := heq
    cases found' with
    | some a => exact .inl ⟨a, s', rfl, rfl, hclean'⟩
    | none =>
      obtain rfl : s' = s := hx rfl
      exact .inr (.inl ⟨rfl, rfl⟩)
  | parted hparted =>
    cases found with
    | none =>
      obtain rfl : s' = s := hx rfl
      exact absurd hparted.halted (by simp [hclean.going])
    | some a =>
      cases found' with
      | none =>
        obtain rfl : t' = s.lenient := hy rfl
        obtain ⟨problem, -, hfirst⟩ := hparted.first
        simp [Session.lenient, hclean.none_met] at hfirst
      | some b => exact .inr (.inr ⟨a, s', b, t', rfl, rfl, hparted⟩)

/-- Two runs of alternatives end alike if the runs of either do. -/
theorem ReaderRuns.orElse {f : α → β} {next : Session σ → Option β × Session σ}
    (hnext : ReaderRuns next) : ReaderRuns fun s => orElse (read s) f next := by
  intro s h
  dsimp only
  rcases hruns.found hquiet h with
    ⟨a, t, hx, hy, hclean⟩ | ⟨hx, hy⟩ | ⟨a, t, b, u, hx, hy, hparted⟩
  · rw [hx, hy]
    exact .inStep rfl hclean rfl
  · rw [hx, hy]
    exact hnext h
  · rw [hx, hy]
    exact .parted hparted

end Readers

/-- A reader that finds nothing stays in step. -/
theorem ReaderRuns.nothing {α : Type} : ReaderRuns fun s : Session σ => ((none : Option α), s) :=
  fun _ h => .inStep rfl h rfl

/-! ### Leaves -/

theorem Session.finishExpression_lenient (s : Session σ) (e : Expression) :
    s.lenient.finishExpression e =
      ((s.finishExpression e).1, (s.finishExpression e).2.lenient) := by
  unfold Session.finishExpression
  rw [show s.lenient.handled = s.handled from rfl]
  split <;> rfl

theorem readExpression_lenient (c : Cursor) (s : Session σ) :
    readExpression c s.lenient = ((readExpression c s).1, (readExpression c s).2.lenient) := by
  unfold readExpression
  split
  · rfl
  · rw [Session.finishExpression_lenient]

theorem readContent_lenient (quote : Option Quote) (segment c : Cursor) (s : Session σ) :
    readContent quote segment c s.lenient =
      ((readContent quote segment c s).1, (readContent quote segment c s).2.1,
        (readContent quote segment c s).2.2.lenient) := by
  fun_induction readContent quote segment c s with
  | case1 segment c s hfind =>
    rw [readContent]
    simp only [hfind]
    rfl
  | case2 segment c s hit hfind hneedle t hread hlt content d u hrest ih =>
    rw [readContent]
    simp only [hfind, hneedle, if_true, readExpression_lenient, hread, ih, hrest]
  | case3 segment c s hit hfind hneedle e after t hread hlt first content d u hrest ih =>
    have hobserve : t.lenient.observe (.segment first) = (t.observe (.segment first)).lenient := rfl
    rw [readContent]
    simp only [hfind, hneedle, if_true, readExpression_lenient, hread]
    rw [hobserve, ih, hrest]
  | case4 segment c s hit hfind hneedle =>
    rw [readContent]
    simp only [hfind, hneedle]
    rfl

theorem readExpression_runs (c : Cursor) : ReaderRuns (σ := σ) (readExpression c) := by
  intro s h
  obtain ⟨hproblems, hhalted⟩ := readExpression_problems (c := c) (s := s) rfl
  have hgrows := Session.Grows.law.expression (c := c) (s := s) rfl
  rw [readExpression_lenient]
  exact .inStep rfl (h.of_grows hgrows hproblems hhalted) rfl

theorem readIdentifier_runs (c : Cursor) : ReaderRuns (σ := σ) (readIdentifier c) := by
  intro s h
  unfold readIdentifier
  split
  · exact .inStep rfl h rfl
  · exact .inStep rfl (h.observe _) rfl

theorem readScalar_runs (c : Cursor) : ReaderRuns (σ := σ) (readScalar c) := by
  intro s h
  unfold readScalar
  split
  · exact .inStep rfl h rfl
  · exact .inStep rfl (h.observe _) rfl

/-! ### Strings and keys -/

theorem finishText_runs (quote : Option Quote) (c d : Cursor) (content : Content) {s : Session σ}
    (h : s.Clean) :
    RunsEnd ((finishText quote c d content s.lenient).1 = (finishText quote c d content s).1)
      (finishText quote c d content s).2 (finishText quote c d content s.lenient).2 := by
  unfold finishText
  cases content.closed with
  | true => exact .inStep rfl (h.observe _) rfl
  | false =>
    exact .parted ((h.commit .unclosedString c.sourceLength).of_grows (.observe _ _) (.observe _ _))

theorem readContent_clean (quote : Option Quote) (segment c : Cursor) {s : Session σ}
    (h : s.Clean) : (readContent quote segment c s).2.2.Clean := by
  obtain ⟨hproblems, hhalted⟩ := readContent_problems quote segment c s
  exact h.of_grows (Session.Grows.law.content quote segment c s) hproblems hhalted

theorem readTextContent_runs (quote : Option Quote) (c inner : Cursor) {s : Session σ}
    (h : s.Clean) :
    RunsEnd ((readTextContent quote c inner s.lenient).1 = (readTextContent quote c inner s).1 ∧
        (readTextContent quote c inner s.lenient).2.1 = (readTextContent quote c inner s).2.1)
      (readTextContent quote c inner s).2.2 (readTextContent quote c inner s.lenient).2.2 := by
  have hfinish := finishText_runs quote c (readContent quote inner inner s).2.1.1
    (readContent quote inner inner s).1 (readContent_clean quote inner inner h)
  simp only [readTextContent, readContent_lenient]
  exact hfinish.imp fun hsame => ⟨hsame, trivial⟩

theorem readText_runs (c : Cursor) : ReaderRuns (σ := σ) (readText c) := by
  intro s h
  unfold readText
  split
  · exact .inStep rfl h rfl
  · rename_i quote hquote
    dsimp only
    have hcontent := readTextContent_runs (some quote) c (c.next (Cursor.ne_nil_of_quote? hquote)) h
    split
    · rename_i raw d hraw
      split
      · exact hcontent.imp fun hsame => by simp [hsame]
      · have hobserve (content : Content) : s.lenient.observe (.segment content.first) =
            (s.observe (.segment content.first)).lenient := rfl
        have hfinish := finishText_runs (some quote) c d.1 (staticContent c d.1 raw)
          (h.observe (.segment (staticContent c d.1 raw).first))
        rw [hobserve]
        exact hfinish.imp fun hsame => by simp [hsame]
    · exact hcontent.imp fun hsame => by simp [hsame]

theorem readText_quiet (c : Cursor) : QuietReader (σ := σ) (readText c) :=
  fun _ hnone => (readText_none (Prod.ext hnone rfl)).2

theorem readExpression_quiet (c : Cursor) : QuietReader (σ := σ) (readExpression c) :=
  fun _ hnone => (readExpression_none (Prod.ext hnone rfl)).2

theorem readIdentifier_quiet (c : Cursor) : QuietReader (σ := σ) (readIdentifier c) :=
  fun _ hnone => readIdentifier_none (Prod.ext hnone rfl)

theorem readKey_quiet (c : Cursor) : QuietReader (σ := σ) (readKey c) :=
  fun _ hnone => readKey_none (Prod.ext hnone rfl)

theorem readKey_runs (c : Cursor) : ReaderRuns (σ := σ) (readKey c) := by
  rw [funext (readKey_eq c)]
  apply ReaderRuns.orElse (readText_quiet c) (readText_runs c)
  apply ReaderRuns.orElse (readExpression_quiet c) (readExpression_runs c)
  apply ReaderRuns.orElse (readIdentifier_quiet c) (readIdentifier_runs c)
  exact .nothing

/-! ### Rounds -/

/-- Two rounds go the same way. -/
def Round.SameWay {δ : Type} {c : Cursor} : Round σ δ c → Round σ δ c → Prop
  | .again next draft _, .again next' draft' _ => next' = next ∧ draft' = draft
  | .stop last draft closed _, .stop last' draft' closed' _ =>
    last' = last ∧ draft' = draft ∧ closed' = closed
  | _, _ => False

/-- The runs of a rule end in step or parted wherever it is applied. -/
def ValueRule.Runs (rule : ValueRule σ n) : Prop :=
  ∀ ⦃c : Cursor⦄ ⦃hc : c.rest.length < n⦄ ⦃s : Session σ⦄, s.Clean →
    RunsEnd ((rule c hc s.lenient).1 = (rule c hc s).1) (rule c hc s).2 (rule c hc s.lenient).2

/-- The runs of a step end in step or parted wherever it is taken. -/
def RoundStep.Runs {δ : Type} (step : RoundStep σ δ n) : Prop :=
  ∀ ⦃c : Cursor⦄ (hc : c.rest.length < n) (draft : δ) ⦃s : Session σ⦄, s.Clean →
    RunsEnd ((step c hc draft s).SameWay (step c hc draft s.lenient)) (step c hc draft s).session
      (step c hc draft s.lenient).session

/-- A step only ever adds to the session. -/
def RoundStep.Grows {δ : Type} (step : RoundStep σ δ n) : Prop :=
  ∀ ⦃c : Cursor⦄ (hc : c.rest.length < n) (draft : δ) (s : Session σ),
    s.Grows (step c hc draft s).session

theorem ValueRule.Runs.found {rule : ValueRule σ n} (hruns : rule.Runs) (hquiet : rule.Quiet)
    {c : Cursor} (hc : c.rest.length < n) {s : Session σ} (hclean : s.Clean) :
    (∃ a t, rule c hc s = (some a, t) ∧ rule c hc s.lenient = (some a, t.lenient) ∧ t.Clean) ∨
      (rule c hc s = (none, s) ∧ rule c hc s.lenient = (none, s.lenient)) ∨
      ∃ a t b u, rule c hc s = (some a, t) ∧ rule c hc s.lenient = (some b, u) ∧ t.Parted u := by
  have hreader : QuietReader (rule c hc) := fun _ hnone => hquiet (Prod.ext hnone rfl)
  have hagrees : ReaderRuns (rule c hc) := fun _ h => hruns h
  exact hagrees.found hreader hclean

section Rounds

variable {δ : Type} {step : RoundStep σ δ n} (hgrows : step.Grows)

include hgrows

theorem rounds_step_grows {c : Cursor} (hc : c.rest.length < n) (draft : δ) {s : Session σ}
    (hgo : s.halted = false) (hn : c.skipBlanks.rest.length < n) :
    (step c.skipBlanks hn draft s).session.Grows (rounds step c hc draft s).2.2.2 := by
  cases hstep : step c.skipBlanks hn draft s with
  | stop =>
    rw [rounds_of_stop hgo hstep]
    exact .refl _
  | again next draft' t =>
    have hlt := Cursor.lt_of_le_of_lt c.le_skipBlanks next.2
    rw [rounds_of_again (Nat.lt_trans (Cursor.length_lt_of_lt hlt) hc) hgo hstep]
    exact Session.Grows.law.rounds (fun _ hc draft s => hgrows hc draft s)
      _ _ _

theorem rounds_runs (hruns : step.Runs) {c : Cursor} (hc : c.rest.length < n) (draft : δ)
    {s : Session σ} (h : s.Clean) :
    RunsEnd
      ((rounds step c hc draft s.lenient).1 = (rounds step c hc draft s).1 ∧
        (rounds step c hc draft s.lenient).2.1 = (rounds step c hc draft s).2.1 ∧
        (rounds step c hc draft s.lenient).2.2.1 = (rounds step c hc draft s).2.2.1)
      (rounds step c hc draft s).2.2.2 (rounds step c hc draft s.lenient).2.2.2 := by
  have hn := Nat.lt_of_le_of_lt (Cursor.length_le_of_le c.le_skipBlanks) hc
  have hfinal := rounds_step_grows hgrows hc draft h.going hn
  have hfinal' := rounds_step_grows hgrows hc draft (s := s.lenient) h.going hn
  cases hruns hn draft h with
  | parted hparted => exact .parted (hparted.of_grows hfinal hfinal')
  | inStep hsame hclean heq =>
    cases hstep : step c.skipBlanks hn draft s with
    | stop last draft' closed t =>
      cases hstep' : step c.skipBlanks hn draft s.lenient with
      | again => exact absurd hsame (by simp [hstep, hstep', Round.SameWay])
      | stop =>
        rw [hstep, hstep'] at hsame
        obtain ⟨rfl, rfl, rfl⟩ := hsame
        rw [hstep, hstep'] at heq
        rw [hstep] at hclean
        rw [rounds_of_stop h.going hstep, rounds_of_stop (s := s.lenient) h.going hstep']
        exact .inStep ⟨rfl, rfl, rfl⟩ hclean heq
    | again next draft' t =>
      cases hstep' : step c.skipBlanks hn draft s.lenient with
      | stop => exact absurd hsame (by simp [hstep, hstep', Round.SameWay])
      | again next' draft'' t' =>
        rw [hstep, hstep'] at hsame
        obtain ⟨rfl, rfl⟩ := hsame
        rw [hstep, hstep'] at heq
        obtain rfl : t' = t.lenient := heq
        rw [hstep] at hclean
        have hlt := Cursor.lt_of_le_of_lt c.le_skipBlanks next'.2
        have hnext := Nat.lt_trans (Cursor.length_lt_of_lt hlt) hc
        rw [rounds_of_again hnext h.going hstep,
          rounds_of_again (s := s.lenient) hnext h.going hstep']
        refine (rounds_runs hruns hnext draft'' hclean).imp ?_
        rintro ⟨hlast, hdraft, hclosed⟩
        exact ⟨Subtype.ext (congrArg (·.1) hlast), hdraft, hclosed⟩
termination_by c.rest.length
decreasing_by exact Cursor.length_lt_of_lt hlt

end Rounds

/-! ### Arrays -/

theorem slotStep_runs {rule : ValueRule σ n} (hquiet : rule.Quiet) (hruns : rule.Runs) :
    RoundStep.Runs (slotStep rule) := by
  intro c hc draft s h
  have hmissing := h.commit draft.missing c.position
  unfold slotStep
  split
  · exact .inStep ⟨rfl, rfl, rfl⟩ h rfl
  · dsimp only
    split
    · exact .inStep ⟨rfl, rfl, rfl⟩ h rfl
    · split
      · exact .inStep ⟨rfl, rfl⟩ h rfl
      · split
        · exact .inStep ⟨rfl, rfl⟩ (h.observe _) rfl
        · by_cases hopen : draft.awaitsValue = true
          · simp only [if_pos hopen]
            rcases hruns.found hquiet hc h with
              ⟨a, t, hx, hy, hclean⟩ | ⟨hx, hy⟩ | ⟨a, t, b, u, hx, hy, hparted⟩
            · rw [hx, hy]
              exact .inStep ⟨rfl, rfl⟩ hclean rfl
            · rw [hx, hy]
              apply RunsEnd.parted
              dsimp only
              split <;> split <;> exact hmissing
            · rw [hx, hy]
              exact .parted hparted
          · simp only [if_neg hopen]
            apply RunsEnd.parted
            split <;> split <;> exact hmissing

/-! ### Objects -/

theorem PropertyDraft.flush_grows (draft : PropertyDraft) (s : Session σ) :
    s.Grows (draft.flush s).2 := Session.Grows.law.flush default draft s

theorem PropertyDraft.flush_clean (draft : PropertyDraft) {s : Session σ} (h : s.Clean) :
    (draft.flush s).2.Clean := by
  unfold flush
  split
  · exact h
  · exact h.observe _

theorem PropertyDraft.flush_lenient (draft : PropertyDraft) (s : Session σ) :
    draft.flush s.lenient = ((draft.flush s).1, (draft.flush s).2.lenient) := by
  unfold flush
  split <;> rfl

theorem PropertyDraft.begin_lenient (draft : PropertyDraft) (key : Key) (s : Session σ) :
    draft.begin key s.lenient = ((draft.begin key s).1, (draft.begin key s).2.lenient) := by
  unfold begin
  rw [flush_lenient]

theorem acceptToken_runs {rule : ValueRule σ n} (hquiet : rule.Quiet) (hruns : rule.Runs)
    (c : Cursor) (hc : c.rest.length < n) (hne : c.rest ≠ []) (draft : PropertyDraft)
    {s : Session σ} (h : s.Clean) :
    (∃ round round', acceptToken rule c hc hne draft s = .ok round ∧
        acceptToken rule c hc hne draft s.lenient = .ok round' ∧
        RunsEnd (round.SameWay round') round.session round'.session) ∨
      (acceptToken rule c hc hne draft s = .error s ∧
        acceptToken rule c hc hne draft s.lenient = .error s.lenient) := by
  unfold acceptToken
  dsimp only
  split
  · split
    · exact .inl ⟨_, _, rfl, rfl, .inStep ⟨rfl, rfl, rfl⟩ h rfl⟩
    · rcases (readKey_runs c).found (readKey_quiet c) h with
        ⟨a, t, hx, hy, hclean⟩ | ⟨hx, hy⟩ | ⟨a, t, b, u, hx, hy, hparted⟩
      · rw [hx, hy]
        dsimp only
        rw [PropertyDraft.begin_lenient]
        exact .inl ⟨_, _, rfl, rfl, .inStep ⟨rfl, rfl⟩ (draft.flush_clean hclean) rfl⟩
      · rw [hx, hy]
        exact .inr ⟨rfl, rfl⟩
      · rw [hx, hy]
        refine .inl ⟨_, _, rfl, rfl, .parted ?_⟩
        exact hparted.of_grows (draft.flush_grows t) (draft.flush_grows u)
  · split
    · exact .inl ⟨_, _, rfl, rfl, .inStep ⟨rfl, rfl⟩ h rfl⟩
    · exact .inr ⟨rfl, rfl⟩
  · rcases hruns.found hquiet hc h with
      ⟨a, t, hx, hy, hclean⟩ | ⟨hx, hy⟩ | ⟨a, t, b, u, hx, hy, hparted⟩
    · rw [hx, hy]
      exact .inl ⟨_, _, rfl, rfl, .inStep ⟨rfl, rfl⟩ hclean rfl⟩
    · rw [hx, hy]
      exact .inr ⟨rfl, rfl⟩
    · rw [hx, hy]
      exact .inl ⟨_, _, rfl, rfl, .parted hparted⟩
  · split
    · exact .inl ⟨_, _, rfl, rfl, .inStep ⟨rfl, rfl, rfl⟩ h rfl⟩
    · split
      · exact .inl ⟨_, _, rfl, rfl, .inStep ⟨rfl, rfl⟩ h rfl⟩
      · exact .inr ⟨rfl, rfl⟩

theorem propertyStep_runs {rule : ValueRule σ n} (hquiet : rule.Quiet) (hruns : rule.Runs) :
    RoundStep.Runs (propertyStep rule) := by
  intro c hc draft s h
  have hmissing := h.commit draft.awaited.missing c.position
  unfold propertyStep
  split
  · exact .inStep ⟨rfl, rfl, rfl⟩ h rfl
  · rename_i hne
    split
    · exact .inStep ⟨rfl, rfl⟩ (h.observe _) rfl
    · rcases acceptToken_runs hquiet hruns c hc hne draft h with
        ⟨round, round', hx, hy, hround⟩ | ⟨hx, hy⟩
      · rw [hx, hy]
        exact hround
      · rw [hx, hy]
        apply RunsEnd.parted
        dsimp only
        rw [if_pos hmissing.halted]
        split
        · exact hmissing
        · rename_i hgo
          have hcommit := Session.commit_recovering (eq_false_of_ne_true hgo)
          exact hmissing.of_grows (.refl _) ((recoverProperty_recovery c hne draft _).grows hcommit)

/-! ### Values -/

theorem slotStep_grows :
    RoundStep.Grows (n := n) (slotStep fun c _ (s : Session σ) => readValue c s) := by
  intro c hc draft s
  exact (slotStep_round readValue_quiet c hc draft s).grows

theorem propertyStep_grows :
    RoundStep.Grows (n := n) (propertyStep fun c _ (s : Session σ) => readValue c s) := by
  intro c hc draft s
  exact (propertyStep_round readValue_quiet c hc draft s).grows

theorem commitUnclosed_runs {s : Session σ} (h : s.Clean) (closed : Bool) (cause : Cause)
    (position : Nat) : RunsEnd True (s.commitUnclosed closed cause position)
      (s.lenient.commitUnclosed closed cause position) := by
  have hgoing : s.lenient.halted = false := h.going
  unfold Session.commitUnclosed
  rw [h.going, hgoing]
  cases closed with
  | true => exact .inStep trivial h rfl
  | false => exact .parted (h.commit cause position)

theorem commitUnclosed_grows (s : Session σ) (closed : Bool) (cause : Cause) (position : Nat) :
    s.Grows (s.commitUnclosed closed cause position) :=
  Session.Grows.law.commitUnclosed default s closed cause position

theorem readArray_runs (c : Cursor)
    (hruns : ValueRule.Runs (n := c.rest.length) fun d _ (s : Session σ) => readValue d s) :
    ReaderRuns (readArray c fun d _ (s : Session σ) => readValue d s) := by
  intro s h
  unfold readArray
  split
  · rename_i rest hrest
    have hlt := Cursor.length_lt_of_lt (c.next (Cursor.rest_ne_nil hrest)).2
    have hloop := rounds_runs slotStep_grows (slotStep_runs readValue_quiet hruns) hlt {} h
    simp only [← readSlots_eq_rounds] at hloop
    rcases hx : readSlots (fun d _ s => readValue d s) _ hlt {} s with ⟨d, draft, closed, t⟩
    rcases hy : readSlots (fun d _ s => readValue d s) _ hlt {} s.lenient with
      ⟨d', draft', closed', t'⟩
    rw [hx, hy] at hloop
    simp only [hx, hy]
    cases hloop with
    | inStep hsame hclean heq =>
      obtain ⟨rfl, rfl, rfl⟩ := hsame
      obtain rfl : t' = t.lenient := heq
      cases commitUnclosed_runs hclean closed' .unclosedArray d'.1.position with
      | inStep _ hclean heq => exact .inStep rfl (hclean.observe _) (heq ▸ rfl)
      | parted hparted => exact .parted (hparted.of_grows (.observe _ _) (.observe _ _))
    | parted hparted =>
      exact .parted (hparted.of_grows ((commitUnclosed_grows t _ _ _).trans (.observe _ _))
        ((commitUnclosed_grows t' _ _ _).trans (.observe _ _)))
  · exact .inStep rfl h rfl

theorem readObject_runs (c : Cursor)
    (hruns : ValueRule.Runs (n := c.rest.length) fun d _ (s : Session σ) => readValue d s) :
    ReaderRuns (readObject c fun d _ (s : Session σ) => readValue d s) := by
  intro s h
  unfold readObject
  split
  · rename_i rest hrest
    split
    · exact .inStep rfl h rfl
    · have hlt := Cursor.length_lt_of_lt (c.next (Cursor.rest_ne_nil hrest)).2
      have hloop :=
        rounds_runs propertyStep_grows (propertyStep_runs readValue_quiet hruns) hlt {} h
      simp only [← readProperties_eq_rounds] at hloop
      rcases hx : readProperties (fun d _ s => readValue d s) _ hlt {} s with ⟨d, draft, closed, t⟩
      rcases hy : readProperties (fun d _ s => readValue d s) _ hlt {} s.lenient with
        ⟨d', draft', closed', t'⟩
      rw [hx, hy] at hloop
      simp only [hx, hy]
      cases hloop with
      | inStep hsame hclean heq =>
        obtain ⟨rfl, rfl, rfl⟩ := hsame
        obtain rfl : t' = t.lenient := heq
        cases commitUnclosed_runs hclean closed' draft'.awaited.missing d'.1.position with
        | inStep _ hclean heq =>
          simp only [heq, PropertyDraft.flush_lenient]
          exact .inStep trivial ((draft'.flush_clean hclean).observe _) rfl
        | parted hparted =>
          exact .parted (hparted.of_grows ((draft'.flush_grows _).trans (.observe _ _))
            ((draft'.flush_grows _).trans (.observe _ _)))
      | parted hparted =>
        have hgrows (draft : PropertyDraft) (closed : Bool) (position : Nat) (value : Value)
            (u : Session σ) : u.Grows ((draft.flush (u.commitUnclosed closed
              draft.awaited.missing position)).2.observe (.value value)) :=
          ((commitUnclosed_grows u _ _ _).trans (draft.flush_grows _)).trans (.observe _ _)
        exact .parted (hparted.of_grows (hgrows draft closed _ _ t) (hgrows draft' closed' _ _ t'))
  · exact .inStep rfl h rfl

theorem readArray_quiet (c : Cursor) :
    QuietReader (readArray c fun d _ (s : Session σ) => readValue d s) := by
  intro s hnone
  rcases readArray_read (c := c) (s := s) with ⟨found, t, harray, -⟩ | ⟨-, harray⟩
  · simp [harray] at hnone
  · rw [harray]

theorem readObject_quiet (c : Cursor) :
    QuietReader (readObject c fun d _ (s : Session σ) => readValue d s) := by
  intro s hnone
  rcases readObject_read (c := c) (s := s) with ⟨found, t, hobject, -⟩ | ⟨-, hobject⟩
  · simp [hobject] at hnone
  · rw [hobject]

theorem readScalar_quiet (c : Cursor) : QuietReader (σ := σ) (readScalar c) :=
  fun _ hnone => readScalar_none (Prod.ext hnone rfl)

/-- Until a problem is met the two runs read the same value and stay in step. -/
theorem readValue_runs (c : Cursor) : ReaderRuns (σ := σ) (readValue c) := by
  have hruns : ValueRule.Runs (n := c.rest.length) fun d _ (s : Session σ) => readValue d s :=
    fun d _ _ h => readValue_runs d h
  rw [funext (readValue_eq c)]
  apply ReaderRuns.orElse (readText_quiet c) (readText_runs c)
  apply ReaderRuns.orElse (readExpression_quiet c) (readExpression_runs c)
  apply ReaderRuns.orElse (readArray_quiet c) (readArray_runs c hruns)
  apply ReaderRuns.orElse (readObject_quiet c) (readObject_runs c hruns)
  apply ReaderRuns.orElse (readScalar_quiet c) (readScalar_runs c)
  exact .nothing
termination_by c.rest.length
decreasing_by assumption

end DataTemplate
