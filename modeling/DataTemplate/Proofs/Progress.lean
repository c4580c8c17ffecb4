/-
How the reading of an array or an object gets on through text that it expects.  A place with a draft
leads to a later place with another draft if reading on from either ends alike; what stands between
tokens changes no draft.  Main statements: `leadsTo_gap` and `skipTrivia_gap`.
-/
import DataTemplate.Proofs.Literals

namespace DataTemplate

variable {σ δ : Type} {n : Nat}

/-! ### Sessions without incidents -/

/-- A session that has met no problem, knows of no earlier scan, and whose host leaves expressions
as they are. -/
structure Session.Plain (s : Session σ) : Prop where
  going : s.halted = false
  none_met : s.problems = #[]
  none_handled : s.handled = #[]
  keeps : ∀ state e, (s.hooks.revise state e).1 = ⟨e.text, e.valueType⟩

namespace Session.Plain

variable {s : Session σ}

theorem observe (h : s.Plain) (node : Node) : (s.observe node).Plain :=
  ⟨h.going, h.none_met, h.none_handled, h.keeps⟩

theorem finishExpression (h : s.Plain) (e : Expression) :
    (s.finishExpression e).1 = e ∧ (s.finishExpression e).2.Plain := by
  have hnone : (s.handled.find? fun earlier => earlier.bodySpan == e.bodySpan) = none := by
    simp [h.none_handled]
  unfold Session.finishExpression
  rw [hnone]
  constructor
  · simp only [ask, h.keeps]
    rfl
  · exact ⟨h.going, h.none_met, h.none_handled, h.keeps⟩

theorem flush (h : s.Plain) (draft : PropertyDraft) : (draft.flush s).2.Plain := by
  unfold PropertyDraft.flush
  split
  · exact h
  · exact h.observe _

theorem begin (h : s.Plain) (draft : PropertyDraft) (key : Key) : (draft.begin key s).2.Plain :=
  h.flush draft

end Session.Plain

/-! ### Blanks -/

theorem Cursor.skipBlanks_eq {c : Cursor} (h : c.rest.head?.any isBlank = false) :
    c.skipBlanks = c := by
  have hnothing : c.rest = [] ++ c.rest := rfl
  have hrun := (Cursor.rest_matchWhile hnothing (by simp) h).1
  have hmoves := c.moves_matchWhile isBlank
  rw [hrun] at hmoves
  exact hmoves.unique (Cursor.Moves.refl c)

/-- A blank in front makes no difference to where the blanks end. -/
theorem Cursor.skipBlanks_of_blank {c d : Cursor} {x : Char} (hd : c.Moves [x] d)
    (hx : isBlank x = true) : c.skipBlanks = d.skipBlanks := by
  have hmoves := c.moves_matchWhile isBlank
  have hrun : c.runOf isBlank = [x] ++ d.runOf isBlank := by
    simp [runOf, hd.rest_eq, hx]
  rw [hrun] at hmoves
  exact hmoves.unique (hd.trans (d.moves_matchWhile isBlank))

theorem isBlank_of_not_mem_breakChars {x : Char} (h : x ∉ breakChars) : isBlank x = false := by
  apply eq_false_of_ne_true
  intro hblank
  exact h (mem_breakChars_of_isBlank hblank)

theorem head?_any_isBlank_of_tokenMayStart {text : List Char} (h : tokenMayStart text = true) :
    text.head?.any isBlank = false := by
  cases text with
  | nil => rfl
  | cons x text =>
    have hx : x ∉ breakChars := by simpa [tokenMayStart] using h
    exact isBlank_of_not_mem_breakChars hx

/-! ### Getting on -/

/-- Where reading in rounds ends, and what it leaves. -/
def roundsEnd (step : RoundStep σ δ n) (c : Cursor) (hc : c.rest.length < n) (draft : δ)
    (s : Session σ) : Cursor × δ × Bool × Session σ :=
  ((rounds step c hc draft s).1.1, (rounds step c hc draft s).2)

/-- Where reading in rounds ends after a round. -/
def Round.finish (step : RoundStep σ δ n) {c : Cursor} (hc : c.rest.length < n) :
    Round σ δ c → Cursor × δ × Bool × Session σ
  | .stop last draft closed s => (last.1, draft, closed, s)
  | .again next draft s =>
    roundsEnd step next.1 (Nat.lt_trans (Cursor.length_lt_of_lt next.2) hc) draft s

/-- Reading on from `d` ends like reading on from `c`. -/
def LeadsTo (step : RoundStep σ δ n) (c : Cursor) (draft : δ) (s : Session σ) (d : Cursor)
    (draft' : δ) (t : Session σ) : Prop :=
  ∀ hc : c.rest.length < n, ∃ hd : d.rest.length < n,
    roundsEnd step c hc draft s = roundsEnd step d hd draft' t

section

variable {step : RoundStep σ δ n} {c d : Cursor} {draft draft' : δ} {s t : Session σ}

theorem LeadsTo.refl : LeadsTo step c draft s c draft s := fun hc => ⟨hc, rfl⟩

theorem LeadsTo.trans {e : Cursor} {draft'' : δ} {u : Session σ}
    (h : LeadsTo step c draft s d draft' t) (k : LeadsTo step d draft' t e draft'' u) :
    LeadsTo step c draft s e draft'' u := by
  intro hc
  obtain ⟨hd, hcd⟩ := h hc
  obtain ⟨he, hde⟩ := k hd
  exact ⟨he, hcd.trans hde⟩

theorem roundsEnd_eq_finish (hgo : s.halted = false) (hc : c.rest.length < n)
    (hn : c.skipBlanks.rest.length < n) :
    roundsEnd step c hc draft s = Round.finish step hn (step c.skipBlanks hn draft s) := by
  cases hstep : step c.skipBlanks hn draft s with
  | again next draft' t =>
    rw [roundsEnd, rounds_of_again (Nat.lt_trans (Cursor.length_lt_of_lt next.2) hn) hgo hstep]
    rfl
  | stop last draft' closed t =>
    rw [roundsEnd, rounds_of_stop hgo hstep]
    rfl

theorem Round.finish_congr (h : c = d) (hc : c.rest.length < n) (hd : d.rest.length < n) :
    Round.finish step hc (step c hc draft s) = Round.finish step hd (step d hd draft s) := by
  subst h
  rfl

theorem leadsTo_of_skipBlanks (hgo : s.halted = false) (hle : c ≤ d)
    (h : c.skipBlanks = d.skipBlanks) : LeadsTo step c draft s d draft s := by
  intro hc
  have hd := Nat.lt_of_le_of_lt (Cursor.length_le_of_le hle) hc
  have hn := Nat.lt_of_le_of_lt (Cursor.length_le_of_le d.le_skipBlanks) hd
  refine ⟨hd, ?_⟩
  rw [roundsEnd_eq_finish hgo hc (h ▸ hn), roundsEnd_eq_finish hgo hd hn]
  exact Round.finish_congr h _ _

/-- A round at a token leads to the place after it. -/
theorem leadsTo_of_again {next : c.After} (hgo : s.halted = false)
    (hblank : c.rest.head?.any isBlank = false)
    (hstep : ∀ hc, step c hc draft s = .again next draft' t) :
    LeadsTo step c draft s next.1 draft' t := by
  intro hc
  have hskip := Cursor.skipBlanks_eq hblank
  refine ⟨Nat.lt_trans (Cursor.length_lt_of_lt next.2) hc, ?_⟩
  rw [roundsEnd_eq_finish hgo hc (by rwa [hskip]), Round.finish_congr hskip _ hc, hstep]
  rfl

/-- A round that stops at a token ends the reading there. -/
theorem roundsEnd_of_stop {last : c.From} {closed : Bool} (hgo : s.halted = false)
    (hblank : c.rest.head?.any isBlank = false)
    (hstep : ∀ hc, step c hc draft s = .stop last draft' closed t) (hc : c.rest.length < n) :
    roundsEnd step c hc draft s = (last.1, draft', closed, t) := by
  have hskip := Cursor.skipBlanks_eq hblank
  rw [roundsEnd_eq_finish hgo hc (by rwa [hskip]), Round.finish_congr hskip _ hc, hstep]
  rfl

theorem exists_of_roundsEnd {hc : c.rest.length < n} {closed : Bool}
    (h : roundsEnd step c hc draft s = (d, draft', closed, t)) :
    ∃ last : c.From, rounds step c hc draft s = (last, draft', closed, t) ∧ last.1 = d := by
  obtain ⟨hlast, hrest⟩ := Prod.mk.inj h
  exact ⟨_, Prod.ext rfl hrest, hlast⟩

/-! ### Tokens of one character -/

variable {x : Char} {rest : List Char}

theorem Cursor.rest_next (hc : c.rest = x :: rest) :
    (c.next (Cursor.rest_ne_nil hc)).1.rest = rest := by
  simp [next, past, hc]

theorem head?_any_isBlank (hc : c.rest = x :: rest) (hx : isBlank x = false) :
    c.rest.head?.any isBlank = false := by
  simpa [hc] using hx

theorem leadsTo_next (hc : c.rest = x :: rest) (hx : isBlank x = false) (hgo : s.halted = false)
    (hstep : ∀ hn, step c hn draft s = .again (c.next (Cursor.rest_ne_nil hc)) draft' t) :
    ∃ d, LeadsTo step c draft s d draft' t ∧ d.rest = rest :=
  ⟨_, leadsTo_of_again hgo (head?_any_isBlank hc hx) hstep, Cursor.rest_next hc⟩

theorem roundsEnd_closed (hc : c.rest = x :: rest) (hx : isBlank x = false) (hgo : s.halted = false)
    (hstep : ∀ hn, step c hn draft s = .stop ⟨(c.next (Cursor.rest_ne_nil hc)).1,
      Cursor.le_of_lt (c.next (Cursor.rest_ne_nil hc)).2⟩ draft' true t) (hn : c.rest.length < n) :
    ∃ d, roundsEnd step c hn draft s = (d, draft', true, t) ∧ d.rest = rest :=
  ⟨_, roundsEnd_of_stop hgo (head?_any_isBlank hc hx) hstep hn, Cursor.rest_next hc⟩

end

/-! ### Between tokens -/

/-- A step that passes over a comment and keeps its draft. -/
def RoundStep.PassesComments (step : RoundStep σ δ n) : Prop :=
  ∀ ⦃c : Cursor⦄ (hc : c.rest.length < n) (draft : δ) (s : Session σ) ⦃d : c.After⦄,
    c.comment? = some d → step c hc draft s = .again d draft (s.observeComment c d)

theorem Cursor.head?_of_comment? {c : Cursor} {d : c.After} (h : c.comment? = some d) :
    c.rest.head? = some '/' := by
  by_cases hslash : c.rest.head? = some '/'
  · exact hslash
  · simp [Cursor.comment?_eq_none hslash] at h

theorem slotStep_passesComments (rule : ValueRule σ n) :
    RoundStep.PassesComments (slotStep rule) := by
  intro c hc draft s d hd
  have hslash := Cursor.head?_of_comment? hd
  unfold slotStep
  split
  · simp_all
  · rename_i x rest hrest
    obtain rfl : x = '/' := by simpa [hrest] using hslash
    simp [hd]

theorem propertyStep_passesComments (rule : ValueRule σ n) :
    RoundStep.PassesComments (propertyStep rule) := by
  intro c hc draft s d hd
  have hslash := Cursor.head?_of_comment? hd
  have hne : c.rest ≠ [] := by
    intro hnil
    simp [hnil] at hslash
  unfold propertyStep
  simp [hne, hd]

theorem Cursor.exists_next {c : Cursor} {x : Char} {rest : List Char} (h : c.rest = x :: rest) :
    ∃ d, c.Moves [x] d ∧ d.rest = rest := by
  have hmoves := Cursor.moves_next h
  exact ⟨_, hmoves, by simpa [h] using hmoves.rest_eq.symm⟩

/-- A filler is one blank, or a comment that the reader takes as a whole. -/
theorem Filler.taken (filler : Filler) {c : Cursor} {rest : List Char}
    (hc : c.rest = filler.text ++ rest) :
    (∃ x d, isBlank x = true ∧ c.Moves [x] d ∧ d.rest = rest) ∨
      (c.rest.head?.any isBlank = false ∧ ∃ d, c.comment? = some d ∧ d.1.rest = rest) := by
  have hslash : isBlank '/' = false := by decide
  cases filler with
  | blank x hblank =>
    obtain ⟨d, hd, hrest⟩ := Cursor.exists_next (c := c) (by simpa [text] using hc)
    exact .inl ⟨x, d, hblank, hd, hrest⟩
  | line body stop hbody hstop =>
    have htext : c.rest = '/' :: '/' :: (body ++ stop :: rest) := by simpa [text] using hc
    exact .inr ⟨by simpa [htext] using hslash, Cursor.comment?_line hbody hstop htext⟩
  | block body hbody =>
    have htext : c.rest = '/' :: '*' :: (body ++ '*' :: '/' :: rest) := by simpa [text] using hc
    exact .inr ⟨by simpa [htext] using hslash, Cursor.comment?_block hbody htext⟩

/-- What stands between two tokens leads to the second. -/
theorem leadsTo_gap {step : RoundStep σ δ n} (hpasses : step.PassesComments) (draft : δ) (gap : Gap)
    {c : Cursor} {rest : List Char} {s : Session σ} (hplain : s.Plain)
    (hc : c.rest = gap.text ++ rest) :
    ∃ d t, LeadsTo step c draft s d draft t ∧ d.rest = rest ∧ t.Plain := by
  induction gap generalizing c s with
  | nil => exact ⟨c, s, .refl, hc, hplain⟩
  | cons filler gap ih =>
    have htext : c.rest = filler.text ++ (Gap.text gap ++ rest) := by simpa [Gap.text] using hc
    rcases filler.taken htext with ⟨x, d, hx, hd, hrest⟩ | ⟨hblank, d, hd, hrest⟩
    · obtain ⟨e, t, hleads, he, ht⟩ := ih hplain hrest
      have hskip : LeadsTo step c draft s d draft s :=
        leadsTo_of_skipBlanks hplain.going hd.le (Cursor.skipBlanks_of_blank hd hx)
      exact ⟨e, t, hskip.trans hleads, he, ht⟩
    · have hround := leadsTo_of_again hplain.going hblank fun hn => hpasses hn draft s hd
      obtain ⟨e, t, hleads, he, ht⟩ := ih (hplain.observe _) hrest
      exact ⟨e, t, hround.trans hleads, he, ht⟩

/-- The place after all trivia, from where the blanks in front of it end. -/
def triviaEnd (c : Cursor) (s : Session σ) : Cursor × Session σ :=
  match c.comment? with
  | none => (c, s)
  | some d =>
    let (e, s) := skipTrivia d.1 (s.observeComment c d)
    (e.1, s)

theorem skipTrivia_eq (c : Cursor) (s : Session σ) :
    ((skipTrivia c s).1.1, (skipTrivia c s).2) = triviaEnd c.skipBlanks s := by
  rw [skipTrivia, triviaEnd]
  cases c.skipBlanks.comment? with
  | none => rfl
  | some d => rfl

/-- What stands in front of the first token is passed over. -/
theorem skipTrivia_gap (gap : Gap) {c : Cursor} {rest : List Char} {s : Session σ}
    (hplain : s.Plain) (hc : c.rest = gap.text ++ rest) (hrest : tokenMayStart rest = true) :
    (skipTrivia c s).1.1.rest = rest ∧ (skipTrivia c s).2.Plain := by
  induction gap generalizing c s with
  | nil =>
    have hhere : c.rest = rest := hc
    have hskip := Cursor.skipBlanks_eq (hhere ▸ head?_any_isBlank_of_tokenMayStart hrest)
    have hslash : c.rest.head? ≠ some '/' := by
      intro hslash
      simp [tokenMayStart, ← hhere, hslash, breakChars] at hrest
    have hend := skipTrivia_eq c s
    rw [hskip, triviaEnd, Cursor.comment?_eq_none hslash, Prod.mk.injEq] at hend
    rw [hend.1, hend.2]
    exact ⟨hhere, hplain⟩
  | cons filler gap ih =>
    have htext : c.rest = filler.text ++ (Gap.text gap ++ rest) := by simpa [Gap.text] using hc
    have hend := skipTrivia_eq c s
    rcases filler.taken htext with ⟨x, d, hx, hd, hleft⟩ | ⟨hblank, d, hd, hleft⟩
    · rw [Cursor.skipBlanks_of_blank hd hx, ← skipTrivia_eq d s, Prod.mk.injEq] at hend
      rw [hend.1, hend.2]
      exact ih hplain hleft
    · rw [Cursor.skipBlanks_eq hblank, triviaEnd, hd, Prod.mk.injEq] at hend
      rw [hend.1, hend.2]
      exact ih (hplain.observe _) hleft

end DataTemplate
