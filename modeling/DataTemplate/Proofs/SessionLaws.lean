/-
Laws between two moments of one reading.  A relation between places with sessions that every single
action respects holds between the start and the end of every rule.  Main statements:
`Session.Law.value`, and `readValue_grows`, which says that a reading only ever adds to its problems
and expressions.
-/
import DataTemplate.Proofs.Rounds

namespace DataTemplate

variable {σ : Type} {n : Nat}

/-! ### Going on after problems -/

/-- A problem was met, and the reading went on. -/
structure Session.Recovering (s : Session σ) : Prop where
  goes_on : s.haltOnProblem = false
  has_problem : s.problems ≠ #[]

theorem Session.commit_recovering {s : Session σ} {cause : Cause} {position : Nat}
    (hgo : (s.commit cause position).halted = false) : (s.commit cause position).Recovering := by
  unfold Session.commit at hgo ⊢
  split
  · rename_i hhalted
    simp [hhalted] at hgo
  · rename_i hhalted
    rw [if_neg hhalted] at hgo
    exact ⟨hgo, by simp [Session.push]⟩

/-! ### Laws -/

/-- A relation between an earlier and a later moment of a reading, each with the place reached, that
all actions respect which read on. -/
structure Session.LeafLaw (R : Cursor → Session σ → Cursor → Session σ → Prop) : Prop where
  move {c d : Cursor} (h : c ≤ d) (s : Session σ) : R c s d s
  trans {c d e : Cursor} {s t u : Session σ} : R c s d t → R d t e u → R c s e u
  observe (c : Cursor) (s : Session σ) (node : Node) : R c s c (s.observe node)
  commit (c : Cursor) (s : Session σ) (cause : Cause) (position : Nat) :
    R c s c (s.commit cause position)
  finish (s : Session σ) {c : Cursor} {e : Expression} {d : c.After}
    (hscan : Expression.scan c = some (e, d)) : R c s d.1 (s.finishExpression e).2

/-- The place after what a rule found, or the place where it found nothing. -/
def endOf {α : Type} (c : Cursor) : Option (α × c.After) → Cursor
  | some (_, d) => d.1
  | none => c

@[simp] theorem endOf_some {α : Type} {c : Cursor} (a : α) (d : c.After) :
    endOf c (some (a, d)) = d.1 := rfl

@[simp] theorem endOf_none {α : Type} (c : Cursor) : endOf c (none : Option (α × c.After)) = c := rfl

/-- A relation that all actions respect, also the one that goes back: a reading that goes on after a
problem tries a key, and gives it up if it passes the colon that was met. -/
structure Session.Law (R : Cursor → Session σ → Cursor → Session σ → Prop) : Prop
    extends Session.LeafLaw R where
  rollback {c : Cursor} {s : Session σ} {landing : Landing c} (hs : s.Recovering)
    (hland : nextDelimiter? [',', ':', '}'] c = some landing)
    (hdelimiter : landing.delimiter = ':') (hpasses : KeyPasses c landing.here s)
    (hkey : R c s (endOf c (readKey c s).1) (readKey c s).2) :
    R c s landing.after ((readKey c s).2.rollback s.checkpoint)

/-- Of two places after a third, the one at the smaller position comes first. -/
theorem Cursor.le_of_position_le {c d e : Cursor} (hd : c ≤ d) (he : c ≤ e)
    (hle : d.position ≤ e.position) : d ≤ e := by
  obtain ⟨xs, hxs⟩ := hd
  obtain ⟨ys, hys⟩ := he
  have hrest : xs ++ d.rest = ys ++ e.rest := hxs.rest_eq.symm.trans hys.rest_eq
  have hlength : byteLength xs ≤ byteLength ys := by
    rw [hxs.position_eq, hys.position_eq] at hle
    omega
  have hprefix : xs <+: ys := by
    rcases List.prefix_or_prefix_of_prefix (List.prefix_append xs d.rest)
      (hrest ▸ List.prefix_append ys e.rest) with h | ⟨more, rfl⟩
    · exact h
    · have hmore : more = [] := byteLength_eq_zero_iff.mp (by simp at hlength; omega)
      simp [hmore]
  obtain ⟨more, rfl⟩ := hprefix
  obtain ⟨middle, hmiddle, hmore⟩ := hys.split
  obtain rfl := hxs.unique hmiddle
  exact hmore.le

namespace Session.LeafLaw

variable {R : Cursor → Session σ → Cursor → Session σ → Prop} (law : Session.LeafLaw R)

include law

theorem refl (c : Cursor) (s : Session σ) : R c s c s := law.move c.le_refl s

theorem expression {c : Cursor} {s t : Session σ} {found : Option (Expression × c.After)}
    (h : readExpression c s = (found, t)) : R c s (endOf c found) t := by
  unfold readExpression at h
  split at h
  · obtain ⟨rfl, rfl⟩ := Prod.mk.inj h
    exact law.refl c s
  · obtain ⟨rfl, rfl⟩ := Prod.mk.inj h
    exact law.finish s ‹_›

theorem content (quote : Option Quote) (segment c : Cursor) (s : Session σ) :
    R c s (readContent quote segment c s).2.1.1 (readContent quote segment c s).2.2 := by
  fun_induction readContent quote segment c s with
  | case1 segment c s => exact law.trans (law.observe c _ _) (law.move c.le_toEnd _)
  | case2 segment c s hit hfind hneedle t hread hlt content d u hrest ih =>
    obtain ⟨-, rfl⟩ := readExpression_none hread
    rw [hrest] at ih
    exact law.trans (law.move (Cursor.le_of_lt hlt) _) ih
  | case3 segment c s hit hfind hneedle e after t hread hlt first content d u hrest ih =>
    rw [hrest] at ih
    have hfirst := law.trans (law.move hit.le_start s) (law.expression hread)
    exact law.trans hfirst (law.trans (law.observe _ _ _) ih)
  | case4 segment c s hit =>
    exact law.trans (law.observe c _ _) (law.move (Cursor.le_of_lt hit.lt_stop) _)

theorem finishText (e : Cursor) {quote : Option Quote} {c d : Cursor} {content : Content}
    {s t : Session σ} {text : Text}
    (h : DataTemplate.finishText quote c d content s = (text, t)) : R e s e t := by
  unfold DataTemplate.finishText at h
  obtain ⟨-, rfl⟩ := Prod.mk.inj h
  refine law.trans ?_ (law.observe e _ _)
  split
  · exact law.refl e s
  · exact law.commit e _ _ _

theorem text {c : Cursor} {s t : Session σ} {found : Option (Text × c.After)}
    (h : readText c s = (found, t)) : R c s (endOf c found) t := by
  have hread := readText_read c s
  rw [h] at hread
  cases hread with
  | @static _ _ d _ _ _ _ _ hfinish =>
    have hmove := law.move (Cursor.le_of_lt d.2) t
    exact law.trans (law.trans (law.observe c _ _) (law.finishText c hfinish)) hmove
  | @content quote inner content d text u _ _ hinner hcontent hfinish =>
    have hfirst := law.content (some quote) inner inner s
    rw [hcontent] at hfirst
    exact law.trans (law.trans (law.move hinner.le s) hfirst) (law.finishText d.1 hfinish)
  | none => exact law.refl c s

theorem key {c : Cursor} {s t : Session σ} {found : Option (Key × c.After)}
    (h : readKey c s = (found, t)) : R c s (endOf c found) t := by
  have hread := readKey_read c s
  rw [h] at hread
  cases hread with
  | text h => exact law.text h
  | expression _ h => exact law.expression h
  | @identifier _ d => exact law.trans (law.observe c _ _) (law.move (Cursor.le_of_lt d.2) _)
  | none => exact law.refl c s

theorem commitUnclosed (c : Cursor) (s : Session σ) (closed : Bool) (cause : Cause)
    (position : Nat) : R c s c (s.commitUnclosed closed cause position) := by
  unfold Session.commitUnclosed
  split
  · exact law.refl c s
  · exact law.commit c _ _ _

theorem flush (c : Cursor) (draft : PropertyDraft) (s : Session σ) :
    R c s c (draft.flush s).2 := by
  unfold PropertyDraft.flush
  split
  · exact law.refl c s
  · exact law.observe c _ _

theorem begin (c : Cursor) (draft : PropertyDraft) (key : Key) (s : Session σ) :
    R c s c (draft.begin key s).2 := law.flush c draft s

theorem trivia (c : Cursor) (s : Session σ) :
    R c s (skipTrivia c s).1.1 (skipTrivia c s).2 := by
  fun_induction skipTrivia c s with
  | case1 c s => exact law.move c.le_skipBlanks s
  | case2 c s d hd hlt e t hrest ih =>
    rw [hrest] at ih
    have hcomment := law.trans (law.observe c s (.comment ⟨c.skipBlanks.position, d.1.position⟩))
      (law.move (Cursor.le_of_lt hlt) _)
    exact law.trans hcomment ih

end Session.LeafLaw

namespace Session.Law

variable {R : Cursor → Session σ → Cursor → Session σ → Prop} (law : Session.Law R)

include law

/-- A law holds along the recovery from a problem in an object. -/
theorem recovery {c : Cursor} {draft : PropertyDraft} {s : Session σ}
    {round : Round σ PropertyDraft c} (hs : s.Recovering) (h : PropertyRecovery c draft s round) :
    R c s round.outcome.1 round.session := by
  cases h with
  | @lost d => exact law.move (Cursor.le_of_lt d.2) s
  | closed _ _ hle => exact law.move hle s
  | comma _ _ hlt => exact law.move (Cursor.le_of_lt hlt) s
  | @key landing key d t _ _ _ hkey hd =>
    have hle := Cursor.le_of_position_le (Cursor.le_of_lt d.2) landing.reach hd
    have hafter := Cursor.le_trans hle (Cursor.le_of_lt landing.here_lt_after)
    exact law.trans (law.trans (law.key hkey) (law.begin d.1 draft key t)) (law.move hafter _)
  | @detach landing tried hland hdelimiter _ htried hpasses =>
    subst htried
    rw [PropertyDraft.delimiters_of_colon hland hdelimiter] at hland
    exact law.trans (law.rollback hs hland hdelimiter hpasses (law.key rfl)) (law.flush _ _ _)

/-- A law holds along rounds, if it holds of every step. -/
theorem rounds {δ : Type} {step : RoundStep σ δ n}
    (hstep : ∀ ⦃c⦄ (hc : c.rest.length < n) (draft s),
      R c s (step c hc draft s).outcome.1 (step c hc draft s).session)
    {c : Cursor} (hc : c.rest.length < n) (draft : δ) (s : Session σ) :
    R c s (DataTemplate.rounds step c hc draft s).1.1
      (DataTemplate.rounds step c hc draft s).2.2.2 := by
  refine rounds_invariant step (fun d _ t => R c s d t) ?_ ?_ hc draft s (law.refl c s)
  · intro d draft t ht
    exact law.trans ht (law.move d.le_skipBlanks t)
  · intro d hd draft t ht
    exact law.trans ht (hstep hd draft t)

section Rounds

variable {rule : ValueRule σ n}
  (hrule : ∀ ⦃c hc s found t⦄, rule c hc s = (found, t) → R c s (endOf c found) t)

include hrule

theorem slotRound {c : Cursor} {hc : c.rest.length < n} {draft : SlotDraft} {s : Session σ}
    {round : Round σ SlotDraft c} (hround : SlotRound rule c hc draft s round) :
    R c s round.outcome.1 round.session := by
  have hle := round.le_outcome
  cases hround with
  | ended | closed | comma => exact law.move hle s
  | comment => exact law.trans (law.observe c _ _) (law.move hle _)
  | value _ _ hvalue => exact hrule hvalue
  | halt | recover => exact law.trans (law.commit c _ _ _) (law.move hle _)

/-- A law holds along the rounds of an array, if it holds of the rule for its values. -/
theorem slots (hquiet : rule.Quiet) {c : Cursor} (hc : c.rest.length < n) (draft : SlotDraft)
    (s : Session σ) :
    R c s (readSlots rule c hc draft s).1.1 (readSlots rule c hc draft s).2.2.2 := by
  rw [readSlots_eq_rounds]
  refine law.rounds ?_ hc draft s
  intro c hc draft s
  exact law.slotRound hrule (slotStep_round hquiet c hc draft s)

theorem propertyRound {c : Cursor} {hc : c.rest.length < n} {draft : PropertyDraft}
    {s : Session σ} {round : Round σ PropertyDraft c}
    (hround : PropertyRound rule c hc draft s round) : R c s round.outcome.1 round.session := by
  have hle := round.le_outcome
  cases hround with
  | ended | closed | colon | comma => exact law.move hle s
  | comment => exact law.trans (law.observe c _ _) (law.move hle _)
  | @key key d t _ hkey => exact law.trans (law.key hkey) (law.begin d.1 draft key t)
  | value _ _ hvalue => exact hrule hvalue
  | halt => exact law.commit c _ _ _
  | recover _ hgo hround =>
    exact law.trans (law.commit c _ _ _) (law.recovery (commit_recovering hgo) hround)

/-- A law holds along the rounds of an object, if it holds of the rule for its values. -/
theorem properties (hquiet : rule.Quiet) {c : Cursor} (hc : c.rest.length < n)
    (draft : PropertyDraft) (s : Session σ) :
    R c s (readProperties rule c hc draft s).1.1 (readProperties rule c hc draft s).2.2.2 := by
  rw [readProperties_eq_rounds]
  refine law.rounds ?_ hc draft s
  intro c hc draft s
  exact law.propertyRound hrule (propertyStep_round hquiet c hc draft s)

end Rounds

/-- A law holds along the reading of a value. -/
theorem value {c : Cursor} {s t : Session σ} {found : Option (Value × c.After)}
    (h : readValue c s = (found, t)) : R c s (endOf c found) t := by
  have hread := readValue_read c s
  rw [h] at hread
  cases hread with
  | text h => exact law.text h
  | expression _ h => exact law.expression h
  | @array inner hlt d draft closed t _ hinner hslots hvalue hd =>
    have hloop := law.slots (fun _ _ _ _ _ h => value h) readValue_quiet hlt {} s
    rw [hslots] at hloop
    refine law.trans (law.trans (law.move hinner.le s) hloop) ?_
    exact law.trans (law.commitUnclosed _ _ _ _ _) (law.observe _ _ _)
  | @object inner hlt d draft closed t u _ hinner hbrace hproperties hu hvalue hd =>
    have hloop := law.properties (fun _ _ _ _ _ h => value h) readValue_quiet hlt {} s
    rw [hproperties] at hloop
    have hunclosed : R d.1 t d.1 u := hu ▸ law.commitUnclosed d.1 t closed _ _
    refine law.trans (law.trans (law.move hinner.le s) hloop) (law.trans hunclosed ?_)
    exact law.trans (law.flush _ _ _) (law.observe _ _ _)
  | @scalar _ d => exact law.trans (law.observe c _ _) (law.move (Cursor.le_of_lt d.2) _)
  | none => exact law.refl c s
termination_by c.rest.length

end Session.Law

/-! ### Growth -/

theorem take_size_of_prefix {α : Type} {xs ys : Array α} (h : xs.toList <+: ys.toList) :
    ys.take xs.size = xs := by
  apply Array.toList_inj.mp
  rw [Array.take_eq_extract, Array.toList_extract, List.extract_eq_take_drop]
  simpa using (List.prefix_iff_eq_take.mp h).symm

/-- What `s` holds is still there in `t`, in front of what was added. -/
structure Session.Extends (s t : Session σ) : Prop where
  hooks_eq : t.hooks = s.hooks
  haltOnProblem_eq : t.haltOnProblem = s.haltOnProblem
  handled_eq : t.handled = s.handled
  problems : s.problems.toList <+: t.problems.toList
  expressions : s.expressions.toList <+: t.expressions.toList

/-- Going back to a checkpoint leaves what was there when it was taken; only the host keeps what it
has made of it since. -/
theorem Session.Extends.rollback_eq {s t : Session σ} (h : s.Extends t) :
    t.rollback s.checkpoint = { s with state := t.state } := by
  have hexpressions := take_size_of_prefix h.expressions
  have hproblems := take_size_of_prefix h.problems
  rw [Session.rollback, Session.checkpoint]
  dsimp only
  rw [hexpressions, hproblems, h.hooks_eq, h.haltOnProblem_eq, h.handled_eq]

/-- `t` is a later moment than `s`: all that `s` holds is still there, in front, and nothing but a
problem halts. -/
structure Session.Grows (s t : Session σ) : Prop where
  hooks_eq : t.hooks = s.hooks
  haltOnProblem_eq : t.haltOnProblem = s.haltOnProblem
  handled_eq : t.handled = s.handled
  problems : s.problems.toList <+: t.problems.toList
  expressions : s.expressions.toList <+: t.expressions.toList
  halted : s.halted = true → t.halted = true ∧ t.problems = s.problems
  going : t.halted = true → s.halted = true ∨ s.haltOnProblem = true
  steady : t.problems = s.problems → t.halted = s.halted

namespace Session.Grows

theorem refl (s : Session σ) : s.Grows s :=
  ⟨rfl, rfl, rfl, List.prefix_refl _, List.prefix_refl _, fun h => ⟨h, rfl⟩, .inl, fun _ => rfl⟩

theorem trans {s t u : Session σ} (h : s.Grows t) (k : t.Grows u) : s.Grows u where
  hooks_eq := k.hooks_eq.trans h.hooks_eq
  haltOnProblem_eq := k.haltOnProblem_eq.trans h.haltOnProblem_eq
  handled_eq := k.handled_eq.trans h.handled_eq
  problems := h.problems.trans k.problems
  expressions := h.expressions.trans k.expressions
  halted hs := by
    obtain ⟨ht, hproblems⟩ := h.halted hs
    exact ⟨(k.halted ht).1, (k.halted ht).2.trans hproblems⟩
  going hu := by
    rcases k.going hu with ht | ht
    · exact h.going ht
    · exact .inr (h.haltOnProblem_eq ▸ ht)
  steady hproblems := by
    have hsame : t.problems = s.problems := by
      apply Array.toList_inj.mp
      exact (k.problems.eq_of_length_le (hproblems ▸ h.problems.length_le)).trans
        (congrArg Array.toList hproblems)
    exact (k.steady (hproblems.trans hsame.symm)).trans (h.steady hsame)

theorem observe (s : Session σ) (node : Node) : s.Grows (s.observe node) :=
  ⟨rfl, rfl, rfl, List.prefix_refl _, List.prefix_refl _, fun h => ⟨h, rfl⟩, .inl, fun _ => rfl⟩

theorem commit (s : Session σ) (cause : Cause) (position : Nat) :
    s.Grows (s.commit cause position) := by
  unfold Session.commit
  split
  · exact refl s
  · rename_i hgo
    refine ⟨rfl, rfl, rfl, ?_, List.prefix_refl _, fun h => absurd h hgo, .inr, ?_⟩
    · simp [Session.push]
    · intro hsame
      simp [Session.push] at hsame

theorem record (s : Session σ) (e : Expression) : s.Grows (s.record e) :=
  ⟨rfl, rfl, rfl, List.prefix_refl _, by simp [Session.record], fun h => ⟨h, rfl⟩, .inl, fun _ => rfl⟩

theorem ask (s : Session σ) (e : Expression) : s.Grows (s.ask e).2 :=
  ⟨rfl, rfl, rfl, List.prefix_refl _, List.prefix_refl _, fun h => ⟨h, rfl⟩, .inl, fun _ => rfl⟩

theorem finishExpression (s : Session σ) (e : Expression) : s.Grows (s.finishExpression e).2 := by
  unfold Session.finishExpression
  split
  · exact record s _
  · exact (ask s e).trans ((record _ _).trans (observe _ _))

theorem toExtends {s t : Session σ} (h : s.Grows t) : s.Extends t :=
  ⟨h.hooks_eq, h.haltOnProblem_eq, h.handled_eq, h.problems, h.expressions⟩

theorem rollback_eq {s t : Session σ} (h : s.Grows t) :
    t.rollback s.checkpoint = { s with state := t.state } := h.toExtends.rollback_eq

theorem rollback {s t : Session σ} (h : s.Grows t) : s.Grows (t.rollback s.checkpoint) := by
  rw [h.rollback_eq]
  exact ⟨rfl, rfl, rfl, List.prefix_refl _, List.prefix_refl _, fun h => ⟨h, rfl⟩, .inl,
    fun _ => rfl⟩

theorem law : Session.Law (fun _ s _ t => Session.Grows (σ := σ) s t) where
  move _ := refl
  trans := trans
  observe _ := observe
  commit _ := commit
  finish s _ _ _ _ := finishExpression s _
  rollback _ _ _ _ h := rollback h

end Session.Grows

theorem Session.Recovering.of_grows {s t : Session σ} (h : s.Recovering) (hgrows : s.Grows t) :
    t.Recovering where
  goes_on := hgrows.haltOnProblem_eq.trans h.goes_on
  has_problem := by
    intro hnone
    have hprefix := hgrows.problems
    rw [hnone] at hprefix
    exact h.has_problem (Array.toList_eq_nil_iff.mp (List.prefix_nil.mp hprefix))

/-! ### Sessions without problems -/

/-- No problem was met, and nothing has halted the reading. -/
structure Session.Unbroken (s : Session σ) : Prop where
  none_met : s.problems = #[]
  going : s.halted = false

namespace Session.Unbroken

variable {s t : Session σ}

/-- A reading that ends without problems had none before. -/
theorem of_grows (h : t.Unbroken) (hgrows : s.Grows t) : s.Unbroken where
  none_met := by
    have hprefix := hgrows.problems
    rw [h.none_met] at hprefix
    simpa using hprefix
  going := by
    cases hs : s.halted with
    | false => rfl
    | true => exact absurd (hgrows.halted hs).1 (by simp [h.going])

/-- A reading that adds no problem goes on. -/
theorem of_problems (h : s.Unbroken) (hgrows : s.Grows t) (hproblems : t.problems = #[]) :
    t.Unbroken :=
  ⟨hproblems, (hgrows.steady (hproblems.trans h.none_met.symm)).trans h.going⟩

theorem not_commit (s : Session σ) (cause : Cause) (position : Nat) :
    ¬ (s.commit cause position).Unbroken := by
  rintro ⟨hnone, hgoing⟩
  unfold Session.commit at hnone hgoing
  split at hgoing
  · simp_all
  · simp_all [Session.push]

/-- Without a problem the closing bracket was met. -/
theorem of_commitUnclosed {closed : Bool} {cause : Cause} {position : Nat}
    (h : (s.commitUnclosed closed cause position).Unbroken) : s.Unbroken ∧ closed = true := by
  unfold Session.commitUnclosed at h
  split at h
  · rename_i hends
    exact ⟨h, by simpa [h.going] using hends⟩
  · exact absurd h (not_commit s cause position)

end Session.Unbroken

/-- A rule only ever adds to what a session holds. -/
def ValueRule.Grows (rule : ValueRule σ n) : Prop :=
  ∀ ⦃c hc s found t⦄, rule c hc s = (found, t) → s.Grows t

theorem readValue_grows {c : Cursor} {s t : Session σ} {found : Option (Value × c.After)}
    (h : readValue c s = (found, t)) : s.Grows t :=
  Session.Grows.law.value h

theorem SlotRound.grows {c : Cursor} {hc : c.rest.length < n} {draft : SlotDraft}
    {s : Session σ} {round : Round σ SlotDraft c}
    (h : SlotRound (fun d _ s => readValue d s) c hc draft s round) : s.Grows round.session :=
  Session.Grows.law.slotRound (fun _ _ _ _ _ h => readValue_grows h) h

theorem PropertyRound.grows {c : Cursor} {hc : c.rest.length < n} {draft : PropertyDraft}
    {s : Session σ} {round : Round σ PropertyDraft c}
    (h : PropertyRound (fun d _ s => readValue d s) c hc draft s round) : s.Grows round.session :=
  Session.Grows.law.propertyRound (fun _ _ _ _ _ h => readValue_grows h) h

theorem PropertyRecovery.grows {c : Cursor} {draft : PropertyDraft} {s : Session σ}
    {round : Round σ PropertyDraft c} (hs : s.Recovering) (h : PropertyRecovery c draft s round) :
    s.Grows round.session := Session.Grows.law.recovery hs h

end DataTemplate
