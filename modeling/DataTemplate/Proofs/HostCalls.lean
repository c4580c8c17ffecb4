/-
What a host is asked.  A host that logs its answers shows how often a reading calls it, and with what.
A reading asks about an expression where it stands, and goes on behind it; only an attempt at a key
that is given up makes it scan a text, and ask, again.  Main statement: `readDocument_asks`.
-/
import DataTemplate.Proofs.Policies
import DataTemplate.Proofs.Spans

namespace DataTemplate

variable {σ : Type}

/-! ### A host that logs -/

/-- A question to the host and its answer. -/
structure Call where
  asked : Expression
  answer : Revision
deriving DecidableEq, Repr

/-- Where the expression of a call stands. -/
def Call.bodySpan (call : Call) : Span := call.asked.bodySpan

/-- A host that answers as before, and logs each call. -/
def Hooks.logging (hooks : Hooks σ) : Hooks (σ × List Call) where
  revise state e :=
    let (answer, next) := hooks.revise state.1 e
    (answer, next, state.2 ++ [⟨e, answer⟩])
  observe state node := (hooks.observe state.1 node, state.2)

/-- The last answer about the expression at a span. -/
def lastAnswer (calls : List Call) (span : Span) : Option Revision :=
  (calls.reverse.find? fun call => call.bodySpan == span).map Call.answer

theorem lastAnswer_append_of_some {calls : List Call} {span : Span} {answer : Revision}
    (h : lastAnswer calls span = some answer) (earlier : List Call) :
    lastAnswer (earlier ++ calls) span = some answer := by
  obtain ⟨call, hcall, rfl⟩ := Option.map_eq_some_iff.mp h
  rw [lastAnswer, List.reverse_append, List.find?_append, hcall]
  rfl

theorem lastAnswer_append_of_forall {later : List Call} {span : Span}
    (h : ∀ call ∈ later, call.bodySpan ≠ span) (calls : List Call) :
    lastAnswer (calls ++ later) span = lastAnswer calls span := by
  have hnone : later.reverse.find? (fun call => call.bodySpan == span) = none := by
    simpa using h
  rw [lastAnswer, List.reverse_append, List.find?_append, hnone, Option.none_or, lastAnswer]

/-! ### What a reading asks -/

/-- The expression of an earlier scan at a span. -/
def Session.earlier? (s : Session σ) (span : Span) : Option Expression :=
  s.handled.find? fun earlier => earlier.bodySpan == span

theorem Session.earlier?_of_grows {s t : Session σ} (h : s.Grows t) : t.earlier? = s.earlier? := by
  funext span
  rw [earlier?, h.handled_eq, earlier?]

/-- An expression carries what the host made of it: in an earlier scan of the same text, or else when
it was last asked. -/
inductive Session.Answered (s : Session σ) (calls : List Call) (e : Expression) : Prop
  | earlier {earlier : Expression} (hfound : s.earlier? e.bodySpan = some earlier)
      (htext : e.text = earlier.text) (htype : e.valueType = earlier.valueType)
  | last (hnone : s.earlier? e.bodySpan = none)
      (hlast : lastAnswer calls e.bodySpan = some ⟨e.text, e.valueType⟩)

/-- From `c` to `d` the host was `asked`, and expressions were `added` in a row.  It is asked only
about what stands behind `c`, and nothing that an earlier scan has met; and unless the reading went
on after a problem, only about what is added. -/
structure Session.Asks (c : Cursor) (s : Session (σ × List Call)) (d : Cursor)
    (t : Session (σ × List Call)) (asked : List Call) (added : List Expression) : Prop where
  calls : t.state.2 = s.state.2 ++ asked
  expressions : t.expressions.toList = s.expressions.toList ++ added
  row : Span.Row c.position d.position (added.map Expression.span)
  braced : ∀ e ∈ added, e.span.start < e.bodySpan.start
  behind : ∀ call ∈ asked, c.position < call.bodySpan.start
  fresh : ∀ call ∈ asked, s.earlier? call.bodySpan = none
  answered : ∀ e ∈ added, s.Answered asked e
  direct : ¬ t.Recovering → (asked.map Call.bodySpan).Sublist (added.map Expression.bodySpan)

/-- What stands in a span is not asked about behind it. -/
theorem bodySpan_ne_of_behind {e : Expression} {call : Call} {position : Nat}
    (he : e.span.stop ≤ position) (hcall : position < call.bodySpan.start) :
    call.bodySpan ≠ e.bodySpan := by
  intro heq
  have hstart : call.bodySpan.start = e.start + e.braces := by rw [heq]; rfl
  have hstop : e.span.stop = e.start + e.braces + e.raw.utf8ByteSize + e.braces := rfl
  omega

namespace Session.Asks

variable {c d e : Cursor} {s t u : Session (σ × List Call)} {asked others : List Call}
  {added more : List Expression}

/-- A step that asks nothing and adds nothing. -/
theorem quiet (hle : c ≤ d) (hcalls : t.state.2 = s.state.2) (hsame : t.expressions = s.expressions) :
    Session.Asks c s d t [] [] where
  calls := by simp [hcalls]
  expressions := by simp [hsame]
  row := Cursor.position_le_of_le hle
  braced := by simp
  behind := by simp
  fresh := by simp
  answered := by simp
  direct := by simp

theorem trans (hcd : c ≤ d) (hst : s.Grows t) (htu : t.Grows u) (h : Session.Asks c s d t asked added)
    (k : Session.Asks d t e u others more) :
    Session.Asks c s e u (asked ++ others) (added ++ more) where
  calls := by rw [k.calls, h.calls, List.append_assoc]
  expressions := by rw [k.expressions, h.expressions, List.append_assoc]
  row := by
    rw [List.map_append, Span.Row.append_iff]
    exact ⟨d.position, h.row, k.row⟩
  braced := List.forall_mem_append.mpr ⟨h.braced, k.braced⟩
  behind := by
    have hle := Cursor.position_le_of_le hcd
    refine List.forall_mem_append.mpr ⟨h.behind, fun call hcall => ?_⟩
    exact Nat.lt_of_le_of_lt hle (k.behind call hcall)
  fresh := by
    have hsame : t.earlier? = s.earlier? := earlier?_of_grows hst
    exact List.forall_mem_append.mpr ⟨h.fresh, hsame ▸ k.fresh⟩
  answered := by
    refine List.forall_mem_append.mpr ⟨fun e he => ?_, fun e he => ?_⟩
    · cases h.answered e he with
      | earlier hfound htext htype => exact .earlier hfound htext htype
      | last hnone hlast =>
        refine .last hnone ?_
        have hbounds := (h.row.bounds (List.mem_map_of_mem he)).2
        rwa [lastAnswer_append_of_forall]
        exact fun call hcall => bodySpan_ne_of_behind hbounds (k.behind call hcall)
    · have hsame : t.earlier? = s.earlier? := earlier?_of_grows hst
      cases k.answered e he with
      | earlier hfound htext htype => exact .earlier (hsame ▸ hfound) htext htype
      | last hnone hlast => exact .last (hsame ▸ hnone) (lastAnswer_append_of_some hlast asked)
  direct hu := by
    rw [List.map_append, List.map_append]
    exact (h.direct fun ht => hu (ht.of_grows htu)).append (k.direct hu)

/-- Being told of a node asks nothing. -/
theorem observe {hooks : Hooks σ} (hs : s.hooks = hooks.logging) (c : Cursor) (node : Node) :
    Session.Asks c s c (s.observe node) [] [] := by
  refine .quiet c.le_refl ?_ rfl
  simp [Session.observe, hs, Hooks.logging]

/-- A problem asks nothing. -/
theorem commit (c : Cursor) (s : Session (σ × List Call)) (cause : Cause) (position : Nat) :
    Session.Asks c s c (s.commit cause position) [] [] := by
  refine .quiet c.le_refl ?_ ?_
  · unfold Session.commit
    split <;> rfl
  · unfold Session.commit
    split <;> rfl

/-- One expression is added where it stands, and the host is asked about nothing else. -/
theorem single {scanned : Expression} {after : c.After}
    (hscan : Expression.scan c = some (scanned, after)) {revision : Revision}
    (hcalls : t.state.2 = s.state.2 ++ asked)
    (hexpressions : t.expressions = s.expressions.push (scanned.revise revision))
    (hasked : (asked.map Call.bodySpan).Sublist [scanned.bodySpan])
    (hfresh : ∀ call ∈ asked, s.earlier? call.bodySpan = none)
    (hanswered : s.Answered asked (scanned.revise revision)) :
    Session.Asks c s after.1 t asked [scanned.revise revision] := by
  have hspan := Expression.scan_span hscan
  obtain ⟨-, -, -, -, -, hstart, htwo, -, -⟩ := Expression.scan_some hscan
  have hbehind : c.position < scanned.bodySpan.start := by
    simp only [Expression.bodySpan]
    omega
  have hbraced : (scanned.revise revision).span.start <
      (scanned.revise revision).bodySpan.start := by
    rwa [← hstart] at hbehind
  have hle := Cursor.position_le_of_le (Cursor.le_of_lt after.2)
  refine ⟨hcalls, by simp [hexpressions], ?_, by simpa using hbraced, ?_, hfresh,
    by simpa using hanswered, fun _ => hasked⟩
  · simp only [List.map_cons, List.map_nil, Expression.span_revise, hspan]
    exact ⟨Nat.le_refl _, hle, Nat.le_refl _⟩
  · intro call hcall
    have hhere := List.mem_singleton.mp (hasked.subset (List.mem_map_of_mem hcall))
    rwa [hhere]

/-- An expression is added where it stands; the host is asked unless it was before. -/
theorem finish {hooks : Hooks σ} (hs : s.hooks = hooks.logging) {scanned : Expression}
    {after : c.After} (hscan : Expression.scan c = some (scanned, after)) :
    ∃ asked added, Session.Asks c s after.1 (s.finishExpression scanned).2 asked added ∧
      asked.map Call.bodySpan =
        (added.map Expression.bodySpan).filter fun span => (s.earlier? span).isNone := by
  have hspan (revision : Revision) : (scanned.revise revision).bodySpan = scanned.bodySpan := rfl
  unfold Session.finishExpression
  cases hearlier : s.handled.find? fun earlier => earlier.bodySpan == scanned.bodySpan with
  | some earlier =>
    have hfound : s.earlier? scanned.bodySpan = some earlier := hearlier
    refine ⟨[], _, single hscan (by simp [Session.record]) rfl (List.nil_sublist _) (by simp)
      (.earlier hfound rfl rfl), ?_⟩
    simp [hspan, hfound]
  | none =>
    have hnone : s.earlier? scanned.bodySpan = none := hearlier
    have hrevise : s.hooks.revise s.state scanned = ((hooks.revise s.state.1 scanned).1,
        (hooks.revise s.state.1 scanned).2,
        s.state.2 ++ [⟨scanned, (hooks.revise s.state.1 scanned).1⟩]) := by
      rw [hs]
      rfl
    have hobserve (state : σ × List Call) (node : Node) :
        (s.hooks.observe state node).2 = state.2 := by
      rw [hs]
      rfl
    refine ⟨[⟨scanned, (hooks.revise s.state.1 scanned).1⟩],
      [scanned.revise (hooks.revise s.state.1 scanned).1],
      single hscan ?_ ?_ (List.Sublist.refl _) ?_ (.last hnone ?_), ?_⟩
    · simp [Session.ask, Session.record, Session.observe, hobserve, hrevise]
    · simp [Session.ask, Session.record, Session.observe, hrevise]
    · simpa [Call.bodySpan] using hnone
    · simp [lastAnswer, Call.bodySpan, Expression.bodySpan, Expression.revise]
    · simp [Call.bodySpan, hspan, hnone]

/-- What was added since a checkpoint is forgotten, but not what the host was asked. -/
theorem rollback (hs : s.Recovering) (hgrows : s.Grows t) (h : Session.Asks c s d t asked added)
    (hle : c ≤ e) : Session.Asks c s e (t.rollback s.checkpoint) asked [] := by
  rw [hgrows.rollback_eq]
  refine ⟨h.calls, by simp, Cursor.position_le_of_le hle, by simp, h.behind, h.fresh, by simp, ?_⟩
  intro hquiet
  exact absurd ⟨hs.goes_on, hs.has_problem⟩ hquiet

end Session.Asks

/-! ### One reading and two -/

section Readings

variable {c d e f : Cursor} {s t u v : Session (σ × List Call)} {asked others : List Call}
  {added more : List Expression}

/-- Expressions that stand in a row are all at different places. -/
theorem Session.Asks.nodup_added (h : Session.Asks c s d t asked added) :
    (added.map Expression.bodySpan).Nodup := by
  have hrow := List.pairwise_map.mp h.row.pairwise
  apply List.pairwise_map.mpr
  refine hrow.imp_of_mem ?_
  intro a b ha hb hab heq
  have hbraced := h.braced b hb
  have hstart : b.bodySpan.start = a.start + a.braces := by rw [← heq]; rfl
  have hstop : a.span.stop = a.start + a.braces + a.raw.utf8ByteSize + a.braces := rfl
  omega

/-- A reading that does not go on after a problem asks about no place twice. -/
theorem Session.Asks.nodup (h : Session.Asks c s d t asked added) (hquiet : ¬ t.Recovering) :
    (asked.map Call.bodySpan).Nodup := h.nodup_added.sublist (h.direct hquiet)

/-- In the first reading of a text every expression carries the last answer about it. -/
theorem Session.Asks.last (h : Session.Asks c s d t asked added) (hs : s.handled = #[])
    {x : Expression} (hx : x ∈ added) :
    lastAnswer asked x.bodySpan = some ⟨x.text, x.valueType⟩ := by
  cases h.answered x hx with
  | earlier hfound => simp [Session.earlier?, hs] at hfound
  | last _ hlast => exact hlast

variable (k : Session.Asks e u f v others more) (hu : u.handled.toList = added)

include k hu

/-- A second reading asks about nothing that the first one has added. -/
theorem bodySpan_ne_of_reread {x : Expression} (hx : x ∈ added) {call : Call}
    (hcall : call ∈ others) : call.bodySpan ≠ x.bodySpan := by
  intro heq
  have hnone := k.fresh call hcall
  rw [Session.earlier?, Array.find?_eq_none] at hnone
  have hmem : x ∈ u.handled := by
    rw [← hu] at hx
    exact Array.mem_toList_iff.mp hx
  exact hnone x hmem (by simp [heq])

/-- After a second reading every expression carries the last answer about it, which may have been
given in the first. -/
theorem lastAnswer_of_reread (h : Session.Asks c s d t asked added) (hs : s.handled = #[])
    {x : Expression} (hx : x ∈ more) :
    lastAnswer (asked ++ others) x.bodySpan = some ⟨x.text, x.valueType⟩ := by
  cases k.answered x hx with
  | last _ hlast => exact lastAnswer_append_of_some hlast asked
  | @earlier first hfound htext htype =>
    have hmem : first ∈ added := by
      rw [← hu]
      exact Array.mem_toList_iff.mpr (Array.mem_of_find?_eq_some hfound)
    have hspan : first.bodySpan = x.bodySpan := by
      simpa using Array.find?_some hfound
    rw [← hspan, lastAnswer_append_of_forall
      (fun call hcall => bodySpan_ne_of_reread k hu hmem hcall), h.last hs hmem, htext, htype]

/-- Two readings that do not go on after a problem ask about no place twice. -/
theorem nodup_of_reread (h : Session.Asks c s d t asked added) (ht : ¬ t.Recovering) (hv : ¬ v.Recovering) :
    ((asked ++ others).map Call.bodySpan).Nodup := by
  rw [List.map_append]
  refine List.nodup_append.mpr ⟨h.nodup ht, k.nodup hv, ?_⟩
  rintro first hfirst second hsecond rfl
  obtain ⟨x, hx, hspan⟩ := List.mem_map.mp ((h.direct ht).subset hfirst)
  obtain ⟨call, hcall, hcallspan⟩ := List.mem_map.mp hsecond
  exact bodySpan_ne_of_reread k hu hx hcall (hcallspan.trans hspan.symm)

end Readings

/-- With a host that logs, a reading asks about what stands where it reads. -/
def Session.AsksBetween (hooks : Hooks σ) (c : Cursor) (s : Session (σ × List Call)) (d : Cursor)
    (t : Session (σ × List Call)) : Prop :=
  s.hooks = hooks.logging →
    c ≤ d ∧ s.Grows t ∧ ∃ asked added, Session.Asks c s d t asked added

theorem Session.asksBetween_law (hooks : Hooks σ) : Session.Law (Session.AsksBetween hooks) where
  move h s _ := ⟨h, .refl s, [], [], .quiet h rfl rfl⟩
  trans {c d e s t u} h k hs := by
    obtain ⟨hcd, hst, asked, added, hfirst⟩ := h hs
    obtain ⟨hde, htu, others, more, hsecond⟩ := k (hst.hooks_eq.trans hs)
    exact ⟨Cursor.le_trans hcd hde, hst.trans htu, _, _, hfirst.trans hcd hst htu hsecond⟩
  observe c s node hs := ⟨c.le_refl, .observe s node, [], [], .observe hs c node⟩
  commit c s cause position _ :=
    ⟨c.le_refl, .commit s cause position, [], [], .commit c s cause position⟩
  finish s c e d hscan hs := by
    obtain ⟨asked, added, hasks, -⟩ := Asks.finish hs hscan
    exact ⟨Cursor.le_of_lt d.2, .finishExpression s e, asked, added, hasks⟩
  rollback {c s landing} hrecovering _ _ _ h hs := by
    obtain ⟨-, hgrows, asked, added, hasks⟩ := h hs
    have hle := Cursor.le_of_lt landing.lt_after
    exact ⟨hle, hgrows.rollback, asked, [], hasks.rollback hrecovering hgrows hle⟩

/-! ### Documents -/

section Documents

variable (options : ReadOptions) (hooks : Hooks σ) (state : σ) (source : List Char)

/-- What the first reading asks. -/
theorem notedSession_asks : ∃ d t asked added,
    Session.Asks (.ofText source) (Session.start hooks.logging (state, []) options.onError.halts) d t
      asked added ∧
    (Session.start hooks.logging (state, []) options.onError.halts).Grows t ∧
    (∃ problems, notedSession options hooks.logging (state, []) source =
      { t with problems := problems }) ∧
    (t.Recovering → options.onError = .recover ∧
      rereads options hooks.logging (state, []) source = false ∧
      (notedSession options hooks.logging (state, []) source).problems ≠ #[]) := by
  obtain ⟨d, t, hlaw, hrest⟩ := notedSession_follows options hooks.logging (state, []) source
    (Session.asksBetween_law hooks)
  obtain ⟨-, -, asked, added, hasks⟩ := hlaw rfl
  exact ⟨d, t, asked, added, hasks, hrest⟩

/-- What the second reading asks. -/
theorem rereadText_asks {s : Session (σ × List Call)} (c : Cursor) (hs : s.hooks = hooks.logging) :
    ∃ d asked added, Session.Asks c s d (readTextContent none c c s).2.2 asked added := by
  have law := Session.asksBetween_law hooks
  obtain ⟨-, -, asked, added, hasks⟩ :=
    law.trans (law.content none c c s) (law.finishText _ rfl) hs
  exact ⟨_, asked, added, hasks⟩

/-- Every expression of a session carries the last answer about its place. -/
def Session.Told (s : Session (σ × List Call)) : Prop :=
  ∀ e ∈ s.expressions.toList, lastAnswer s.state.2 e.bodySpan = some ⟨e.text, e.valueType⟩

/-- No place was asked about twice. -/
def Session.AskedOnce (s : Session (σ × List Call)) : Prop := (s.state.2.map Call.bodySpan).Nodup

theorem notedSession_told :
    (notedSession options hooks.logging (state, []) source).Told ∧
      ((options.onError = .recover →
        (notedSession options hooks.logging (state, []) source).problems = #[]) →
        (notedSession options hooks.logging (state, []) source).AskedOnce) := by
  obtain ⟨d, t, asked, added, hasks, hgrows, ⟨problems, hnoted⟩, hrecovers⟩ :=
    notedSession_asks options hooks state source
  have hcalls : t.state.2 = asked := hasks.calls
  have hadded : t.expressions.toList = added := hasks.expressions
  rw [hnoted] at hrecovers ⊢
  constructor
  · intro e he
    exact hcalls ▸ hasks.last rfl (hadded ▸ he)
  · intro hclean
    refine (hcalls ▸ hasks.nodup ?_ : (t.state.2.map Call.bodySpan).Nodup)
    intro hrecovering
    obtain ⟨hpolicy, -, hproblems⟩ := hrecovers hrecovering
    exact hproblems (hclean hpolicy)

theorem rereadText_told (hrereads : rereads options hooks.logging (state, []) source = true) :
    (rereadText options hooks.logging (state, []) source).2.Told ∧
      (rereadText options hooks.logging (state, []) source).2.AskedOnce := by
  obtain ⟨d, t, asked, added, hasks, hgrows, ⟨problems, hnoted⟩, hrecovers⟩ :=
    notedSession_asks options hooks state source
  have hquiet : ¬ t.Recovering := fun hrecovering => by
    simp [(hrecovers hrecovering).2.1] at hrereads
  have hcalls : t.state.2 = asked := hasks.calls
  have hadded : t.expressions.toList = added := hasks.expressions
  have hnone : t.handled = #[] := hgrows.handled_eq
  -- the session that the second reading starts with
  obtain ⟨s, hs⟩ : ∃ s, s = (notedSession options hooks.logging (state, [])
      source).clearProblems.restartExpressions := ⟨_, rfl⟩
  have hstart : s.hooks = hooks.logging ∧ s.state.2 = asked ∧ s.handled.toList = added ∧
      s.expressions = #[] := by
    subst hs
    rw [hnoted]
    exact ⟨hgrows.hooks_eq, hcalls, by simp [Session.clearProblems, Session.restartExpressions,
      hnone, hadded], rfl⟩
  obtain ⟨hhooks, hstate, hhandled, hempty⟩ := hstart
  obtain ⟨f, others, more, hagain⟩ :=
    rereadText_asks hooks (documentStart options hooks.logging (state, []) source) hhooks
  have hproblems := (rereadText_spec options hooks.logging (state, []) source).2.2
  have hfinal : (rereadText options hooks.logging (state, []) source).2 =
      (readTextContent none (documentStart options hooks.logging (state, []) source)
        (documentStart options hooks.logging (state, []) source) s).2.2 := by
    rw [hs]
    rfl
  rw [← hfinal] at hagain
  have hall := hagain.calls
  have hmore := hagain.expressions
  rw [hstate] at hall
  rw [hempty, Array.toList_empty, List.nil_append] at hmore
  constructor
  · intro e he
    rw [hall]
    exact lastAnswer_of_reread hagain hhandled hasks rfl (hmore ▸ he)
  · rw [Session.AskedOnce, hall]
    exact nodup_of_reread hagain hhandled hasks hquiet fun hrecovering =>
      hrecovering.has_problem hproblems

/-- Under the policy that recovers a document always comes out, with the problems that are left. -/
theorem exists_document_of_recover (hpolicy : options.onError = .recover) : ∃ document,
    (readDocument options hooks state source).1 = .ok document := by
  have hread := readDocument_read options hooks state source
  generalize readDocument options hooks state source = outcome at hread
  cases hread with
  | asValue => exact ⟨_, rfl⟩
  | asString => exact ⟨_, rfl⟩
  | failed _ hfail => simp [hpolicy] at hfail

/-- Every expression of a document carries the last answer that the host gave about its place.  And
no place is asked about twice, unless the reading recovers from problems. -/
theorem readDocument_asks :
    (∀ document, (readDocument options hooks.logging (state, []) source).1 = .ok document →
      ∀ e ∈ document.expressions,
        lastAnswer (readDocument options hooks.logging (state, []) source).2.2 e.bodySpan =
          some ⟨e.text, e.valueType⟩) ∧
    ((options.onError = .recover → ∀ document,
        (readDocument options hooks.logging (state, []) source).1 = .ok document →
          document.problems = []) →
      ((readDocument options hooks.logging (state, []) source).2.2.map Call.bodySpan).Nodup) := by
  have hfinal : (finalReading options hooks.logging (state, []) source).2.Told ∧
      ((options.onError = .recover →
        (finalReading options hooks.logging (state, []) source).2.problems = #[]) →
        (finalReading options hooks.logging (state, []) source).2.AskedOnce) := by
    unfold finalReading
    split
    · rename_i hrereads
      obtain ⟨htold, honce⟩ := rereadText_told options hooks state source hrereads
      exact ⟨htold, fun _ => honce⟩
    · exact notedSession_told options hooks state source
  obtain ⟨htold, honce⟩ := hfinal
  rw [readDocument_state]
  constructor
  · intro document hdocument e he
    obtain ⟨-, hexpressions, -⟩ := readDocument_ok options hooks.logging (state, []) source hdocument
    exact htold e (hexpressions ▸ he)
  · intro hclean
    apply honce
    intro hpolicy
    obtain ⟨document, hdocument⟩ :=
      exists_document_of_recover options hooks.logging (state, []) source hpolicy
    obtain ⟨-, -, hproblems⟩ := readDocument_ok options hooks.logging (state, []) source hdocument
    exact Array.toList_eq_nil_iff.mp (hproblems ▸ hclean hpolicy document hdocument)

end Documents

/-- An expression that is followed by text is read twice, but asked about once. -/
theorem readDocument_asks_reread :
    ∃ document,
      (readDocument { onError := .recover } ({} : Hooks Unit).logging ((), [])
        "\x7b\x7ba\x7d\x7d and \x7b\x7bb\x7d\x7d".toList).1 = .ok document ∧
      document.readAsString = true ∧ document.problems = [] ∧ document.expressions.length = 2 ∧
      ((readDocument { onError := .recover } ({} : Hooks Unit).logging ((), [])
        "\x7b\x7ba\x7d\x7d and \x7b\x7bb\x7d\x7d".toList).2.2.map Call.bodySpan).Nodup := by
  have hdocument : ∃ document, (readDocument { onError := .recover } ({} : Hooks Unit).logging ((), [])
      "\x7b\x7ba\x7d\x7d and \x7b\x7bb\x7d\x7d".toList).1 = .ok document ∧
      document.readAsString = true ∧ document.problems = [] ∧ document.expressions.length = 2 :=
    ⟨_, rfl, by decide +kernel, by decide +kernel, by decide +kernel⟩
  obtain ⟨document, hdocument, hstring, hproblems, hlength⟩ := hdocument
  refine ⟨document, hdocument, hstring, hproblems, hlength, (readDocument_asks _ _ _ _).2 ?_⟩
  intro _ other hother
  obtain rfl := Except.ok.inj (hdocument.symm.trans hother)
  exact hproblems

-- The key that is tried in front of the colon is given up, and its expression read again.
example : (readDocument { onError := .recover } ({} : Hooks Unit).logging ((), [])
    "\x7ba:1 \"b:2,\x7b\x7bx\x7d\x7d:3\"\x7d".toList).2.2.map Call.bodySpan = [⟨12, 13⟩, ⟨12, 13⟩] := by
  decide +kernel

end DataTemplate
