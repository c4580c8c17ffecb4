/-
Places that a reading comes to fresh.  What stands in front of such a place does not bear on what
stands behind it: no backslash escapes its character, and no brace in front of it has opened an
expression.  So two expressions that were scanned at fresh places of one text, and whose bodies
stand at one place, are one expression.  Main statements: `Expression.ScannedIn.unique` and
`readValue_scanned`.
-/
import DataTemplate.Proofs.BareReading
import DataTemplate.Proofs.Registry
import DataTemplate.Proofs.Scanning

namespace DataTemplate

variable {σ : Type} {n : Nat} {source : List Char}

/-! ### Fresh places -/

/-- A place that a reading may come to fresh.  Past a backslash the next character is skipped; past
a brace the reading goes on only if no expression opens there. -/
inductive Cursor.Fresh : Cursor → Prop
  | start (source : List Char) : Fresh (.ofText source)
  | ended {c : Cursor} (h : c.rest = []) : Fresh c
  | after {c d : Cursor} {x : Char} (h : c.Moves [x] d) (hx : x ≠ '\\' ∧ x ≠ '{') : Fresh d
  | escaped {c d : Cursor} {x : Char} (hc : Fresh c) (h : c.Moves ['\\', x] d) : Fresh d
  | brace {c d : Cursor} (hc : Fresh c) (h : c.Moves ['{'] d) (hscan : Expression.scan c = none) :
      Fresh d

namespace Cursor

variable {c d e : Cursor}

/-- Two texts of one length that end at one place are the same, and start at one place. -/
theorem Moves.start_unique {xs ys : List Char} (hc : c.Moves xs e) (hd : d.Moves ys e)
    (hlength : xs.length = ys.length) : c = d ∧ xs = ys := by
  obtain ⟨before, hsource, hposition⟩ := c.splits
  obtain ⟨before', hsource', hposition'⟩ := d.splits
  have hsame : (before ++ xs) ++ e.rest = (before' ++ ys) ++ e.rest := by
    rw [List.append_assoc, List.append_assoc, ← hc.rest_eq, ← hd.rest_eq, ← hsource, ← hsource',
      ← hc.source_eq, ← hd.source_eq]
  obtain ⟨rfl, rfl⟩ := List.append_inj' (List.append_cancel_right hsame) hlength
  have htext : c.source = d.source := hc.source_eq.symm.trans hd.source_eq
  exact ⟨eq_of_position htext (hposition.trans hposition'.symm), rfl⟩

theorem not_moves_ofText {xs : List Char} (hxs : xs ≠ []) : ¬ c.Moves xs (ofText source) := by
  intro h
  have hpositive := byteLength_pos_iff.mpr hxs
  have hposition : 0 = c.position + byteLength xs := h.position_eq
  omega

theorem Fresh.of_moves {xs : List Char} {x : Char} (h : c.Moves (xs ++ [x]) d)
    (hx : x ≠ '\\' ∧ x ≠ '{') : d.Fresh := by
  obtain ⟨e, -, hlast⟩ := h.split
  exact .after hlast hx

theorem ne_of_isBlank {x : Char} (h : isBlank x = true) : x ≠ '\\' ∧ x ≠ '{' := by
  have hall : (breakChars.all fun x => x != '\\' && x != '{') = true := by decide
  simpa using List.all_eq_true.mp hall x (mem_breakChars_of_isBlank h)

theorem Fresh.skipBlanks (h : c.Fresh) : c.skipBlanks.Fresh := by
  have hmoves : c.Moves (c.runOf isBlank) c.skipBlanks := c.moves_matchWhile isBlank
  have hblank : ∀ x ∈ c.runOf isBlank, isBlank x = true := List.all_eq_true.mp List.all_takeWhile
  rcases List.eq_nil_or_concat (c.runOf isBlank) with hnone | ⟨xs, x, hrun⟩
  · rw [hnone] at hmoves
    have hsame : c.skipBlanks = c := hmoves.unique (.refl c)
    rwa [hsame]
  · rw [List.concat_eq_append] at hrun
    rw [hrun] at hmoves hblank
    exact .of_moves hmoves (ne_of_isBlank (hblank x (by simp)))

/-- A reading comes fresh to the place behind a comment. -/
theorem fresh_of_comment? {d : c.After} (h : c.comment? = some d) : d.1.Fresh := by
  rcases comment?_filler h with ⟨filler, hmoves⟩ | hend
  · cases filler with
    | blank x hblank => exact .after hmoves (ne_of_isBlank hblank)
    | line body stop hbody hstop =>
      have hlast : c.Moves (('/' :: '/' :: body) ++ [stop]) d.1 := hmoves
      refine .of_moves hlast ?_
      rcases hstop with rfl | rfl <;> decide
    | block body =>
      have hlast : c.Moves (('/' :: '*' :: (body ++ ['*'])) ++ ['/']) d.1 := by
        simpa [Filler.text] using hmoves
      exact .of_moves hlast (by decide)
  · exact .ended hend

/-- Static text without braces leads from a fresh place to a fresh place. -/
theorem Fresh.of_isStatic {text : List Char} (h : isStatic ['{'] text = true) (hc : c.Fresh)
    (hd : c.Moves text d) : d.Fresh := by
  fun_induction isStatic ['{'] text generalizing c with
  | case1 => exact hd.unique (.refl c) ▸ hc
  | case2 => simp at h
  | case3 x xs ih =>
    obtain ⟨e, hce, hed⟩ : ∃ e, c.Moves ['\\', x] e ∧ e.Moves xs d := hd.split
    exact ih h (.escaped hc hce) hed
  | case4 x xs hx ih =>
    obtain ⟨e, hce, hed⟩ : ∃ e, c.Moves [x] e ∧ e.Moves xs d := hd.split
    obtain ⟨hbrace, hxs⟩ : x ≠ '{' ∧ isStatic ['{'] xs = true := by simpa using h
    exact ih hxs (.after hce ⟨hx, hbrace⟩) hed

theorem contentNeedles_stops (quote : Option Quote) :
    ∃ stops : List Char, '{' ∈ stops ∧ contentNeedles quote = stops.map fun stop => [stop] := by
  cases quote with
  | none => exact ⟨['{'], by simp, rfl⟩
  | some quote => exact ⟨[quote.char, '{'], by simp, rfl⟩

/-- A reading comes fresh to what interrupts the static text of a string. -/
theorem Fresh.of_find {quote : Option Quote} {hit : c.Hit (contentNeedles quote)}
    (hfind : c.find (contentNeedles quote) (some '\\') = some hit) (hc : c.Fresh) :
    hit.start.Fresh := by
  obtain ⟨stops, hbrace, hstops⟩ := contentNeedles_stops quote
  have hsearch : search (stops.map fun stop => [stop]) (some '\\') c.rest =
      some ⟨hit.before, hit.needle, hit.stop.rest⟩ := by
    rw [← hstops]
    exact search_of_find hfind
  have hstatic : isStatic stops hit.before = true := isStatic_before hsearch
  exact hc.of_isStatic (isStatic_mono (by simpa using hbrace) hstatic) hit.reach

/-- A reading comes fresh to the place behind an expression. -/
theorem fresh_of_scan {e : Expression} {d : c.After} (h : Expression.scan c = some (e, d)) :
    d.1.Fresh := by
  obtain ⟨-, closed, -, -, hclose, -, htwo, -, -⟩ := Expression.scan_some h
  obtain ⟨k, hk⟩ : ∃ k, e.braces = k + 1 := ⟨e.braces - 1, by omega⟩
  rw [hk, List.replicate_succ'] at hclose
  exact .of_moves hclose (by decide)

/-! ### Two scans of one text -/

/-- A character behind a backslash is skipped. -/
theorem Fresh.not_fresh_of_escape {c d : Cursor} (hc : c.Fresh) (h : c.Moves ['\\'] d)
    (hrest : d.rest ≠ []) : ¬ d.Fresh := by
  intro hd
  cases hd with
  | start => exact not_moves_ofText (by simp) h
  | ended hend => exact hrest hend
  | after hlast hx =>
    obtain ⟨-, hsame⟩ := h.start_unique hlast rfl
    exact hx.1 (List.cons.inj hsame).1.symm
  | @escaped e _ x he hlast =>
    obtain ⟨m, hem, hmd⟩ : ∃ m, e.Moves ['\\'] m ∧ m.Moves [x] d := hlast.split
    obtain ⟨rfl, -⟩ := h.start_unique hmd rfl
    exact not_fresh_of_escape he hem (rest_ne_nil h.rest_eq) hc
  | brace he hlast =>
    obtain ⟨-, hsame⟩ := h.start_unique hlast rfl
    simp at hsame
termination_by d.position
decreasing_by exact position_lt_of_lt (hmd.lt (by simp))

/-- No place inside the opening braces of an expression is fresh. -/
theorem Fresh.not_fresh_of_braces (hc : c.Fresh) (hscan : Expression.scan c ≠ none) {k : Nat}
    (h : c.Moves (List.replicate (k + 1) '{') d) (hrest : d.rest ≠ []) : ¬ d.Fresh := by
  intro hd
  rw [List.replicate_succ'] at h
  obtain ⟨m, hcm, hmd⟩ := h.split
  induction hd generalizing k m with
  | start => exact not_moves_ofText (by simp) hmd
  | ended hend => exact hrest hend
  | after hlast hx =>
    obtain ⟨-, hsame⟩ := hmd.start_unique hlast rfl
    exact hx.2 (List.cons.inj hsame).1.symm
  | @escaped e d x he hlast =>
    obtain ⟨p, hep, hpd⟩ : ∃ p, e.Moves ['\\'] p ∧ p.Moves [x] d := hlast.split
    obtain ⟨rfl, -⟩ := hmd.start_unique hpd rfl
    cases k with
    | zero =>
      obtain rfl := hcm.unique (.refl c)
      exact he.not_fresh_of_escape hep (rest_ne_nil hmd.rest_eq) hc
    | succ k =>
      rw [List.replicate_succ'] at hcm
      obtain ⟨q, -, hqm⟩ := hcm.split
      obtain ⟨-, hsame⟩ := hqm.start_unique hep rfl
      simp at hsame
  | @brace e d he hlast hnone ih =>
    obtain ⟨rfl, -⟩ := hmd.start_unique hlast rfl
    cases k with
    | zero =>
      obtain rfl := hcm.unique (.refl c)
      exact hscan hnone
    | succ k =>
      rw [List.replicate_succ'] at hcm
      obtain ⟨q, hcq, hqm⟩ := hcm.split
      exact ih hcm (rest_ne_nil hmd.rest_eq) q hcq hqm

end Cursor

/-- An expression that was scanned at a fresh place of a text. -/
def Expression.ScannedIn (source : List Char) (e : Expression) : Prop :=
  ∃ c d, c.source = source ∧ c.Fresh ∧ Expression.scan c = some (e, d)

namespace Expression

variable {e other : Expression} {c c' : Cursor} {d : c.After} {d' : c'.After}

/-- Two scans whose bodies stand at one place open at places from which braces lead there. -/
theorem exists_opened (hsource : c.source = c'.source) (he : scan c = some (e, d))
    (hother : scan c' = some (other, d')) (hspan : e.bodySpan = other.bodySpan) :
    ∃ opened, c.Moves (List.replicate e.braces '{') opened ∧
      c'.Moves (List.replicate other.braces '{') opened := by
  obtain ⟨opened, -, hopen, -, -, hstart, -⟩ := scan_some he
  obtain ⟨opened', -, hopen', -, -, hstart', -⟩ := scan_some hother
  have hbrace : '{'.utf8Size = 1 := by decide
  have hposition : opened.position = opened'.position := by
    have hbody : e.start + e.braces = other.start + other.braces := congrArg Span.start hspan
    rw [hopen.position_eq, hopen'.position_eq, byteLength_replicate hbrace,
      byteLength_replicate hbrace]
    omega
  have htext : opened.source = opened'.source := by
    rw [hopen.source_eq, hopen'.source_eq, hsource]
  obtain rfl := Cursor.eq_of_position htext hposition
  exact ⟨opened, hopen, hopen'⟩

/-- Of two scans of bodies at one place neither opens with more braces. -/
theorem ScannedIn.braces_le (he : e.ScannedIn source) (hother : other.ScannedIn source)
    (hspan : e.bodySpan = other.bodySpan) : e.braces ≤ other.braces := by
  obtain ⟨c, d, hsource, hfresh, hscan⟩ := he
  obtain ⟨c', d', hsource', hfresh', hscan'⟩ := hother
  obtain ⟨opened, hopen, hopen'⟩ :=
    exists_opened (hsource.trans hsource'.symm) hscan hscan' hspan
  by_contra hmore
  obtain ⟨k, hk⟩ : ∃ k, e.braces = (k + 1) + other.braces := ⟨e.braces - other.braces - 1, by omega⟩
  rw [hk, List.replicate_append_replicate.symm] at hopen
  obtain ⟨m, hcm, hlast⟩ := hopen.split
  obtain ⟨rfl, -⟩ := hlast.start_unique hopen' rfl
  exact hfresh.not_fresh_of_braces (by simp [hscan]) hcm (Cursor.rest_ne_nil_of_lt d'.2) hfresh'

/-- Two expressions whose bodies stand at one place are one expression. -/
theorem ScannedIn.unique (he : e.ScannedIn source) (hother : other.ScannedIn source)
    (hspan : e.bodySpan = other.bodySpan) : e = other := by
  have hbraces : e.braces = other.braces :=
    Nat.le_antisymm (he.braces_le hother hspan) (hother.braces_le he hspan.symm)
  obtain ⟨c, d, hsource, -, hscan⟩ := he
  obtain ⟨c', d', hsource', -, hscan'⟩ := hother
  obtain ⟨opened, hopen, hopen'⟩ :=
    exists_opened (hsource.trans hsource'.symm) hscan hscan' hspan
  obtain ⟨rfl, -⟩ := hopen.start_unique hopen' (by simp [hbraces])
  exact (Prod.mk.inj (Option.some.inj (hscan.symm.trans hscan'))).1

end Expression

/-! ### Leaves and strings -/

/-- Unless the reading went on after a problem, all expressions were scanned at fresh places. -/
def Session.Scanned (source : List Char) (s : Session σ) : Prop :=
  ¬ s.Recovering → ∀ e ∈ s.expressions.toList, e.bare.ScannedIn source

section Leaves

variable {c : Cursor} {s t : Session σ}

theorem Session.Scanned.of_grows (h : s.Scanned source) (hgrows : s.Grows t)
    (hsame : t.expressions = s.expressions) : t.Scanned source := by
  intro ht e he
  rw [hsame] at he
  exact h (fun hs => ht (hs.of_grows hgrows)) e he

theorem Session.Scanned.observe (h : s.Scanned source) (node : Node) :
    (s.observe node).Scanned source := h.of_grows (.observe s node) rfl

theorem Session.Scanned.commit (h : s.Scanned source) (cause : Cause) (position : Nat) :
    (s.commit cause position).Scanned source :=
  h.of_grows (.commit s cause position) (s.commit_expressions cause position)

theorem Session.bare_of_finishExpression (s : Session σ) {e : Expression} (he : e.bare = e) :
    (s.finishExpression e).1.bare = e := by
  obtain ⟨revision, hrevise⟩ := s.finishExpression_revise e
  rw [hrevise, Expression.bare_revise, he]

theorem readExpression_scanned {e : Expression} {d : c.After}
    (h : readExpression c s = (some (e, d), t)) (hsource : c.source = source) (hc : c.Fresh)
    (hs : s.Scanned source) : t.Scanned source ∧ d.1.Fresh := by
  obtain ⟨scanned, hscan, hfinish⟩ := readExpression_some h
  have hgrows := Session.Grows.law.expression h
  have hexpressions := s.finishExpression_expressions scanned
  have hbare := s.bare_of_finishExpression (Expression.bare_of_scan hscan)
  rw [hfinish] at hexpressions hbare
  refine ⟨?_, Cursor.fresh_of_scan hscan⟩
  intro ht x hx
  rw [hexpressions, Array.toList_push, List.mem_append, List.mem_singleton] at hx
  rcases hx with hx | rfl
  · exact hs (fun hs => ht (hs.of_grows hgrows)) x hx
  · exact ⟨c, d, hsource, hc, hbare.symm ▸ hscan⟩

theorem readContent_scanned (quote : Option Quote) (segment c : Cursor) (s : Session σ)
    (hsource : c.source = source) (hc : c.Fresh) (hs : s.Scanned source) :
    (readContent quote segment c s).2.2.Scanned source := by
  fun_induction readContent quote segment c s with
  | case1 => exact hs.observe _
  | case2 segment c s hit hfind hneedle t hread hlt content d u hrest ih =>
    obtain ⟨hscan, rfl⟩ := readExpression_none hread
    have hbrace : hit.start.Moves ['{'] hit.stop := by simpa [beq_iff_eq.mp hneedle] using hit.spell
    have hbehind : hit.stop.Fresh := .brace (hc.of_find hfind) hbrace hscan
    rw [hrest] at ih
    exact ih ((Cursor.source_eq_of_lt hlt).trans hsource) hbehind hs
  | case3 segment c s hit hfind hneedle e after t hread hlt first content d u hrest ih =>
    have hstart := (Cursor.source_eq_of_le hit.le_start).trans hsource
    obtain ⟨ht, hafter⟩ := readExpression_scanned hread hstart (hc.of_find hfind) hs
    rw [hrest] at ih
    exact ih ((Cursor.source_eq_of_lt hlt).trans hsource) hafter (ht.observe _)
  | case4 => exact hs.observe _

theorem finishText_scanned {quote : Option Quote} {c d : Cursor} {content : Content} {text : Text}
    (h : finishText quote c d content s = (text, t)) (hs : s.Scanned source) :
    t.Scanned source := by
  have hgrows := Session.Grows.law.finishText c h
  refine hs.of_grows hgrows ?_
  unfold finishText at h
  obtain ⟨-, rfl⟩ := Prod.mk.inj h
  split
  · rfl
  · exact s.commit_expressions _ _

theorem Cursor.Moves.fresh_of_quote {quote : Quote} {d : Cursor} (h : c.Moves [quote.char] d) :
    d.Fresh := by
  refine .after h ?_
  cases quote <;> decide

theorem readText_scanned {found : Option (Text × c.After)} (h : readText c s = (found, t))
    (hsource : c.source = source) (hs : s.Scanned source) : t.Scanned source := by
  have hread := readText_read c s
  rw [h] at hread
  cases hread with
  | none => exact hs
  | static _ _ _ hfinish => exact finishText_scanned hfinish (hs.observe _)
  | @content quote inner content d text u _ _ hinner hcontent hfinish =>
    have hbehind := readContent_scanned (some quote) inner inner s
      (hinner.source_eq.trans hsource) hinner.fresh_of_quote hs
    rw [hcontent] at hbehind
    exact finishText_scanned hfinish hbehind

theorem readKey_scanned {found : Option (Key × c.After)} (h : readKey c s = (found, t))
    (hsource : c.source = source) (hc : c.Fresh) (hs : s.Scanned source) : t.Scanned source := by
  have hread := readKey_read c s
  rw [h] at hread
  cases hread with
  | none => exact hs
  | text h => exact readText_scanned h hsource hs
  | expression _ h => exact (readExpression_scanned h hsource hc hs).1
  | identifier => exact hs.observe _

end Leaves

/-! ### Arrays and objects -/

/-- A rule scans expressions at fresh places only. -/
def ValueRule.Scans (source : List Char) (rule : ValueRule σ n) : Prop :=
  ∀ ⦃c hc s found t⦄, rule c hc s = (found, t) → c.source = source → c.Fresh →
    s.Scanned source → t.Scanned source

/-- What holds between rounds: unless the reading went on after a problem, the place is fresh if
something may be read here that holds expressions. -/
structure Session.ScannedTo (source : List Char) (looks : Prop) (c : Cursor) (s : Session σ) :
    Prop where
  source_eq : c.source = source
  scanned : s.Scanned source
  fresh : ¬ s.Recovering → looks → c.Fresh

section Rounds

variable {rule : ValueRule σ n} {c : Cursor} {hc : c.rest.length < n} {s : Session σ}

theorem Session.ScannedTo.imp {looks looks' : Prop} (h : s.ScannedTo source looks c)
    (himp : looks' → looks) : s.ScannedTo source looks' c :=
  ⟨h.source_eq, h.scanned, fun hs hlooks => h.fresh hs (himp hlooks)⟩

theorem Session.ScannedTo.skipBlanks {looks : Prop} (h : s.ScannedTo source looks c) :
    s.ScannedTo source looks c.skipBlanks where
  source_eq := (Cursor.source_eq_of_le c.le_skipBlanks).trans h.source_eq
  scanned := h.scanned
  fresh hs hlooks := (h.fresh hs hlooks).skipBlanks

theorem SlotRound.scanned (hgrows : rule.Grows) (hscans : rule.Scans source) {draft : SlotDraft}
    {round : Round σ SlotDraft c} (hround : SlotRound rule c hc draft s round)
    (h : s.ScannedTo source (draft.awaitsValue = true) c) :
    round.session.ScannedTo source (round.outcome.2.awaitsValue = true) round.outcome.1 := by
  have hgrow := Session.Grows.law.slotRound hgrows hround
  have hsource := (Cursor.source_eq_of_le round.le_outcome).trans h.source_eq
  cases hround with
  | ended => exact h
  | closed hd | comma hd => exact ⟨hsource, h.scanned, fun _ _ => .after hd (by decide)⟩
  | comment hd => exact ⟨hsource, h.scanned.observe _, fun _ _ => Cursor.fresh_of_comment? hd⟩
  | @value value d t _ hopen hvalue =>
    refine ⟨hsource, ?_, ?_⟩
    · intro ht
      have hfresh := h.fresh (fun hs => ht (hs.of_grows hgrow)) hopen
      exact hscans hvalue h.source_eq hfresh h.scanned ht
    · intro _ hlooks
      simp [SlotDraft.fill, SlotDraft.awaitsValue] at hlooks
  | halt =>
    exact ⟨hsource, h.scanned.commit _ _, fun ht => h.fresh fun hs => ht (hs.of_grows hgrow)⟩
  | recover _ hgo =>
    exact ⟨hsource, h.scanned.commit _ _, fun ht => absurd (Session.commit_recovering hgo) ht⟩

theorem readSlots_scanned (hquiet : rule.Quiet) (hgrows : rule.Grows)
    (hscans : rule.Scans source) (hc : c.rest.length < n)
    (h : s.ScannedTo source True c) : (readSlots rule c hc {} s).2.2.2.Scanned source := by
  rw [readSlots_eq_rounds]
  refine (rounds_invariant (slotStep rule)
    (fun c draft s => s.ScannedTo source (draft.awaitsValue = true) c)
    (fun _ _ _ h => h.skipBlanks) ?_ hc {} s (h.imp fun _ => trivial)).scanned
  intro c hc draft s h
  exact (slotStep_round hquiet c hc draft s).scanned hgrows hscans h

/-- Whether an object may read an expression next. -/
def PropertyDraft.looks (draft : PropertyDraft) : Prop :=
  draft.awaited = .keyOrEnd ∨ draft.awaited = .value

theorem PropertyRound.scanned (hgrows : rule.Grows) (hscans : rule.Scans source)
    {draft : PropertyDraft} {round : Round σ PropertyDraft c}
    (hround : PropertyRound rule c hc draft s round) (h : s.ScannedTo source draft.looks c) :
    round.session.ScannedTo source round.outcome.2.looks round.outcome.1 := by
  have hgrow := Session.Grows.law.propertyRound hgrows hround
  have hsource := (Cursor.source_eq_of_le round.le_outcome).trans h.source_eq
  cases hround with
  | ended => exact h
  | comment hd => exact ⟨hsource, h.scanned.observe _, fun _ _ => Cursor.fresh_of_comment? hd⟩
  | closed hd | colon _ hd | comma _ hd =>
    exact ⟨hsource, h.scanned, fun _ _ => .after hd (by decide)⟩
  | @key key d t hawaited hkey =>
    have hkept := Session.Grows.law.begin d.1 draft key t
    refine ⟨hsource, ?_, ?_⟩
    · intro ht
      have hfresh := h.fresh (fun hs => ht (hs.of_grows hgrow)) (.inl hawaited)
      have hread := readKey_scanned hkey h.source_eq hfresh h.scanned
      exact hread.of_grows hkept (draft.begin_expressions key t) ht
    · intro _ hlooks
      simp [PropertyDraft.begin, PropertyDraft.looks] at hlooks
  | @value value d t _ hawaited hvalue =>
    refine ⟨hsource, ?_, ?_⟩
    · intro ht
      have hfresh := h.fresh (fun hs => ht (hs.of_grows hgrow)) (.inr hawaited)
      exact hscans hvalue h.source_eq hfresh h.scanned ht
    · intro _ hlooks
      simp [PropertyDraft.fill, PropertyDraft.looks] at hlooks
  | halt =>
    exact ⟨hsource, h.scanned.commit _ _, fun ht => h.fresh fun hs => ht (hs.of_grows hgrow)⟩
  | recover _ hgo hround =>
    have hcommit := Session.commit_recovering hgo
    have hrecovering := hcommit.of_grows (Session.Grows.law.recovery hcommit hround)
    exact ⟨hsource, fun ht => absurd hrecovering ht, fun ht => absurd hrecovering ht⟩

theorem readProperties_scanned (hquiet : rule.Quiet) (hgrows : rule.Grows)
    (hscans : rule.Scans source) (hc : c.rest.length < n)
    (h : s.ScannedTo source True c) : (readProperties rule c hc {} s).2.2.2.Scanned source := by
  rw [readProperties_eq_rounds]
  refine (rounds_invariant (propertyStep rule)
    (fun c draft s => s.ScannedTo source draft.looks c)
    (fun _ _ _ h => h.skipBlanks) ?_ hc {} s (h.imp fun _ => trivial)).scanned
  intro c hc draft s h
  exact (propertyStep_round hquiet c hc draft s).scanned hgrows hscans h

end Rounds

/-! ### Values -/

/-- A value that is read at a fresh place holds expressions that were scanned at fresh places,
unless the reading went on after a problem. -/
theorem readValue_scanned {c : Cursor} {s t : Session σ} {found : Option (Value × c.After)}
    (h : readValue c s = (found, t)) (hsource : c.source = source) (hc : c.Fresh)
    (hs : s.Scanned source) : t.Scanned source := by
  have hread := readValue_read c s
  rw [h] at hread
  cases hread with
  | none => exact hs
  | text h => exact readText_scanned h hsource hs
  | expression _ h => exact (readExpression_scanned h hsource hc hs).1
  | scalar => exact hs.observe _
  | @array inner hlt e draft closed u _ hinner hslots hvalue hd =>
    have hfresh : inner.Fresh := .after hinner (by decide)
    have hloop := readSlots_scanned readValue_quiet (fun _ _ _ _ _ h => readValue_grows h)
      (fun _ _ _ _ _ h => readValue_scanned h) hlt
      ⟨hinner.source_eq.trans hsource, hs, fun _ _ => hfresh⟩
    rw [hslots] at hloop
    have hlast := hloop.of_grows (Session.Grows.law.commitUnclosed e.1 u closed _ _)
      (u.commitUnclosed_expressions closed .unclosedArray e.1.position)
    exact hlast.observe _
  | @object inner hlt e draft closed u v _ hinner hbrace hproperties hv hvalue hd =>
    have hnone : Expression.scan c = none :=
      Expression.scan_eq_none_of_lone hinner.rest_eq hbrace
    have hloop := readProperties_scanned readValue_quiet (fun _ _ _ _ _ h => readValue_grows h)
      (fun _ _ _ _ _ h => readValue_scanned h) hlt
      ⟨hinner.source_eq.trans hsource, hs, fun _ _ => .brace hc hinner hnone⟩
    rw [hproperties] at hloop
    have hlast := hloop.of_grows (Session.Grows.law.commitUnclosed e.1 u closed _ _)
      (u.commitUnclosed_expressions closed draft.awaited.missing e.1.position)
    rw [← hv] at hlast
    have hflushed := hlast.of_grows (Session.Grows.law.flush e.1 draft v)
      (draft.flush_expressions v)
    exact hflushed.observe _
termination_by c.rest.length

end DataTemplate
