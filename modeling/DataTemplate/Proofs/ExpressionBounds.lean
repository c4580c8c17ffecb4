/-
Where an expression ends.  It opens with all the braces there are and closes at the leftmost run of as
many, which may lie inside a longer run, and nothing else decides whether there is one.  Main
statements: `Bracketed.unique`, `Opens.findFrom_eq` and `readExpression_bracketed`.
-/
import DataTemplate.Proofs.Fidelity
import DataTemplate.Proofs.LeadSearch
import DataTemplate.Proofs.Leaves
import DataTemplate.Proofs.Registry

namespace DataTemplate

variable {σ : Type} {text tail body rest : List Char} {braces : Nat}

/-! ### Texts that begin with an expression -/

/-- `text` begins with so many braces, at least two of them and all there are, and goes on with
`tail`. -/
structure Opens (text : List Char) (braces : Nat) (tail : List Char) : Prop where
  two_le : 2 ≤ braces
  spelled : text = List.replicate braces '{' ++ tail
  maximal : tail.head? ≠ some '{'

/-- `text` begins with an expression: behind the braces that open it stand `body` and as many closing
braces, and these nowhere further to the left. -/
structure Bracketed (text : List Char) (braces : Nat) (body rest : List Char) : Prop where
  opens : Opens text braces (body ++ (List.replicate braces '}' ++ rest))
  leftmost : ∀ before after,
    before ++ (List.replicate braces '}' ++ after) = body ++ (List.replicate braces '}' ++ rest) →
      body <+: before

theorem Opens.head?_any (h : Opens text braces tail) : tail.head?.any (· == '{') = false := by
  have hmaximal := h.maximal
  cases tail <;> simp_all

theorem Opens.replicate_ne_nil (h : Opens text braces tail) : List.replicate braces '}' ≠ [] := by
  have := h.two_le
  simp
  omega

theorem Opens.unique {tail' : List Char} {braces' : Nat} (h : Opens text braces tail)
    (h' : Opens text braces' tail') : braces = braces' ∧ tail = tail' := by
  have hrun : text.takeWhile (· == '{') = List.replicate braces '{' := by
    rw [h.spelled]
    exact takeWhile_run (by simp) h.head?_any
  have hrun' : text.takeWhile (· == '{') = List.replicate braces' '{' := by
    rw [h'.spelled]
    exact takeWhile_run (by simp) h'.head?_any
  obtain rfl : braces = braces' := by simpa using congrArg List.length (hrun.symm.trans hrun')
  exact ⟨rfl, List.append_cancel_left (h.spelled.symm.trans h'.spelled)⟩

/-- A text begins with one expression at most. -/
theorem Bracketed.unique {body' rest' : List Char} {braces' : Nat}
    (h : Bracketed text braces body rest) (h' : Bracketed text braces' body' rest') :
    braces = braces' ∧ body = body' ∧ rest = rest' := by
  obtain ⟨rfl, htail⟩ := h.opens.unique h'.opens
  have hle := (h.leftmost body' rest' htail.symm).length_le
  have hle' := (h'.leftmost body rest htail).length_le
  obtain ⟨rfl, hclose⟩ := List.append_inj htail (Nat.le_antisymm hle hle')
  exact ⟨rfl, rfl, List.append_cancel_left hclose⟩

/-- What a search for one needle finds is its leftmost occurrence. -/
theorem search_first {needle : List Char} {found : Occurrence}
    (h : search [needle] none text = some found) {before after : List Char}
    (hsplit : before ++ (needle ++ after) = found.before ++ (needle ++ found.after)) :
    found.before <+: before := by
  have hin := search_in h
  have hneedle : found.needle = needle := List.mem_singleton.mp hin.mem
  rcases List.append_eq_append_iff.mp hsplit with ⟨ys, hbefore, hhere⟩ | ⟨ys, hbefore, -⟩
  · by_cases hys : ys = []
    · simp [hbefore, hys]
    · have hnone := search_leftmost h hys hbefore.symm
      rw [hneedle, ← hhere, needleAt?_append_eq (hneedle ▸ hin.ne_nil)] at hnone
      simp at hnone
  · exact ⟨ys, hbefore.symm⟩

/-- A printed expression is the one that its text begins with, whatever comes after it. -/
theorem Braced.bracketed (form : Braced) (rest : List Char) :
    Bracketed (form.text ++ rest) form.braces form.body rest where
  opens.two_le := form.two_le
  opens.spelled := by simp [text]
  opens.maximal := by
    have hhead := form.head_ne
    obtain ⟨n, hn⟩ := form.exists_braces
    cases hbody : form.body with
    | nil => simp [hn, List.replicate_succ]
    | cons x xs => simpa [hbody] using hhead
  leftmost _ _ hsplit := search_first (form.search_eq rest) hsplit

/-! ### Scanning -/

section Opened

variable {c : Cursor}

theorem Opens.startsWith (h : Opens c.rest braces tail) : c.startsWith ['{', '{'] = true := by
  obtain ⟨n, rfl⟩ := Nat.exists_eq_add_of_le' h.two_le
  simp [Cursor.startsWith, h.spelled, List.replicate_succ]

theorem Opens.runOf_eq (h : Opens c.rest braces tail) :
    c.runOf (· == '{') = List.replicate braces '{' :=
  (Cursor.rest_matchWhile h.spelled (by simp) h.head?_any).1

theorem Opens.rest_matchWhile (h : Opens c.rest braces tail) :
    (c.matchWhile (· == '{')).rest = tail :=
  (Cursor.rest_matchWhile h.spelled (by simp) h.head?_any).2

theorem exists_opens (h : c.startsWith ['{', '{'] = true) :
    ∃ braces tail, Opens c.rest braces tail := by
  obtain ⟨more, hmore⟩ := List.isPrefixOf_iff_prefix.mp h
  refine ⟨(c.runOf (· == '{')).length, c.rest.dropWhile (· == '{'), ?_, ?_, ?_⟩
  · simp [Cursor.runOf, ← hmore]
  · rw [Cursor.runOf, ← takeWhile_eq_replicate, List.takeWhile_append_dropWhile]
  · intro hhead
    have hdropped := List.head?_dropWhile_not (· == '{') c.rest
    simp [hhead] at hdropped

/-- An expression that opens ends where the search for its closing braces does. -/
theorem Expression.scan_of_opens (h : Opens c.rest braces tail) :
    Expression.scan c = ((c.matchWhile (· == '{')).find [List.replicate braces '}'] none).map
      fun hit => (⟨c.position, braces, String.ofList hit.before, String.ofList hit.before, .unknown⟩,
        ⟨hit.stop, Cursor.lt_of_le_of_lt (c.moves_matchWhile _).le hit.lt_stop⟩) := by
  obtain rfl : (c.runOf (· == '{')).length = braces := by simp [h.runOf_eq]
  unfold Expression.scan
  rw [if_pos h.startsWith]
  dsimp only
  split <;> simp [*]

theorem Expression.exists_opens_of_scan {e : Expression} {d : c.After}
    (h : Expression.scan c = some (e, d)) : ∃ braces tail, Opens c.rest braces tail := by
  apply exists_opens
  cases hstarts : c.startsWith ['{', '{'] with
  | true => rfl
  | false => simp [Expression.scan_eq_none hstarts] at h

theorem Expression.scan_bracketed {e : Expression} {d : c.After}
    (h : Expression.scan c = some (e, d)) : Bracketed c.rest e.braces e.raw.toList d.1.rest := by
  obtain ⟨braces, tail, hopens⟩ := exists_opens_of_scan h
  rw [scan_of_opens hopens] at h
  obtain ⟨hit, hfind, heq⟩ := Option.map_eq_some_iff.mp h
  obtain ⟨rfl, rfl⟩ := Prod.mk.inj heq
  have hneedle := List.mem_singleton.mp hit.mem
  have htail := hopens.rest_matchWhile.symm.trans
    (hit.reach.rest_eq.trans (congrArg _ hit.spell.rest_eq))
  rw [hneedle] at htail
  simp only [String.toList_ofList]
  exact ⟨htail ▸ hopens, fun _ _ hsplit => search_first (Cursor.search_of_find hfind) hsplit⟩

theorem Opens.scan_isSome (h : Opens c.rest braces tail)
    (hcloses : List.replicate braces '}' <:+: tail) : (Expression.scan c).isSome = true := by
  rw [Expression.scan_of_opens h, Option.isSome_map]
  cases hfind : (c.matchWhile (· == '{')).find [List.replicate braces '}'] none with
  | some hit => rfl
  | none =>
    have hnone := Cursor.search_of_find_none hfind
    rw [h.rest_matchWhile] at hnone
    exact absurd hcloses (not_infix_of_search_none h.replicate_ne_nil hnone)

/-! ### The search for the closing braces -/

/-- The search for the closing braces, which is asked of the place of the first brace, meets the end of
the expression, and nothing if there is no expression. -/
theorem Opens.findFrom_eq (h : Opens c.rest braces tail) :
    c.findFrom braces [List.replicate braces '}'] none =
      (Expression.scan c).map fun (e, d) =>
        ⟨e.closing.toList, e.bodySpan.stop - c.position, d.1.position - c.position⟩ := by
  have hopen := c.moves_matchWhile (· == '{')
  have hplace := hopen.position_eq
  rw [h.runOf_eq, byteLength_replicate (by decide)] at hplace
  have hstart : c.searchStart braces = c.matchWhile (· == '{') := by
    rw [Cursor.searchStart, ← hplace, Cursor.jumpTo_position hopen.source_eq]
  rw [Cursor.findFrom_eq_find, hstart, Expression.scan_of_opens h, Option.map_map]
  congr 1
  funext hit
  have hneedle := List.mem_singleton.mp hit.mem
  have hbody := hit.reach.position_eq
  rw [hplace] at hbody
  simp [Expression.toList_closing, Expression.bodySpan, hneedle, hbody]

end Opened

/-! ### Reading -/

theorem readExpression_isSome (c : Cursor) (s : Session σ) :
    (readExpression c s).1.isSome = (Expression.scan c).isSome := by
  cases h : Expression.scan c with
  | none => simp [readExpression_eq_none h]
  | some found => simp [readExpression_of_scan h]

/-- A finished expression is one more in the registry; beside it only the state of the host has
changed. -/
theorem Session.finishExpression_registered (s : Session σ) (e : Expression) :
    { (s.finishExpression e).2 with state := s.state } =
      { s with expressions := s.expressions.push (s.finishExpression e).1 } := by
  unfold Session.finishExpression
  split <;> rfl

/-- The expression `e` was read at `c` up to `d`, and took the session from `s` to `t`: its parts are
those of the text, its spans are where they stand, and the host was asked about its body. -/
structure Expression.ReadAt (c : Cursor) (s : Session σ) (e : Expression) (d : Cursor)
    (t : Session σ) : Prop where
  bracketed : Bracketed c.rest e.braces e.raw.toList d.rest
  span_eq : e.span = ⟨c.position, d.position⟩
  opening_spelled : Span.Spells c.source ⟨e.span.start, e.bodySpan.start⟩ e.opening.toList
  body_spelled : e.bodySpan.Spells c.source e.raw.toList
  closing_spelled : Span.Spells c.source ⟨e.bodySpan.stop, e.span.stop⟩ e.closing.toList
  whole_spelled : e.span.Spells c.source (e.opening.toList ++ e.raw.toList ++ e.closing.toList)
  finished : s.finishExpression ⟨c.position, e.braces, e.raw, e.raw, .unknown⟩ = (e, t)
  registered : { t with state := s.state } = { s with expressions := s.expressions.push e }

theorem Expression.scan_eq_fresh {c : Cursor} {e : Expression} {d : c.After}
    (h : Expression.scan c = some (e, d)) :
    e = ⟨c.position, e.braces, e.raw, e.raw, .unknown⟩ := by
  obtain ⟨-, -, -, -, -, hstart, -, htext, htype⟩ := Expression.scan_some h
  cases e
  simp_all

theorem readExpression_readAt {c : Cursor} {s t : Session σ} {e : Expression} {d : c.After}
    (h : readExpression c s = (some (e, d), t)) : e.ReadAt c s d.1 t := by
  obtain ⟨scanned, hscan, hfinish⟩ := readExpression_some h
  obtain ⟨opened, closed, hopen, hbody, hclose, hstart, -⟩ := Expression.scan_some hscan
  obtain ⟨revision, hrevise⟩ := s.finishExpression_revise scanned
  have hregistered := s.finishExpression_registered scanned
  rw [hfinish] at hrevise hregistered
  obtain rfl : e = scanned.revise revision := hrevise
  have hbodySpan : scanned.bodySpan = ⟨opened.position, closed.position⟩ := by
    rw [Expression.bodySpan, hbody.position_eq, hopen.position_eq, hstart,
      byteLength_replicate (by decide), byteLength_toList]
  have hbracketed := Expression.scan_bracketed hscan
  have hspan := Expression.scan_span hscan
  have hsource := hopen.source_eq
  have hparts : (scanned.revise revision).bodySpan = ⟨opened.position, closed.position⟩ ∧
      (scanned.revise revision).span = ⟨c.position, d.1.position⟩ := ⟨hbodySpan, hspan⟩
  exact {
    bracketed := hbracketed
    span_eq := hspan
    opening_spelled := by
      rw [hparts.1, hparts.2, Expression.toList_opening]
      exact hopen.spells
    body_spelled := by
      rw [hparts.1, ← hsource]
      exact hbody.spells
    closing_spelled := by
      rw [hparts.1, hparts.2, Expression.toList_closing, ← hsource, ← hbody.source_eq]
      exact hclose.spells
    whole_spelled := by
      rw [hparts.2, Expression.toList_opening, Expression.toList_closing]
      exact ((hopen.trans hbody).trans hclose).spells
    finished := Expression.scan_eq_fresh hscan ▸ hfinish
    registered := hregistered }

/-- An expression is read exactly where the text has at least two braces and as many closing braces
somewhere behind all of them.  It ends at the leftmost such run, its parts stand in the source at their
spans, the search for its end agrees, and it is one entry of the registry; where none is read nothing
changes.  So every expression that is printed is read back, whatever text comes after it. -/
theorem readExpression_bracketed (c : Cursor) (s : Session σ) :
    ((readExpression c s).1.isSome = true ↔ ∃ braces tail, Opens c.rest braces tail ∧
        List.replicate braces '}' <:+: tail) ∧
      (∀ e d t, readExpression c s = (some (e, d), t) → e.ReadAt c s d.1 t) ∧
      (∀ t, readExpression c s = (none, t) → t = s) ∧
      (∀ braces tail, Opens c.rest braces tail →
        c.findFrom braces [List.replicate braces '}'] none =
          (readExpression c s).1.map fun (e, d) =>
            ⟨e.closing.toList, e.bodySpan.stop - c.position, d.1.position - c.position⟩) ∧
      ∀ (form : Braced) (text : List Char), c.rest = form.text ++ text →
        ∃ e d t, readExpression c s = (some (e, d), t) ∧ e.braces = form.braces ∧
          e.raw.toList = form.body ∧ d.1.rest = text := by
  refine ⟨?_, fun _ _ _ h => readExpression_readAt h, fun _ h => (readExpression_none h).2, ?_, ?_⟩
  · rw [readExpression_isSome]
    constructor
    · intro h
      obtain ⟨⟨e, d⟩, hscan⟩ := Option.isSome_iff_exists.mp h
      have hbracketed := Expression.scan_bracketed hscan
      exact ⟨_, _, hbracketed.opens, List.infix_append' _ _ _⟩
    · rintro ⟨braces, tail, hopens, hcloses⟩
      exact hopens.scan_isSome hcloses
  · intro braces tail hopens
    rw [hopens.findFrom_eq]
    cases hscan : Expression.scan c with
    | none => simp [readExpression_eq_none hscan]
    | some found =>
      obtain ⟨revision, hrevise⟩ := s.finishExpression_revise found.1
      rw [readExpression_of_scan hscan, hrevise]
      rfl
  · intro form text hrest
    have hform := hrest ▸ form.bracketed text
    have hsome : (readExpression c s).1.isSome = true := by
      rw [readExpression_isSome, hform.opens.scan_isSome (List.infix_append' _ _ _)]
    obtain ⟨⟨e, d⟩, hread⟩ := Option.isSome_iff_exists.mp hsome
    have hreads : readExpression c s = (some (e, d), (readExpression c s).2) :=
      Prod.ext hread rfl
    obtain ⟨hbraces, hbody, htext⟩ := (readExpression_readAt hreads).bracketed.unique hform
    exact ⟨e, d, _, hreads, hbraces, hbody, htext⟩

/-- Behind three braces the body goes on over two closing ones, and the first three of four end it. -/
theorem readExpression_bracketed_overlap :
    ∃ e d t, readExpression
        ((Cursor.ofText ['é', '{', '{', '{', 'ü', '}', '}', 'b', '}', '}', '}', '}', 'c']).advance 2)
        (Session.start {} () true) = (some (e, d), t) ∧
      e.braces = 3 ∧ e.raw.toList = ['ü', '}', '}', 'b'] ∧ d.1.rest = ['}', 'c'] := by
  have hform := (readExpression_bracketed
    ((Cursor.ofText ['é', '{', '{', '{', 'ü', '}', '}', 'b', '}', '}', '}', '}', 'c']).advance 2)
    (Session.start {} () true)).2.2.2.2
  exact hform ⟨3, ['ü', '}', '}', 'b'], by decide, by decide, by decide, by decide⟩ ['}', 'c'] rfl

end DataTemplate
