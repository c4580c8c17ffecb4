/-
One text under the four error policies.  Failing, stopping and reading as a string all take the run
that halts at the first problem; recovering takes the run that goes on.  Main statement:
`readDocument_policies`.
-/
import DataTemplate.Proofs.Lockstep

namespace DataTemplate

variable {σ : Type}

/-! ### The value of a document -/

theorem skipTrivia_lenient (c : Cursor) (s : Session σ) :
    skipTrivia c s.lenient = ((skipTrivia c s).1, (skipTrivia c s).2.lenient) := by
  fun_induction skipTrivia c s with
  | case1 c s hcomment =>
    rw [skipTrivia]
    split
    · rfl
    · rename_i d hd
      simp [hcomment] at hd
  | case2 c s d hd hlt e t hrest ih =>
    have hobserve : s.lenient.observeComment c.skipBlanks d.1 =
        (s.observeComment c.skipBlanks d.1).lenient := rfl
    rw [skipTrivia]
    split
    · rename_i hnone
      simp [hd] at hnone
    · rename_i d' hd'
      obtain rfl : d' = d := by simpa [hd] using hd'.symm
      simp only [hobserve, ih, hrest]

/-- A value that parts the runs is a string, an array or an object. -/
theorem readValue_composite {c : Cursor} {s t : Session σ} {value : Value} {d : c.After}
    (h : readValue c s = (some (value, d), t)) (hproblems : t.problems ≠ s.problems) :
    mayBeLoose (some value) = false := by
  have hread := readValue_read c s
  rw [h] at hread
  cases hread with
  | text => rfl
  | expression _ hexpression => exact absurd (readExpression_problems hexpression).1 hproblems
  | array _ _ hvalue => rw [hvalue]; rfl
  | object _ _ _ _ hvalue => rw [hvalue]; rfl
  | scalar => exact absurd rfl hproblems

theorem ErrorPolicy.eq_recover {policy : ErrorPolicy} (h : policy.halts = false) :
    policy = .recover := by
  cases policy <;> simp_all [halts]

section Recovering

variable (options : ReadOptions) (hooks : Hooks σ) (state : σ) (source : List Char)

theorem openDocument_haltOnProblem :
    (openDocument options hooks state source).2.haltOnProblem = options.onError.halts :=
  (Session.Grows.law.trivia (.ofText source)
    (Session.start hooks state options.onError.halts)).haltOnProblem_eq

theorem firstRoot_haltOnProblem :
    (firstRoot options hooks state source).2.haltOnProblem = options.onError.halts := by
  have hopened := openDocument_haltOnProblem options hooks state source
  have hread := firstRoot_read options hooks state source
  generalize firstRoot options hooks state source = root at hread ⊢
  cases hread with
  | empty | none => exact hopened
  | value hvalue => exact (readValue_grows hvalue).haltOnProblem_eq.trans hopened

/-- A composite value is kept, with its problems, if the reading went on after one. -/
theorem keeps_of_recovering
    (hrecovering : (firstRoot options hooks state source).2.Recovering)
    (hvalue : mayBeLoose (firstRoot options hooks state source).1.value = false) :
    options.onError = .recover ∧ rereads options hooks state source = false ∧
      notedSession options hooks state source = (firstRoot options hooks state source).2 := by
  have hpolicy : options.onError = .recover := ErrorPolicy.eq_recover
    ((firstRoot_haltOnProblem options hooks state source).symm.trans hrecovering.goes_on)
  have hkept : notedSession options hooks state source =
      (firstRoot options hooks state source).2 :=
    noteRemainder_of_problems options _ hrecovering.has_problem
  refine ⟨hpolicy, ?_, hkept⟩
  rw [rereads, hkept, wantsString]
  simp [Session.hasProblems, hrecovering.has_problem, hvalue, hpolicy]

/-- Opening a document leaves a fresh session but for its host. -/
theorem openDocument_session : ∃ after,
    (openDocument options hooks state source).2 =
      { Session.start hooks state options.onError.halts with state := after } :=
  skipTrivia_session _ _

/-- A law holds along the first reading, up to the end of the value.  A value in which the reading
goes on after a problem is never taken for a loose string. -/
theorem firstRoot_follows {R : Cursor → Session σ → Cursor → Session σ → Prop}
    (law : Session.Law R) : ∃ d t,
    R (.ofText source) (Session.start hooks state options.onError.halts) d t ∧
    (Session.start hooks state options.onError.halts).Grows t ∧
    (∃ problems, (firstRoot options hooks state source).2 = { t with problems := problems }) ∧
    (t.Recovering → (firstRoot options hooks state source).2 = t ∧
      mayBeLoose (firstRoot options hooks state source).1.value = false) := by
  have hopen : R (.ofText source) (Session.start hooks state options.onError.halts)
      (documentStart options hooks state source) (openDocument options hooks state source).2 :=
    law.trivia _ _
  have hgrows : (Session.start hooks state options.onError.halts).Grows
      (openDocument options hooks state source).2 := Session.Grows.law.trivia (.ofText source) _
  obtain ⟨after, hopened⟩ := openDocument_session options hooks state source
  have hnone : (openDocument options hooks state source).2.problems = #[] := by
    rw [hopened]
    rfl
  have hread := firstRoot_read options hooks state source
  generalize firstRoot options hooks state source = root at hread ⊢
  cases hread with
  | @empty value =>
    exact ⟨_, _, law.trans hopen (law.observe _ _ (.value value)), hgrows.trans (.observe _ _),
      ⟨_, rfl⟩, fun hrecovering => absurd hnone hrecovering.has_problem⟩
  | @value value d t hvalue hle =>
    refine ⟨_, _, law.trans hopen (law.value hvalue), hgrows.trans (readValue_grows hvalue),
      ⟨_, rfl⟩, fun hrecovering => ⟨rfl, ?_⟩⟩
    apply readValue_composite hvalue
    rw [hnone]
    exact hrecovering.has_problem
  | none =>
    exact ⟨_, _, hopen, hgrows, ⟨_, rfl⟩, fun hrecovering =>
      absurd hnone hrecovering.has_problem⟩

/-- A law holds along the first reading.  It goes on after a problem only under the policy that
recovers, and then the value is kept, with its problems. -/
theorem notedSession_follows {R : Cursor → Session σ → Cursor → Session σ → Prop}
    (law : Session.Law R) : ∃ d t,
    R (.ofText source) (Session.start hooks state options.onError.halts) d t ∧
    (Session.start hooks state options.onError.halts).Grows t ∧
    (∃ problems, notedSession options hooks state source = { t with problems := problems }) ∧
    (t.Recovering → options.onError = .recover ∧ rereads options hooks state source = false ∧
      (notedSession options hooks state source).problems ≠ #[]) := by
  obtain ⟨d, t, hlaw, hgrows, ⟨problems, hroot⟩, hrecovers⟩ :=
    firstRoot_follows options hooks state source law
  have hnoted : notedSession options hooks state source =
      noteRemainder options (firstRoot options hooks state source).1
        (firstRoot options hooks state source).2 := rfl
  refine ⟨d, t, hlaw, hgrows, ?_, ?_⟩
  · rcases noteRemainder_cases options (firstRoot options hooks state source).1
      (firstRoot options hooks state source).2 with hsame | ⟨position, hpush⟩
    · exact ⟨problems, by rw [hnoted, hsame, hroot]⟩
    · exact ⟨_, by rw [hnoted, hpush, hroot]; rfl⟩
  · intro hrecovering
    obtain ⟨hsame, hloose⟩ := hrecovers hrecovering
    obtain ⟨hpolicy, hkeeps, hkept⟩ := keeps_of_recovering options hooks state source
      (hsame ▸ hrecovering) hloose
    refine ⟨hpolicy, hkeeps, ?_⟩
    rw [hkept, hsame]
    exact hrecovering.has_problem

end Recovering

/-- How the two runs of a document compare after its value: they agree, with at most one problem that
halted nothing, or they have parted in a composite value. -/
inductive RootRuns {c : Cursor} (x y : Root c × Session σ) : Prop
  | same (hsame : y = (x.1, x.2.lenient)) (hgoing : x.2.halted = false)
      (hfew : x.2.problems.size ≤ 1)
  | parted (h : x.2.Parted y.2) (hx : mayBeLoose x.1.value = false)
      (hy : mayBeLoose y.1.value = false)

theorem readRoot_runs (emptyInput : EmptyInput) (c : Cursor) {s : Session σ} (h : s.Clean) :
    RootRuns (readRoot emptyInput c s) (readRoot emptyInput c s.lenient) := by
  have hquiet : QuietReader (σ := σ) (readValue c) :=
    fun _ hnone => readValue_none (Prod.ext hnone rfl)
  unfold readRoot
  split
  · exact .same rfl h.going (by simp [Session.observe, h.none_met])
  · rcases (readValue_runs c).found hquiet h with
      ⟨⟨value, d⟩, t, hx, hy, hclean⟩ | ⟨hx, hy⟩ | ⟨⟨value, d⟩, t, ⟨value', d'⟩, u, hx, hy, hparted⟩
    · rw [hx, hy]
      exact .same rfl hclean.going (by simp [hclean.none_met])
    · rw [hx, hy]
      exact .same rfl h.going (by simp [Session.push, h.none_met])
    · obtain ⟨problem, hproblems, hfirst⟩ := hparted.first
      rw [hx, hy]
      refine .parted hparted (readValue_composite hx ?_) (readValue_composite hy ?_)
      · simp [hproblems, h.none_met]
      · intro heq
        simp [heq, Session.lenient, h.none_met] at hfirst

/-! ### Conclusions -/

/-- The document whose value is kept. -/
def keptDocument {c : Cursor} (root : Root c) (s : Session σ) : Document where
  root := root.value
  expressions := s.expressions.toList
  start := c.position
  stop := (root.value.map (·.span.stop)).getD c.position
  problems := s.problems.toList
  readAsString := false

/-- The document that is read as a string. -/
def stringDocument (c : Cursor) (s : Session σ) : Document :=
  let (text, _, s) := readTextContent none c c s.clearProblems.restartExpressions
  { root := some (.text text)
    expressions := s.expressions.toList
    start := c.position
    stop := text.span.stop
    problems := []
    readAsString := true }

/-- What comes out of a document by what was read first. -/
def concludeDocument (options : ReadOptions) {c : Cursor} (root : Root c) (s : Session σ) :
    Except Problem Document :=
  let s := noteRemainder options root s
  if wantsString options root s then .ok (stringDocument c s)
  else
    match if options.onError = .fail then s.problems[0]? else none with
    | some problem => .error problem
    | none => .ok (keptDocument root s)

/-- What comes out of a document by the place and the session after its leading trivia. -/
def concludeFrom (options : ReadOptions) (opened : Cursor × Session σ) : Except Problem Document :=
  let (root, s) := readRoot options.emptyInput opened.1 opened.2
  concludeDocument options root s

theorem readDocument_eq_conclude (options : ReadOptions) (hooks : Hooks σ) (state : σ)
    (source : List Char) : (readDocument options hooks state source).1 =
      concludeFrom options (openDocument options hooks state source) := by
  change _ = concludeDocument options (firstRoot options hooks state source).1
    (firstRoot options hooks state source).2
  have hnoted : noteRemainder options (firstRoot options hooks state source).1
      (firstRoot options hooks state source).2 = notedSession options hooks state source := rfl
  have hwants : wantsString options (firstRoot options hooks state source).1
      (notedSession options hooks state source) = rereads options hooks state source := rfl
  rw [readDocument_eq, finalReading]
  dsimp only [concludeDocument]
  rw [hnoted, hwants]
  cases rereads options hooks state source with
  | true =>
    have hproblems := (rereadText_spec options hooks state source).2.2
    simp only [if_true, hproblems]
    split
    · rename_i hproblem
      split at hproblem <;> simp at hproblem
    · rfl
  | false =>
    simp only [Bool.false_eq_true, if_false]
    generalize (if options.onError = .fail then
      (notedSession options hooks state source).problems[0]? else none) = failure
    cases failure <;> rfl

/-! ### The four policies -/

section Policies

variable (options : ReadOptions)

/-- The same options under another error policy. -/
def ReadOptions.under (policy : ErrorPolicy) : ReadOptions := { options with onError := policy }

variable {c : Cursor}

theorem stringDocument_lenient (c : Cursor) (s : Session σ) :
    stringDocument c s.lenient = stringDocument c s := by
  have hclosed := (readContent_unquoted c c s.clearProblems.restartExpressions).1
  have hlenient : s.lenient.clearProblems.restartExpressions =
      s.clearProblems.restartExpressions.lenient := rfl
  simp only [stringDocument, readTextContent, finishText, hlenient, readContent_lenient, hclosed]
  rfl

theorem noteRemainder_lenient (root : Root c) (s : Session σ) :
    noteRemainder options root s.lenient = (noteRemainder options root s).lenient := by
  unfold noteRemainder
  dsimp only
  rw [show s.lenient.hasProblems = s.hasProblems from rfl]
  split <;> rfl

theorem noteRemainder_few (root : Root c) {s : Session σ} (h : s.problems.size ≤ 1) :
    (noteRemainder options root s).problems.size ≤ 1 := by
  unfold noteRemainder
  dsimp only
  split
  · rename_i hnote
    have hnone : s.problems = #[] := by
      simp only [Bool.and_eq_true, Session.hasProblems] at hnote
      simpa using hnote.1.1.1
    simp [Session.push, hnone]
  · exact h

/-- How the outcomes under the four policies compare: all are one document without problems, or each
policy has its own way with the first problem. -/
inductive Verdict (sourceLength : Nat) (run : ErrorPolicy → Except Problem Document) : Prop
  | agree (document : Document) (hclean : document.problems = [])
      (hrun : ∀ policy, run policy = .ok document)
  | differ {problem : Problem} {stopped recovered string : Document} {text : Text}
      (hfail : run .fail = .error problem) (hstop : run .stop = .ok stopped)
      (hstopped : stopped.problems = [problem]) (hrecover : run .recover = .ok recovered)
      (hrecovered : recovered.problems.head? = some problem) (hstring : run .asString = .ok string)
      (hclean : string.problems = []) (hroot : string.root = some (.text text))
      (hquote : text.quote = none) (hspan : text.span = ⟨string.start, sourceLength⟩)

section Conclude

variable (policy : ErrorPolicy) {root : Root c} {s : Session σ}

theorem concludeDocument_string
    (h : wantsString (options.under policy) root (noteRemainder options root s) = true) :
    concludeDocument (options.under policy) root s =
      .ok (stringDocument c (noteRemainder options root s)) := if_pos h

theorem concludeDocument_kept
    (h : wantsString (options.under policy) root (noteRemainder options root s) = false)
    (hpolicy : policy = .fail → (noteRemainder options root s).problems = #[]) :
    concludeDocument (options.under policy) root s =
      .ok (keptDocument root (noteRemainder options root s)) := by
  have hnote : noteRemainder (options.under policy) root s = noteRemainder options root s := rfl
  unfold concludeDocument
  dsimp only
  rw [hnote, h, if_neg (by simp)]
  split
  · rename_i hproblem
    split at hproblem
    · rw [hpolicy ‹_›] at hproblem
      simp at hproblem
    · simp at hproblem
  · rfl

theorem concludeDocument_fail {problem : Problem}
    (h : wantsString (options.under .fail) root (noteRemainder options root s) = false)
    (hproblem : (noteRemainder options root s).problems[0]? = some problem) :
    concludeDocument (options.under .fail) root s = .error problem := by
  have hnote : noteRemainder (options.under .fail) root s = noteRemainder options root s := rfl
  have hpolicy : (options.under .fail).onError = .fail := rfl
  unfold concludeDocument
  dsimp only
  rw [hnote, h, if_neg (by simp), if_pos hpolicy, hproblem]

/-- Whether a document with problems is read as a string depends on the policy only if it is not
loose. -/
theorem wantsString_of_problems (h : s.hasProblems = true) :
    wantsString (options.under policy) root s =
      (options.loose && mayBeLoose root.value || policy == .asString) := by
  unfold wantsString
  dsimp only
  rw [if_pos h]
  rfl

theorem wantsString_of_clean (h : s.hasProblems = false) :
    wantsString (options.under policy) root s =
      (isExpression root.value && !root.after.1.atEnd) := by
  unfold wantsString
  dsimp only
  rw [if_neg (by simp [h])]

end Conclude

/-- The first problem decides: every policy has its own way with it, unless the document is loose. -/
theorem Verdict.of_problem {x y : Root c} {s t : Session σ} {problem : Problem}
    (hx : (options.loose && mayBeLoose x.value) = false)
    (hy : (options.loose && mayBeLoose y.value) = false)
    (hs : (noteRemainder options x s).problems = #[problem])
    (ht : (noteRemainder options y t).problems[0]? = some problem) :
    Verdict c.sourceLength fun policy =>
      if policy.halts then concludeDocument (options.under policy) x s
      else concludeDocument (options.under policy) y t := by
  have hsproblems : (noteRemainder options x s).hasProblems = true := by
    simp [Session.hasProblems, hs]
  have htproblems : (noteRemainder options y t).hasProblems = true := by
    have hne : (noteRemainder options y t).problems ≠ #[] := by
      rintro heq
      simp [heq] at ht
    simpa [Session.hasProblems] using hne
  obtain ⟨hspan, hquote, -, -⟩ := readTextContent_unquoted c
    (noteRemainder options x s).clearProblems.restartExpressions
  have hfail := concludeDocument_fail options (s := s)
    (by rw [wantsString_of_problems options _ hsproblems, hx]; rfl) (by rw [hs]; rfl)
  have hstop := concludeDocument_kept options .stop (s := s)
    (by rw [wantsString_of_problems options _ hsproblems, hx]; rfl) (by simp)
  have hrecover := concludeDocument_kept options .recover (s := t)
    (by rw [wantsString_of_problems options _ htproblems, hy]; rfl) (by simp)
  have hstring := concludeDocument_string options .asString (s := s)
    (by rw [wantsString_of_problems options _ hsproblems, hx]; rfl)
  refine .differ hfail hstop ?_ hrecover ?_ hstring rfl rfl hquote hspan
  · simp [keptDocument, hs]
  · simpa [keptDocument, Array.getElem?_toList, List.head?_eq_getElem?] using ht

/-- A text that is read as a string under every policy is the same string under all. -/
theorem Verdict.of_string {root : Root c} {s : Session σ}
    (h : ∀ policy, wantsString (options.under policy) root (noteRemainder options root s) = true) :
    Verdict c.sourceLength fun policy =>
      if policy.halts then concludeDocument (options.under policy) root s
      else concludeDocument (options.under policy) root s.lenient := by
  refine .agree (stringDocument c (noteRemainder options root s)) rfl ?_
  intro policy
  have hlenient := noteRemainder_lenient options root s
  split
  · exact concludeDocument_string options policy (h policy)
  · rw [concludeDocument_string options policy (by rw [hlenient]; exact h policy), hlenient,
      stringDocument_lenient]

/-- A text without problems that is no string under any policy is the same under all. -/
theorem Verdict.of_kept {root : Root c} {s : Session σ}
    (h : ∀ policy, wantsString (options.under policy) root (noteRemainder options root s) = false)
    (hclean : (noteRemainder options root s).problems = #[]) :
    Verdict c.sourceLength fun policy =>
      if policy.halts then concludeDocument (options.under policy) root s
      else concludeDocument (options.under policy) root s.lenient := by
  have hproblems : (keptDocument root (noteRemainder options root s)).problems = [] := by
    simp [keptDocument, hclean]
  refine .agree _ hproblems ?_
  intro policy
  have hlenient := noteRemainder_lenient options root s
  split
  · exact concludeDocument_kept options policy (h policy) fun _ => hclean
  · rw [concludeDocument_kept options policy (by rw [hlenient]; exact h policy)
      fun _ => by rw [hlenient]; exact hclean, hlenient]
    rfl

theorem conclude_verdict {x y : Root c × Session σ} (h : RootRuns x y) :
    Verdict c.sourceLength fun policy =>
      if policy.halts then concludeDocument (options.under policy) x.1 x.2
      else concludeDocument (options.under policy) y.1 y.2 := by
  cases h with
  | parted hparted hx hy =>
    obtain ⟨problem, hproblems, hfirst⟩ := hparted.first
    have hxproblems : x.2.problems ≠ #[] := by simp [hproblems]
    have hyproblems : y.2.problems ≠ #[] := by
      rintro heq
      simp [heq] at hfirst
    rw [← noteRemainder_of_problems options x.1 hxproblems] at hproblems
    rw [← noteRemainder_of_problems options y.1 hyproblems] at hfirst
    exact .of_problem options (by rw [hx, Bool.and_false]) (by rw [hy, Bool.and_false]) hproblems
      hfirst
  | same hsame hgoing hfew =>
    obtain ⟨root, s⟩ := x
    subst hsame
    have hlenient := noteRemainder_lenient options root s
    cases hproblems : (noteRemainder options root s).hasProblems with
    | false =>
      have hclean : (noteRemainder options root s).problems = #[] := by
        simpa [Session.hasProblems] using hproblems
      cases hwants : isExpression root.value && !root.after.1.atEnd with
      | true =>
        refine .of_string options fun policy => ?_
        rw [wantsString_of_clean options policy hproblems, hwants]
      | false =>
        refine .of_kept options (fun policy => ?_) hclean
        rw [wantsString_of_clean options policy hproblems, hwants]
    | true =>
      cases hloose : options.loose && mayBeLoose root.value with
      | true =>
        refine .of_string options fun policy => ?_
        rw [wantsString_of_problems options policy hproblems, hloose, Bool.true_or]
      | false =>
        have hfew := noteRemainder_few options root hfew
        have hmet : 0 < (noteRemainder options root s).problems.size := by
          simpa [Session.hasProblems, Array.size_pos_iff] using hproblems
        obtain ⟨problem, hone⟩ := Array.size_eq_one_iff.mp (Nat.le_antisymm hfew hmet)
        exact .of_problem options hloose hloose hone (by rw [hlenient, Session.lenient, hone]; rfl)

end Policies

/-! ### Documents -/

section Documents

variable (options : ReadOptions) (hooks : Hooks σ) (state : σ) (source : List Char)

theorem skipTrivia_clean (c : Cursor) {s : Session σ} (h : s.Clean) : (skipTrivia c s).2.Clean := by
  obtain ⟨state, hs⟩ := skipTrivia_session c s
  rw [hs]
  exact ⟨h.halts, h.going, h.none_met⟩

/-- Under every policy that halts, a document opens in the same way. -/
theorem openDocument_of_halts {policy : ErrorPolicy} (h : policy.halts = true) :
    openDocument (options.under policy) hooks state source =
      openDocument (options.under .stop) hooks state source := by
  have hhalts : (options.under policy).onError.halts = (options.under .stop).onError.halts := h
  rw [openDocument, hhalts, openDocument]

/-- Under the policy that goes on, it opens leniently. -/
theorem openDocument_recover :
    openDocument (options.under .recover) hooks state source =
      ((openDocument (options.under .stop) hooks state source).1,
        (openDocument (options.under .stop) hooks state source).2.lenient) := by
  have hstart : Session.start hooks state (options.under .recover).onError.halts =
      (Session.start hooks state (options.under .stop).onError.halts).lenient := rfl
  rw [openDocument, hstart, skipTrivia_lenient]
  rfl

theorem readDocument_verdict :
    Verdict (byteLength source) fun policy =>
      (readDocument (options.under policy) hooks state source).1 := by
  have hclean : (openDocument (options.under .stop) hooks state source).2.Clean :=
    skipTrivia_clean _ ⟨rfl, rfl, rfl⟩
  have hsource := documentStart_source (options.under .stop) hooks state source
  have hverdict := conclude_verdict options (readRoot_runs options.emptyInput
    (openDocument (options.under .stop) hooks state source).1 hclean)
  rw [Cursor.sourceLength_eq, ← documentStart, hsource] at hverdict
  refine (congrArg (Verdict (byteLength source)) (funext fun policy => ?_)).mpr hverdict
  rw [readDocument_eq_conclude]
  split
  · rw [openDocument_of_halts options hooks state source ‹_›]
    rfl
  · rename_i hgoes
    obtain rfl : policy = .recover := by
      revert hgoes
      cases policy <;> decide
    rw [openDocument_recover]
    rfl

end Documents

/-- What holds of the outcomes of one text of `sourceLength` bytes under the four policies. -/
structure PoliciesAgree (sourceLength : Nat) (run : ErrorPolicy → Except Problem Document) : Prop where
  fail_iff_stop : ∀ problem, run .fail = .error problem ↔
    ∃ document, run .stop = .ok document ∧ document.problems = [problem]
  fail_iff_recover : ∀ problem, run .fail = .error problem ↔
    ∃ document, run .recover = .ok document ∧ document.problems.head? = some problem
  stop_problems : ∀ document, run .stop = .ok document → document.problems.length ≤ 1
  only_fail : ∀ policy problem, run policy = .error problem → policy = .fail
  of_no_problem : ∀ document, run .recover = .ok document → document.problems = [] →
    ∀ policy, run policy = .ok document
  of_problem : ∀ document, run .recover = .ok document → document.problems ≠ [] →
    ∃ string text, run .asString = .ok string ∧ string.problems = [] ∧
      string.root = some (.text text) ∧ text.quote = none ∧
      text.span = ⟨string.start, sourceLength⟩

theorem Verdict.policiesAgree {sourceLength : Nat} {run : ErrorPolicy → Except Problem Document}
    (h : Verdict sourceLength run) : PoliciesAgree sourceLength run := by
  cases h with
  | agree document hclean hrun =>
    constructor
    · simp [hrun, hclean]
    · simp [hrun, hclean]
    · simp [hrun, hclean]
    · simp [hrun]
    · simp [hrun]
    · simp [hrun, hclean]
  | differ hfail hstop hstopped hrecover hrecovered hstring hclean hroot hquote hspan =>
    constructor
    · simp [hfail, hstop, hstopped]
    · simp [hfail, hrecover, hrecovered]
    · simp [hstop, hstopped]
    · intro policy problem hrun
      cases policy with
      | fail => rfl
      | stop => simp [hstop] at hrun
      | recover => simp [hrecover] at hrun
      | asString => simp [hstring] at hrun
    · intro document hrun hnone
      obtain rfl := Except.ok.inj (hrecover.symm.trans hrun)
      simp [hnone] at hrecovered
    · intro _ _ _
      exact ⟨_, _, hstring, hclean, hroot, hquote, hspan⟩

/-- The four policies agree on every text, whatever the other options. -/
theorem readDocument_policies (options : ReadOptions) (hooks : Hooks σ) (state : σ)
    (source : List Char) :
    PoliciesAgree (byteLength source) fun policy =>
      (readDocument { options with onError := policy } hooks state source).1 :=
  (readDocument_verdict options hooks state source).policiesAgree

end DataTemplate
