/-
What an observer is told.  A host that writes down the nodes it is told of shows what a reading
reports, and when.  A reading without problems reports the nodes of its tree as they are completed,
with comments in between, and nothing else.  Main statements: `readValue_tells` and
`readDocument_observes`.
-/
import DataTemplate.Proofs.Detached
import DataTemplate.Proofs.Reports
import DataTemplate.Proofs.Tiling

namespace DataTemplate

variable {σ : Type} {n : Nat}

/-! ### A host that writes down what it is told -/

/-- A host that does as before, and writes down the nodes it is told of. -/
def Hooks.observing (hooks : Hooks σ) : Hooks (σ × List Node) where
  revise state e :=
    let (answer, next) := hooks.revise state.1 e
    (answer, next, state.2)
  observe state node := (hooks.observe state.1 node, state.2 ++ [node])

/-- The nodes of a log that are no comments. -/
def withoutComments (log : List Node) : List Node := log.filter fun node => node.kind != .comment

theorem Value.kind_ne_comment (value : Value) : value.kind ≠ .comment := by
  cases value with
  | scalar s => cases hmeaning : s.meaning <;> simp [kind, Meaning.kind, hmeaning]
  | expression | text | array | object => simp [kind]

namespace Session

/-- A first reading with a host that writes down what it is told. -/
structure Watched (s : Session (σ × List Node)) : Prop where
  observing : ∃ hooks : Hooks σ, s.hooks = hooks.observing
  first : s.handled = #[]

theorem Watched.of_grows {s t : Session (σ × List Node)} (hs : s.Watched) (h : s.Grows t) :
    t.Watched :=
  ⟨h.hooks_eq ▸ hs.observing, h.handled_eq.trans hs.first⟩

/-- Between two moments the host is told of `nodes`, and of comments. -/
def Tells (s t : Session (σ × List Node)) (nodes : List Node) : Prop :=
  withoutComments t.state.2 = withoutComments s.state.2 ++ nodes

variable {s t u : Session (σ × List Node)} {nodes others : List Node}

theorem Tells.of_state (h : t.state = s.state) : s.Tells t [] := by
  rw [Tells, h, List.append_nil]

theorem Tells.trans (h : s.Tells t nodes) (k : t.Tells u others) : s.Tells u (nodes ++ others) := by
  rw [Tells, k, h, List.append_assoc]

theorem Watched.observe (hs : s.Watched) (node : Node) :
    s.Tells (s.observe node) (withoutComments [node]) := by
  obtain ⟨hooks, hhooks⟩ := hs.observing
  rw [Tells, Session.observe, hhooks]
  exact List.filter_append _ _

theorem Watched.observe_value (hs : s.Watched) (value : Value) :
    s.Tells (s.observe (.value value)) [.value value] := by
  have hkept : withoutComments [.value value] = [.value value] := by
    simp [withoutComments, Node.kind, value.kind_ne_comment]
  exact hkept ▸ hs.observe (.value value)

theorem Watched.observeComment (hs : s.Watched) (c d : Cursor) :
    s.Tells (s.observeComment c d) [] := hs.observe (.comment _)

theorem commit_state (s : Session σ) (cause : Cause) (position : Nat) :
    (s.commit cause position).state = s.state := by
  unfold commit
  split <;> rfl

theorem commitUnclosed_state (s : Session σ) (closed : Bool) (cause : Cause) (position : Nat) :
    (s.commitUnclosed closed cause position).state = s.state := by
  unfold commitUnclosed
  split
  · rfl
  · exact commit_state _ _ _

/-- An expression that no earlier scan has met is reported once the host has been asked about it. -/
theorem Watched.finishExpression (hs : s.Watched) (e : Expression) :
    s.Tells (s.finishExpression e).2 [.value (.expression (s.finishExpression e).1)] := by
  obtain ⟨hooks, hhooks⟩ := hs.observing
  have hfirst : s.handled.find? (fun earlier => earlier.bodySpan == e.bodySpan) = none := by
    rw [hs.first]
    rfl
  have hasked : ((s.ask e).2.record (s.ask e).1).Watched := hs.of_grows
    ((Grows.ask s e).trans (.record _ _))
  have hquiet : s.Tells ((s.ask e).2.record (s.ask e).1) [] := by
    rw [Tells, record, ask, hhooks, List.append_nil]
    rfl
  unfold Session.finishExpression
  rw [hfirst]
  exact hquiet.trans (hasked.observe _)

end Session

/-! ### Leaves and strings -/

section Leaves

variable {c : Cursor} {s t : Session (σ × List Node)}

theorem readExpression_tells {e : Expression} {d : c.After} (hs : s.Watched)
    (h : readExpression c s = (some (e, d), t)) : s.Tells t [.value (.expression e)] := by
  obtain ⟨scanned, -, hfinish⟩ := readExpression_some h
  have htells := hs.finishExpression scanned
  rwa [hfinish] at htells

theorem readContent_tells (quote : Option Quote) (segment c : Cursor) (hs : s.Watched) :
    s.Tells (readContent quote segment c s).2.2
      (contentReports (readContent quote segment c s).1.first
        (readContent quote segment c s).1.more) := by
  fun_induction readContent quote segment c s with
  | case1 => exact hs.observe _
  | case2 segment c s hit hfind hneedle t hread hlt content d u hrest ih =>
    obtain ⟨-, rfl⟩ := readExpression_none hread
    rw [hrest] at ih
    exact ih hs
  | case3 segment c s hit hfind hneedle e after t hread hlt first content d u hrest ih =>
    have ht := hs.of_grows (Session.Grows.law.expression hread)
    have hsegment := ht.observe (.segment first)
    rw [hrest] at ih
    exact ((readExpression_tells hs hread).trans hsegment).trans (ih (ht.of_grows (.observe t _)))
  | case4 => exact hs.observe _

theorem finishText_tells {quote : Option Quote} {d : Cursor} {content : Content} {text : Text}
    (hs : s.Watched) (h : finishText quote c d content s = (text, t)) :
    text.first = content.first ∧ text.more = content.more ∧
      s.Tells t [.value (.text text)] := by
  have hcommitted : (if content.closed then s else s.commit .unclosedString c.sourceLength).state =
      s.state := by
    split
    · rfl
    · exact s.commit_state _ _
  have hwatched : (if content.closed then s else
      s.commit .unclosedString c.sourceLength).Watched := by
    split
    · exact hs
    · exact hs.of_grows (.commit s _ _)
  unfold finishText at h
  obtain ⟨rfl, rfl⟩ := Prod.mk.inj h
  exact ⟨rfl, rfl, (Session.Tells.of_state hcommitted).trans (hwatched.observe _)⟩

theorem readText_tells {text : Text} {d : c.After} (hs : s.Watched)
    (h : readText c s = (some (text, d), t)) : s.Tells t text.reports := by
  have hread := readText_read c s
  rw [h] at hread
  cases hread with
  | @static quote raw _ _ _ _ _ _ hfinish =>
    have hsegment := hs.observe (.segment (staticContent c d.1 raw).first)
    have hwatched := hs.of_grows (.observe s (.segment (staticContent c d.1 raw).first))
    obtain ⟨hfirst, hmore, htext⟩ := finishText_tells hwatched hfinish
    rw [Text.reports, hfirst, hmore]
    exact hsegment.trans htext
  | @content quote inner content d text u _ _ hinner hcontent hfinish =>
    have htells := readContent_tells (some quote) inner inner hs
    have hgrows := Session.Grows.law.content (some quote) inner inner s
    rw [hcontent] at htells hgrows
    obtain ⟨hfirst, hmore, htext⟩ := finishText_tells (hs.of_grows hgrows) hfinish
    rw [Text.reports, hfirst, hmore]
    exact htells.trans htext

theorem readKey_tells {key : Key} {d : c.After} (hs : s.Watched)
    (h : readKey c s = (some (key, d), t)) : s.Tells t key.reports := by
  have hread := readKey_read c s
  rw [h] at hread
  cases hread with
  | text h => exact readText_tells hs h
  | expression _ h => exact readExpression_tells hs h
  | identifier => exact hs.observe _

end Leaves

/-! ### Arrays -/

/-- A rule reports the nodes of the values that it reads without a problem. -/
def ValueRule.Tells (rule : ValueRule (σ × List Node) n) : Prop :=
  ∀ ⦃c hc s value d t⦄, rule c hc s = (some (value, d), t) → s.Watched → t.Unbroken →
    s.Tells t value.reports

section Rounds

variable {rule : ValueRule (σ × List Node) n} {c : Cursor} {hc : c.rest.length < n}
  {first s : Session (σ × List Node)}

/-- While no problem is met, what was reported since the array began are the nodes of its values. -/
structure SlotDraft.TellsFrom (first : Session (σ × List Node)) (draft : SlotDraft)
    (s : Session (σ × List Node)) : Prop where
  watched : s.Watched
  told : s.Unbroken → first.Tells s ((slotValues draft.slots).flatMap Value.reports)

theorem SlotRound.tells (hgrows : rule.Grows) (htells : rule.Tells) {draft : SlotDraft}
    {round : Round (σ × List Node) SlotDraft c} (hround : SlotRound rule c hc draft s round)
    (h : draft.TellsFrom first s) : round.outcome.2.TellsFrom first round.session := by
  have hgrow : s.Grows round.session := Session.Grows.law.slotRound hgrows hround
  refine ⟨h.watched.of_grows hgrow, fun ht => ?_⟩
  have hbefore := h.told (ht.of_grows hgrow)
  cases hround with
  | ended | closed => exact hbefore
  | comma => simpa [SlotDraft.values_comma] using hbefore
  | comment => simpa using hbefore.trans (h.watched.observeComment c _)
  | value _ hopen hvalue =>
    have hvalues := hbefore.trans (htells hvalue h.watched ht)
    simpa [SlotDraft.values_fill hopen] using hvalues
  | halt | recover => exact absurd ht (Session.Unbroken.not_commit _ _ _)

theorem readSlots_tells (hquiet : rule.Quiet) (hgrows : rule.Grows) (htells : rule.Tells)
    (hc : c.rest.length < n) (hs : s.Watched)
    (ht : (readSlots rule c hc {} s).2.2.2.Unbroken) :
    s.Tells (readSlots rule c hc {} s).2.2.2
      ((slotValues (readSlots rule c hc {} s).2.1.slots).flatMap Value.reports) := by
  have hstart : SlotDraft.TellsFrom s {} s :=
    ⟨hs, fun _ => by simpa [slotValues, SlotDraft.slots] using Session.Tells.of_state rfl⟩
  rw [readSlots_eq_rounds] at ht ⊢
  refine (rounds_invariant (slotStep rule) (fun _ draft t => draft.TellsFrom s t)
    (fun _ _ _ h => h) ?_ hc {} s hstart).told ht
  intro c hc draft t h
  exact (slotStep_round hquiet c hc draft t).tells hgrows htells h

/-! ### Objects -/

namespace PropertyDraft

/-- What was reported of an object under construction: the property being built is not complete. -/
def reports (draft : PropertyDraft) : List Node := propertyReports none draft.properties

theorem reports_modify {draft : PropertyDraft} {f : Property Value → Property Value}
    {p : Property Value} {more : List Node} (hcurrent : draft.current = some p)
    (hkey : (f p).key = p.key) (hvalue : (f p).valueReports = p.valueReports ++ more) :
    (draft.modify f).reports = draft.reports ++ more := by
  simp [reports, properties, modify, hcurrent, propertyReports_concat, hkey, hvalue]

/-- While no problem is met, an object builds its last property, and what was reported since it
began are the nodes of its properties. -/
structure ToldFrom (first : Session (σ × List Node)) (draft : PropertyDraft)
    (s : Session (σ × List Node)) : Prop where
  started : draft.current = none → draft.finished = #[] ∧ draft.awaited = .keyOrEnd
  told : first.Tells s draft.reports

/-- The same, as it holds of every round. -/
structure TellsFrom (first : Session (σ × List Node)) (draft : PropertyDraft)
    (s : Session (σ × List Node)) : Prop where
  watched : s.Watched
  lacks : draft.Lacks
  told : s.Unbroken → draft.ToldFrom first s

variable {draft : PropertyDraft} {t : Session (σ × List Node)}

theorem ToldFrom.getLast? (h : draft.ToldFrom first s) :
    draft.properties.getLast? = draft.current := by
  cases hcurrent : draft.current with
  | none => simp [properties, hcurrent, (h.started hcurrent).1]
  | some p => simp [properties, hcurrent]

theorem ToldFrom.exists_current (h : draft.ToldFrom first s)
    (hawaited : draft.awaited ≠ .keyOrEnd) : ∃ p, draft.current = some p := by
  cases hcurrent : draft.current with
  | none => exact absurd (h.started hcurrent).2 hawaited
  | some p => exact ⟨p, rfl⟩

/-- The property being built is reported when it is finished. -/
theorem flush_tells (draft : PropertyDraft) (hs : s.Watched) :
    s.Tells (draft.flush s).2 (propertyNode draft.current) := by
  cases hcurrent : draft.current with
  | none =>
    simp only [flush, hcurrent]
    exact Session.Tells.of_state rfl
  | some p =>
    simp only [flush, hcurrent]
    exact hs.observe _

theorem ToldFrom.begin (h : draft.ToldFrom first s) (hs : s.Watched) {key : Key} {d : c.After}
    (hkey : readKey c s = (some (key, d), t)) :
    (draft.begin key t).1.ToldFrom first (draft.begin key t).2 where
  started hcurrent := by simp [PropertyDraft.begin] at hcurrent
  told := by
    have hkeyed := h.told.trans (readKey_tells hs hkey)
    have hflushed := hkeyed.trans
      (draft.flush_tells (hs.of_grows (Session.Grows.law.key hkey)))
    rw [reports, properties_begin, propertyReports_concat, Option.or_none, h.getLast?]
    rw [List.append_assoc] at hflushed
    simpa [Property.valueReports] using! hflushed

theorem ToldFrom.modify (h : draft.ToldFrom first s) {f : Property Value → Property Value}
    {awaited : Awaited} {more : List Node} (hmore : s.Tells t more)
    (hcurrent : ∃ p, draft.current = some p ∧ (f p).key = p.key ∧
      (f p).valueReports = p.valueReports ++ more) :
    ToldFrom first { draft.modify f with awaited := awaited } t where
  started hnone := by
    obtain ⟨p, hp, -⟩ := hcurrent
    simp [PropertyDraft.modify, hp] at hnone
  told := by
    obtain ⟨p, hp, hkey, hvalue⟩ := hcurrent
    have hreports := reports_modify hp hkey hvalue
    rw [reports] at hreports
    rw [reports]
    exact hreports ▸ h.told.trans hmore

end PropertyDraft

theorem PropertyRound.tells (hgrows : rule.Grows) (htells : rule.Tells) {draft : PropertyDraft}
    {round : Round (σ × List Node) PropertyDraft c}
    (hround : PropertyRound rule c hc draft s round) (h : draft.TellsFrom first s) :
    round.outcome.2.TellsFrom first round.session := by
  have hgrow : s.Grows round.session := Session.Grows.law.propertyRound hgrows hround
  refine ⟨h.watched.of_grows hgrow, hround.lacks h.lacks, fun ht => ?_⟩
  have hbefore := h.told (ht.of_grows hgrow)
  have hquiet : s.Tells s [] := Session.Tells.of_state rfl
  cases hround with
  | ended | closed => exact hbefore
  | comment =>
    refine ⟨hbefore.started, ?_⟩
    simpa using hbefore.told.trans (h.watched.observeComment c _)
  | key _ hkey => exact hbefore.begin h.watched hkey
  | colon hawaited =>
    obtain ⟨p, hp⟩ := hbefore.exists_current (by simp [hawaited])
    exact hbefore.modify hquiet ⟨p, hp, rfl, (List.append_nil _).symm⟩
  | value _ hawaited hvalue =>
    obtain ⟨p, hp⟩ := hbefore.exists_current (by simp [hawaited])
    refine hbefore.modify (htells hvalue h.watched ht) ⟨p, hp, rfl, ?_⟩
    simp [Property.valueReports, (h.lacks.of_value hawaited p hp).1]
  | comma hawaited =>
    obtain ⟨p, hp⟩ := hbefore.exists_current (by simp [hawaited])
    exact hbefore.modify hquiet ⟨p, hp, rfl, (List.append_nil _).symm⟩
  | halt => exact absurd ht (Session.Unbroken.not_commit _ _ _)
  | recover _ hgo hround =>
    exact absurd (ht.of_grows (hround.grows (Session.commit_recovering hgo)))
      (Session.Unbroken.not_commit _ _ _)

theorem readProperties_tells (hquiet : rule.Quiet) (hgrows : rule.Grows) (htells : rule.Tells)
    (hc : c.rest.length < n) (hs : s.Watched)
    (ht : (readProperties rule c hc {} s).2.2.2.Unbroken) :
    (readProperties rule c hc {} s).2.1.ToldFrom s (readProperties rule c hc {} s).2.2.2 := by
  have hstart : PropertyDraft.TellsFrom s {} s := by
    refine ⟨hs, by simp [PropertyDraft.Lacks], fun _ => ⟨fun _ => ⟨rfl, rfl⟩, ?_⟩⟩
    simpa [PropertyDraft.reports, PropertyDraft.properties, propertyReports] using
      Session.Tells.of_state (s := s) rfl
  rw [readProperties_eq_rounds] at ht ⊢
  refine (rounds_invariant (propertyStep rule) (fun _ draft t => draft.TellsFrom s t)
    (fun _ _ _ h => h) ?_ hc {} s hstart).told ht
  intro c hc draft t h
  exact (propertyStep_round hquiet c hc draft t).tells hgrows htells h

end Rounds

/-! ### Values -/

/-- A value that is read without a problem is reported node by node as it is completed. -/
theorem readValue_tells {c : Cursor} {s t : Session (σ × List Node)} {value : Value} {d : c.After}
    (h : readValue c s = (some (value, d), t)) (hs : s.Watched) (ht : t.Unbroken) :
    s.Tells t value.reports := by
  have hread := readValue_read c s
  rw [h] at hread
  cases hread with
  | text h =>
    rw [Value.reports]
    exact readText_tells hs h
  | expression _ h =>
    rw [Value.reports]
    exact readExpression_tells hs h
  | scalar =>
    rw [Value.reports]
    exact hs.observe_value _
  | @array inner hlt e draft closed u _ hinner hslots hvalue hd =>
    obtain ⟨hu, -⟩ := (ht.of_grows (.observe _ _)).of_commitUnclosed
    have hgrows := Session.Grows.law.slots (fun _ _ _ _ _ h => readValue_grows h)
      readValue_quiet hlt {} s
    have htold := readSlots_tells readValue_quiet (fun _ _ _ _ _ h => readValue_grows h)
      (fun _ _ _ _ _ _ h hs ht => readValue_tells h hs ht) hlt hs
    have hopened := readSlots_opened readValue_quiet hlt {} s fun _ => rfl
    rw [hslots] at hgrows htold hopened
    have hlast := (hs.of_grows hgrows).of_grows
      (Session.Grows.law.commitUnclosed e.1 u closed .unclosedArray e.1.position)
    rw [hvalue, Value.reports, slotReports_eq, SlotDraft.values_finish hopened, ← hvalue]
    have hclosed := (htold hu).trans
      (Session.Tells.of_state (u.commitUnclosed_state closed .unclosedArray e.1.position))
    rw [List.append_nil] at hclosed
    refine hclosed.trans ?_
    subst hvalue
    exact hlast.observe _
  | @object inner hlt e draft closed u v _ hinner hbrace hproperties hv hvalue hd =>
    have hflush := Session.Grows.law.flush c draft v
    obtain ⟨hu, -⟩ := (hv ▸ (ht.of_grows (.observe _ _)).of_grows hflush).of_commitUnclosed
    have hgrows := Session.Grows.law.properties (fun _ _ _ _ _ h => readValue_grows h)
      readValue_quiet hlt {} s
    have htold := readProperties_tells readValue_quiet (fun _ _ _ _ _ h => readValue_grows h)
      (fun _ _ _ _ _ _ h hs ht => readValue_tells h hs ht) hlt hs
    rw [hproperties] at hgrows htold
    have hwatched : v.Watched := hv ▸ (hs.of_grows hgrows).of_grows
      (Session.Grows.law.commitUnclosed e.1 u closed _ _)
    have hstate : u.Tells v [] := .of_state (hv ▸ u.commitUnclosed_state _ _ _)
    have hlast := ((htold hu).told.trans hstate).trans (draft.flush_tells hwatched)
    have hclosed := hlast.trans ((hwatched.of_grows hflush).observe_value value)
    rw [List.append_nil] at hclosed
    subst hvalue
    rw [Value.reports]
    rwa [draft.finished_flush v, (htold hu).getLast?] at *
termination_by c.rest.length

/-! ### Documents -/

/-- Text that is nothing but white space and comments.  A comment at its end need not be closed. -/
inductive OnlyTrivia : List Char → Prop
  | nil : OnlyTrivia []
  | filler (trivia : Filler) {rest : List Char} (h : OnlyTrivia rest) :
      OnlyTrivia (trivia.text ++ rest)
  | line {body : List Char} (hbody : ∀ x ∈ body, x ≠ '\n' ∧ x ≠ '\r') :
      OnlyTrivia ('/' :: '/' :: body)
  | block {body : List Char} (hbody : ¬ ['*', '/'] <:+: body) : OnlyTrivia ('/' :: '*' :: body)

/-- What is only trivia begins with a blank or with a slash. -/
theorem OnlyTrivia.head {x : Char} {rest : List Char} (h : OnlyTrivia (x :: rest)) :
    isBlank x = true ∨ x = '/' := by
  generalize hsource : x :: rest = source at h
  cases h with
  | nil => simp at hsource
  | filler trivia =>
    cases trivia with
    | blank c hblank =>
      obtain ⟨rfl, -⟩ := List.cons.inj hsource
      exact .inl hblank
    | line | block => exact .inr (List.cons.inj hsource).1
  | line | block => exact .inr (List.cons.inj hsource).1

theorem OnlyTrivia.gap (gap : Gap) {rest : List Char} (h : OnlyTrivia rest) :
    OnlyTrivia (gap.text ++ rest) := by
  induction gap with
  | nil => exact h
  | cons trivia gap ih =>
    rw [Gap.text, List.flatMap_cons, List.append_assoc]
    exact .filler trivia ih

/-- A comment in front of nothing but trivia is trivia. -/
theorem Cursor.onlyTrivia_of_comment {c : Cursor} {d : c.After} (h : c.comment? = some d)
    (hrest : OnlyTrivia d.1.rest) : OnlyTrivia c.rest := by
  unfold comment? at h
  split at h
  · simp at h
  · rename_i ends hends
    dsimp only at h
    split at h
    · rename_i hit hfind
      obtain rfl := Option.some.inj h
      obtain ⟨trivia, hmoves⟩ := comment_closed hends hfind
      rw [hmoves.rest_eq]
      exact .filler trivia hrest
    · rename_i hnone
      have hsearch := search_of_find_none hnone
      unfold commentEnds? at hends
      split at hends
      · rename_i body hbody
        obtain rfl := Option.some.inj hends
        have hadvance : (c.advance 2).rest = body :=
          rest_advance (show c.rest = ['/', '/'] ++ body from hbody)
        have hfree : ∀ x ∈ body, x ∉ ['\n', '\r'] := free_of_search_none (hadvance ▸ hsearch)
        rw [hbody]
        exact .line fun x hx => by simpa using hfree x hx
      · rename_i body hbody
        obtain rfl := Option.some.inj hends
        have hadvance : (c.advance 2).rest = body :=
          rest_advance (show c.rest = ['/', '*'] ++ body from hbody)
        rw [hbody]
        exact .block (not_infix_of_search_none (by decide) (hadvance ▸ hsearch))
      · simp at hends

theorem Cursor.onlyTrivia_of_skipBlanks {c : Cursor} (h : OnlyTrivia c.skipBlanks.rest) :
    OnlyTrivia c.rest := by
  have hrun : ∀ x ∈ c.runOf isBlank, isBlank x = true := List.all_eq_true.mp List.all_takeWhile
  obtain ⟨gap, hgap⟩ := exists_gap_of_blanks hrun
  rw [(c.moves_matchWhile isBlank).rest_eq, ← hgap]
  exact .gap gap h

/-- If trivia is all there is up to the end of a text, the text is nothing but trivia. -/
theorem onlyTrivia_of_skipTrivia (c : Cursor) (s : Session σ)
    (h : (skipTrivia c s).1.1.rest = []) : OnlyTrivia c.rest := by
  fun_induction skipTrivia c s with
  | case1 c s =>
    apply Cursor.onlyTrivia_of_skipBlanks
    rw [h]
    exact .nil
  | case2 c s d hd hlt e t hrest ih =>
    rw [hrest] at ih
    exact Cursor.onlyTrivia_of_skipBlanks (Cursor.onlyTrivia_of_comment hd (ih h))

/-- Trivia is reported as comments. -/
theorem skipTrivia_tells (c : Cursor) {s : Session (σ × List Node)} (hs : s.Watched) :
    s.Tells (skipTrivia c s).2 [] := by
  fun_induction skipTrivia c s with
  | case1 => exact .of_state rfl
  | case2 c s d hd hlt e t hrest ih =>
    rw [hrest] at ih
    exact (hs.observe (.comment _)).trans (ih (hs.of_grows (.observe s _)))

/-- A log whose nodes stand behind what is below them does so with comments in between. -/
theorem ChildrenFirst.of_withoutComments {log : List Node}
    (h : ChildrenFirst (withoutComments log)) : ChildrenFirst log := by
  rintro before node after rfl child hchild
  have hkept : node.kind ≠ .comment := by
    cases node with
    | comment => simp [Node.children] at hchild
    | value value => exact value.kind_ne_comment
    | identifier | segment | property => simp [Node.kind]
  have hsplit : withoutComments (before ++ node :: after) =
      withoutComments before ++ node :: withoutComments after := by
    simp [withoutComments, hkept]
  intro below hbelow
  exact List.mem_of_mem_filter (h _ node _ hsplit child hchild hbelow)

section Document

variable {options : ReadOptions} {hooks : Hooks σ} {state : σ} {source : List Char}

theorem openDocument_watched (options : ReadOptions) (hooks : Hooks σ) (state : σ)
    (source : List Char) :
    (openDocument options hooks.observing (state, []) source).2.Watched ∧
    withoutComments (openDocument options hooks.observing (state, []) source).2.state.2 = [] := by
  have hstart : (Session.start hooks.observing (state, []) options.onError.halts).Watched :=
    ⟨⟨hooks, rfl⟩, rfl⟩
  refine ⟨hstart.of_grows (Session.Grows.law.trivia _ _), ?_⟩
  exact skipTrivia_tells (.ofText source) hstart

/-- A document that holds more than trivia has text at the place where its value starts. -/
theorem documentStart_rest (htext : ¬ OnlyTrivia source) :
    (documentStart options hooks state source).rest ≠ [] :=
  fun hend => htext (onlyTrivia_of_skipTrivia (.ofText source) _ hend)

end Document

/-- What an observer is told of a document.  If the text holds more than white space and comments,
no problem is met, and the text is not read as a string, then the nodes that are reported, but for
comments, are the nodes of the tree, each once and as it is in the tree; and every node is reported
after all nodes below it. -/
theorem readDocument_observes {options : ReadOptions} {hooks : Hooks σ} {state : σ}
    {source : List Char} {document : Document} (htext : ¬ OnlyTrivia source)
    (hdocument : (readDocument options hooks.observing (state, []) source).1 = .ok document)
    (hproblems : document.problems = []) (hkept : document.readAsString = false) :
    ∃ root, document.root = some root ∧
      (withoutComments (readDocument options hooks.observing (state, []) source).2.2).Perm
        (Node.value root).preorder ∧
      ∀ before node after,
        (readDocument options hooks.observing (state, []) source).2.2 = before ++ node :: after →
        ∀ child ∈ node.children, ∀ below ∈ child.preorder, below ∈ before := by
  have hread := readDocument_read options hooks.observing (state, []) source
  generalize readDocument options hooks.observing (state, []) source = outcome at hread hdocument ⊢
  cases hread with
  | asString =>
    obtain rfl := Except.ok.inj hdocument
    simp at hkept
  | failed => simp at hdocument
  | asValue hkeeps =>
    obtain rfl := Except.ok.inj hdocument
    have hnone : (notedSession options hooks.observing (state, []) source).problems = #[] := by
      simpa using hproblems
    obtain ⟨hnoted, -⟩ := notedSession_of_no_problems hnone
    rw [hnoted] at hnone ⊢
    obtain ⟨hwatched, hempty⟩ := openDocument_watched options hooks state source
    have hroot := firstRoot_read options hooks.observing (state, []) source
    have hunbroken := @firstRoot_unbroken _ source options hooks.observing (state, [])
    generalize firstRoot options hooks.observing (state, []) source = outcome
      at hroot hnone hunbroken ⊢
    cases hroot with
    | empty hend => exact absurd hend (documentStart_rest htext)
    | none => simp [Session.push] at hnone
    | @value value d t hvalue =>
      have htold := readValue_tells hvalue hwatched (hunbroken hvalue hnone)
      rw [Session.Tells, hempty, List.nil_append] at htold
      refine ⟨value, rfl, htold ▸ value.reports_perm, ?_⟩
      have hfirst : ChildrenFirst (withoutComments t.state.2) :=
        htold ▸ value.reports_childrenFirst
      intro before node after hsplit child hchild below hbelow
      exact hfirst.of_withoutComments before node after hsplit child hchild hbelow

/-- An array with a comment, a string around an expression, and an object: the host gives the
expressions another text. -/
theorem readDocument_observes_nested :
    ∃ (hooks : Hooks Unit) (document : Document) (root : Value),
      ¬ OnlyTrivia "[1, /*c*/ \"x\x7b\x7be\x7d\x7dy\", \x7bb: \x7b\x7bf\x7d\x7d\x7d]".toList ∧
      (readDocument { onError := .stop } hooks.observing ((), [])
        "[1, /*c*/ \"x\x7b\x7be\x7d\x7dy\", \x7bb: \x7b\x7bf\x7d\x7d\x7d]".toList).1 =
          .ok document ∧
      document.problems = [] ∧ document.readAsString = false ∧ document.root = some root ∧
      (withoutComments (readDocument { onError := .stop } hooks.observing ((), [])
        "[1, /*c*/ \"x\x7b\x7be\x7d\x7dy\", \x7bb: \x7b\x7bf\x7d\x7d\x7d]".toList).2.2).Perm
        (Node.value root).preorder := by
  have htext : ¬ OnlyTrivia
      "[1, /*c*/ \"x\x7b\x7be\x7d\x7dy\", \x7bb: \x7b\x7bf\x7d\x7d\x7d]".toList := by
    intro h
    have hhead : isBlank '[' = true ∨ '[' = '/' := h.head
    exact absurd hhead (by decide)
  let hooks : Hooks Unit := { revise := fun _ _ => (⟨"g", .string⟩, ()) }
  have hdocument : ∃ document, (readDocument { onError := .stop } hooks.observing ((), [])
      "[1, /*c*/ \"x\x7b\x7be\x7d\x7dy\", \x7bb: \x7b\x7bf\x7d\x7d\x7d]".toList).1 = .ok document ∧
      document.problems = [] ∧ document.readAsString = false :=
    ⟨_, rfl, by decide +kernel, by decide +kernel⟩
  obtain ⟨document, hdocument, hproblems, hkept⟩ := hdocument
  obtain ⟨root, hroot, htold, -⟩ := readDocument_observes htext hdocument hproblems hkept
  exact ⟨hooks, document, root, htext, hdocument, hproblems, hkept, hroot, htold⟩

end DataTemplate
