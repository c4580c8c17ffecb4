/-
Readings without a host.  What a host does with the expressions of a text changes nothing but the
expressions themselves: a reading with a host and a reading without one take the same steps.
Main statements: `readValue_bare` and `readDocument_bare`.
-/
import DataTemplate.Proofs.ExpressionMaps
import DataTemplate.Proofs.Policies
import DataTemplate.Proofs.Spans

namespace DataTemplate

variable {σ : Type} {n : Nat}

/-! ### Arrays and objects under construction -/

section Drafts

variable (f : Expression → Expression)

/-- The content of a string with `f` applied to its expressions. -/
def Content.mapExpressions (content : Content) : Content :=
  { content with more := mapMore f content.more }

/-- An array under construction with `f` applied to its expressions. -/
def SlotDraft.mapExpressions (draft : SlotDraft) : SlotDraft :=
  ⟨draft.closed.map (Slot.mapExpressions f), draft.current.map (Slot.mapExpressions f)⟩

/-- An object under construction with `f` applied to its expressions. -/
def PropertyDraft.mapExpressions (draft : PropertyDraft) : PropertyDraft :=
  ⟨draft.finished.map (Property.mapExpressions f),
    draft.current.map (Property.mapExpressions f), draft.awaited⟩

end Drafts

variable {f : Expression → Expression}

theorem Value.span_mapExpressions (hf : ∀ e, (f e).span = e.span) (value : Value) :
    (value.mapExpressions f).span = value.span := by
  cases value with
  | expression e => simpa only [mapExpressions, span] using hf e
  | scalar | text | array | object => simp only [mapExpressions, span, Text.mapExpressions]

namespace SlotDraft

theorem mapExpressions_empty : mapExpressions f {} = {} := by simp [mapExpressions]

theorem awaitsValue_mapExpressions (draft : SlotDraft) :
    (draft.mapExpressions f).awaitsValue = draft.awaitsValue := by
  cases hcurrent : draft.current with
  | none => simp [awaitsValue, mapExpressions, hcurrent]
  | some slot => simp [awaitsValue, mapExpressions, hcurrent, Slot.mapExpressions]

theorem missing_mapExpressions (draft : SlotDraft) :
    (draft.mapExpressions f).missing = draft.missing := by
  rw [missing, awaitsValue_mapExpressions, missing]

theorem currentAt_mapExpressions (draft : SlotDraft) (position : Nat) :
    (draft.mapExpressions f).currentAt position =
      (draft.currentAt position).mapExpressions f := by
  cases hcurrent : draft.current <;>
    simp [currentAt, mapExpressions, hcurrent, Slot.mapExpressions]

theorem comma_mapExpressions (draft : SlotDraft) (position : Nat) :
    (draft.mapExpressions f).comma position = (draft.comma position).mapExpressions f := by
  rw [comma, currentAt_mapExpressions]
  simp [comma, mapExpressions, Slot.mapExpressions]

theorem fill_mapExpressions (hf : ∀ e, (f e).span = e.span) (draft : SlotDraft) (value : Value) :
    (draft.mapExpressions f).fill (value.mapExpressions f) =
      (draft.fill value).mapExpressions f := by
  rw [fill, value.span_mapExpressions hf, currentAt_mapExpressions]
  rfl

theorem slots_mapExpressions (draft : SlotDraft) :
    (draft.mapExpressions f).slots = draft.slots.map (Slot.mapExpressions f) := by
  cases hcurrent : draft.current <;> simp [slots, mapExpressions, hcurrent]

theorem finish_mapExpressions (draft : SlotDraft) :
    (draft.mapExpressions f).finish = draft.finish.map (Slot.mapExpressions f) := by
  rw [finish, slots_mapExpressions, awaitsValue_mapExpressions, List.length_map, finish]
  split
  · rw [List.map_dropLast]
  · rfl

end SlotDraft

namespace PropertyDraft

theorem mapExpressions_empty : mapExpressions f {} = {} := by simp [mapExpressions]

theorem colon_mapExpressions (draft : PropertyDraft) (position : Nat) :
    (draft.mapExpressions f).colon position = (draft.colon position).mapExpressions f := by
  cases hcurrent : draft.current <;>
    simp [colon, modify, mapExpressions, hcurrent, Property.mapExpressions]

theorem fill_mapExpressions (draft : PropertyDraft) (value : Value) :
    (draft.mapExpressions f).fill (value.mapExpressions f) =
      (draft.fill value).mapExpressions f := by
  cases hcurrent : draft.current <;>
    simp [fill, modify, mapExpressions, hcurrent, Property.mapExpressions]

theorem comma_mapExpressions (draft : PropertyDraft) (position : Nat) :
    (draft.mapExpressions f).comma position = (draft.comma position).mapExpressions f := by
  cases hcurrent : draft.current <;>
    simp [comma, modify, mapExpressions, hcurrent, Property.mapExpressions]

end PropertyDraft

/-! ### Sessions without a host -/

/-- The expression as it was before a host was asked about it. -/
def Expression.bare (e : Expression) : Expression :=
  { e with text := e.raw, valueType := .unknown }

theorem Expression.span_bare (e : Expression) : e.bare.span = e.span := rfl

theorem Expression.bare_revise (e : Expression) (revision : Revision) :
    (e.revise revision).bare = e.bare := rfl

/-- No host has been asked about an expression when it is scanned. -/
theorem Expression.bare_of_scan {c : Cursor} {e : Expression} {d : c.After}
    (h : Expression.scan c = some (e, d)) : e.bare = e := by
  obtain ⟨-, -, -, -, -, -, -, htext, htype⟩ := scan_some h
  obtain ⟨_, _, _, _, _⟩ := e
  simp_all [bare]

namespace Session

/-- The session without its host, and without what the host made of the expressions. -/
def bare (s : Session σ) : Session Unit where
  hooks := {}
  state := ()
  haltOnProblem := s.haltOnProblem
  halted := s.halted
  problems := s.problems
  expressions := s.expressions.map Expression.bare
  handled := #[]

@[simp] theorem bare_halted (s : Session σ) : s.bare.halted = s.halted := rfl

theorem bare_commit (s : Session σ) (cause : Cause) (position : Nat) :
    (s.commit cause position).bare = s.bare.commit cause position := by
  unfold commit
  rw [bare_halted]
  split <;> rfl

theorem bare_commitUnclosed (s : Session σ) (closed : Bool) (cause : Cause) (position : Nat) :
    (s.commitUnclosed closed cause position).bare =
      s.bare.commitUnclosed closed cause position := by
  unfold commitUnclosed
  rw [bare_halted, ← bare_commit]
  split <;> rfl

theorem bare_rollback (t s : Session σ) :
    (t.rollback s.checkpoint).bare = t.bare.rollback s.bare.checkpoint := by
  simp [rollback, checkpoint, bare, Array.take_eq_extract]

theorem bare_finishExpression (s : Session σ) {e : Expression} (he : e.bare = e) :
    s.bare.finishExpression e =
      ((s.finishExpression e).1.bare, (s.finishExpression e).2.bare) := by
  have hfirst : s.bare.finishExpression e = (e, s.bare.record e) := rfl
  rw [hfirst]
  unfold finishExpression
  split <;> simp [ask, record, observe, bare, Expression.bare_revise, he]

end Session

/-! ### Readers -/

/-- A reader finds without a host what it finds with one, but for what `f` forgets. -/
def Bares {α : Type} (f : α → α) (bareRead : Session Unit → Option α × Session Unit)
    (read : Session σ → Option α × Session σ) : Prop :=
  ∀ s, bareRead s.bare = ((read s).1.map f, (read s).2.bare)

theorem Bares.orElse {α β : Type} {f : α → α} {g : β → β} {k : α → β}
    {bareRead : Session Unit → Option α × Session Unit}
    {read : Session σ → Option α × Session σ}
    {bareNext : Session Unit → Option β × Session Unit}
    {next : Session σ → Option β × Session σ} (hread : Bares f bareRead read)
    (hnext : Bares g bareNext next) (hk : ∀ a, k (f a) = g (k a)) :
    Bares g (fun s => orElse (bareRead s) k bareNext) fun s => orElse (read s) k next := by
  intro s
  dsimp only
  rw [hread s]
  rcases read s with ⟨_ | a, t⟩
  · exact hnext t
  · simp [DataTemplate.orElse, hk]

theorem Bares.nothing {α : Type} {f : α → α} :
    Bares (σ := σ) f (fun s => (none, s)) fun s => (none, s) := fun _ => rfl

/-- What is found with `f` applied, and the place after it. -/
def withPlace {α β : Type} (f : α → α) (found : α × β) : α × β := (f found.1, found.2)

/-! ### Leaves -/

theorem readExpression_bare (c : Cursor) :
    Bares (σ := σ) (withPlace Expression.bare) (readExpression c) (readExpression c) := by
  intro s
  unfold readExpression
  split
  · rfl
  · rename_i e d hscan
    rw [s.bare_finishExpression (Expression.bare_of_scan hscan)]
    rfl

theorem readIdentifier_bare (c : Cursor) :
    Bares (σ := σ) id (readIdentifier c) (readIdentifier c) := by
  intro s
  unfold readIdentifier
  split <;> rfl

theorem readScalar_bare (c : Cursor) : Bares (σ := σ) id (readScalar c) (readScalar c) := by
  intro s
  unfold readScalar
  split <;> rfl

theorem readContent_bare (quote : Option Quote) (segment c : Cursor) (s : Session σ) :
    readContent quote segment c s.bare =
      ((readContent quote segment c s).1.mapExpressions Expression.bare,
        (readContent quote segment c s).2.1, (readContent quote segment c s).2.2.bare) := by
  fun_induction readContent quote segment c s with
  | case1 segment c s hfind =>
    rw [readContent]
    simp only [hfind]
    rfl
  | case2 segment c s hit hfind hneedle t hread hlt content d u hrest ih =>
    have hbare := readExpression_bare hit.start s
    rw [hread] at hbare
    rw [hrest] at ih
    rw [readContent]
    simp only [hfind, hneedle, if_true, hbare, Option.map_none, ih]
  | case3 segment c s hit hfind hneedle e after t hread hlt first content d u hrest ih =>
    have hbare := readExpression_bare hit.start s
    rw [hread] at hbare
    rw [hrest] at ih
    have hobserve : t.bare.observe (.segment first) = (t.observe (.segment first)).bare := rfl
    rw [readContent]
    simp only [hfind, hneedle, if_true, hbare, Option.map_some, withPlace]
    rw [hobserve, ih]
    rfl
  | case4 segment c s hit hfind hneedle =>
    rw [readContent]
    simp only [hfind, hneedle]
    rfl

/-! ### Strings and keys -/

theorem finishText_bare (quote : Option Quote) (c d : Cursor) (content : Content)
    (s : Session σ) :
    finishText quote c d (content.mapExpressions Expression.bare) s.bare =
      ((finishText quote c d content s).1.mapExpressions Expression.bare,
        (finishText quote c d content s).2.bare) := by
  unfold finishText
  rw [show (content.mapExpressions Expression.bare).closed = content.closed from rfl,
    ← s.bare_commit]
  split <;> rfl

theorem readTextContent_bare (quote : Option Quote) (c inner : Cursor) (s : Session σ) :
    readTextContent quote c inner s.bare =
      ((readTextContent quote c inner s).1.mapExpressions Expression.bare,
        (readTextContent quote c inner s).2.1, (readTextContent quote c inner s).2.2.bare) := by
  simp only [readTextContent, readContent_bare, finishText_bare]

theorem readText_bare (c : Cursor) :
    Bares (σ := σ) (withPlace (Text.mapExpressions Expression.bare)) (readText c)
      (readText c) := by
  intro s
  have hcontent (raw : List Char) (d : Cursor) :
      (staticContent c d raw).mapExpressions Expression.bare = staticContent c d raw := rfl
  have hobserve (node : Node) : s.bare.observe node = (s.observe node).bare := rfl
  unfold readText
  split
  · rfl
  · dsimp only
    rw [readTextContent_bare]
    split
    · split
      · rfl
      · rename_i raw d hraw hbrace
        rw [hobserve, ← hcontent raw d.1, finishText_bare]
        rfl
    · rfl

theorem readKey_bare (c : Cursor) :
    Bares (σ := σ) (withPlace (Key.mapExpressions Expression.bare)) (readKey c) (readKey c) := by
  rw [funext (readKey_eq c), funext (readKey_eq c)]
  refine (readText_bare c).orElse ?_ fun _ => rfl
  refine (readExpression_bare c).orElse ?_ fun _ => rfl
  exact (readIdentifier_bare c).orElse .nothing fun _ => rfl

/-! ### Rounds -/

/-- What a round leaves, without the host and with `g` applied to the draft. -/
def Round.bare {δ : Type} {c : Cursor} (g : δ → δ) : Round σ δ c → Round Unit δ c
  | .again next draft s => .again next (g draft) s.bare
  | .stop last draft closed s => .stop last (g draft) closed s.bare

/-- A rule finds the same values without a host. -/
def ValueRule.Bares (bareRule : ValueRule Unit n) (rule : ValueRule σ n) : Prop :=
  ∀ c hc, DataTemplate.Bares (withPlace (Value.mapExpressions Expression.bare)) (bareRule c hc)
    (rule c hc)

/-- A step goes the same way without a host. -/
def RoundStep.Bares {δ : Type} (g : δ → δ) (bareStep : RoundStep Unit δ n)
    (step : RoundStep σ δ n) : Prop :=
  ∀ c hc draft s, bareStep c hc (g draft) s.bare = (step c hc draft s).bare g

theorem rounds_bare {δ : Type} {g : δ → δ} {bareStep : RoundStep Unit δ n}
    {step : RoundStep σ δ n} (hstep : RoundStep.Bares g bareStep step) (c : Cursor)
    (hc : c.rest.length < n) (draft : δ) (s : Session σ) :
    rounds bareStep c hc (g draft) s.bare =
      ((rounds step c hc draft s).1, g (rounds step c hc draft s).2.1,
        (rounds step c hc draft s).2.2.1, (rounds step c hc draft s).2.2.2.bare) := by
  fun_induction rounds step c hc draft s with
  | case1 c hc draft s hhalted => rw [rounds, if_pos (s.bare_halted ▸ hhalted)]
  | case2 c hc draft s hgo hle hn last draft' closed t hround =>
    have hbare := hstep c.skipBlanks hn draft s
    rw [hround] at hbare
    exact rounds_of_stop (eq_false_of_ne_true hgo) hbare
  | case3 c hc draft s hgo hle hn next draft' t hround hlt hn' last result hrest ih =>
    have hbare := hstep c.skipBlanks hn draft s
    rw [hround] at hbare
    rw [hrest] at ih
    rw [Round.bare] at hbare
    have hgoes : s.bare.halted = false := eq_false_of_ne_true hgo
    rw [rounds_of_again hn' hgoes hbare, ih]

theorem slotStep_bare {bareRule : ValueRule Unit n} {rule : ValueRule σ n}
    (hrule : bareRule.Bares rule) :
    RoundStep.Bares (SlotDraft.mapExpressions Expression.bare) (slotStep bareRule)
      (slotStep rule) := by
  intro c hc draft s
  unfold slotStep
  split
  · rfl
  · dsimp only
    rw [draft.awaitsValue_mapExpressions, draft.missing_mapExpressions, draft.comma_mapExpressions]
    split
    · rfl
    · split
      · rfl
      · split
        · rfl
        · by_cases hopen : draft.awaitsValue = true
          · simp only [if_pos hopen, hrule c hc s]
            rcases rule c hc s with ⟨_ | ⟨value, d⟩, t⟩
            · dsimp only [Option.map_none]
              rw [← t.bare_commit, Session.bare_halted]
              split <;> rfl
            · dsimp only [Option.map_some, withPlace]
              rw [draft.fill_mapExpressions Expression.span_bare]
              rfl
          · simp only [if_neg hopen]
            rw [← s.bare_commit, Session.bare_halted]
            split <;> rfl

namespace PropertyDraft

theorem flush_bare (draft : PropertyDraft) (s : Session σ) :
    (draft.mapExpressions Expression.bare).flush s.bare =
      ((draft.flush s).1.mapExpressions Expression.bare, (draft.flush s).2.bare) := by
  cases hcurrent : draft.current with
  | none => simp [flush, mapExpressions, hcurrent]
  | some p =>
    simp only [flush, mapExpressions, hcurrent, Option.map_some, Array.map_push, Option.map_none]
    rfl

theorem begin_bare (draft : PropertyDraft) (key : Key) (s : Session σ) :
    (draft.mapExpressions Expression.bare).begin (key.mapExpressions Expression.bare) s.bare =
      ((draft.begin key s).1.mapExpressions Expression.bare, (draft.begin key s).2.bare) := by
  simp only [begin, flush_bare]
  rfl

end PropertyDraft

theorem beginBeforeColon_bare (c colon : Cursor) (draft : PropertyDraft) (s : Session σ) :
    beginBeforeColon c colon (draft.mapExpressions Expression.bare) s.bare =
      ((beginBeforeColon c colon draft s).1.mapExpressions Expression.bare,
        (beginBeforeColon c colon draft s).2.bare) := by
  unfold beginBeforeColon
  rw [readKey_bare c s]
  rcases readKey c s with ⟨_ | ⟨key, d⟩, t⟩
  · dsimp only [Option.map_none]
    rw [← t.bare_rollback, draft.flush_bare]
  · dsimp only [Option.map_some, withPlace]
    rw [← t.bare_rollback, draft.flush_bare, draft.begin_bare]
    split <;> rfl

theorem recoverProperty_bare (c : Cursor) (hc : c.rest ≠ []) (draft : PropertyDraft)
    (s : Session σ) :
    recoverProperty c hc (draft.mapExpressions Expression.bare) s.bare =
      (recoverProperty c hc draft s).bare (PropertyDraft.mapExpressions Expression.bare) := by
  have hdelimiters : (draft.mapExpressions Expression.bare).delimiters = draft.delimiters := rfl
  unfold recoverProperty
  simp only [hdelimiters]
  split
  · rfl
  · split
    · rfl
    · split
      · rw [draft.comma_mapExpressions]
        rfl
      · rw [beginBeforeColon_bare, PropertyDraft.colon_mapExpressions]
        rfl

theorem acceptToken_bare {bareRule : ValueRule Unit n} {rule : ValueRule σ n}
    (hrule : bareRule.Bares rule) (c : Cursor) (hc : c.rest.length < n) (hne : c.rest ≠ [])
    (draft : PropertyDraft) (s : Session σ) :
    acceptToken bareRule c hc hne (draft.mapExpressions Expression.bare) s.bare =
      ((acceptToken rule c hc hne draft s).map
        (Round.bare (PropertyDraft.mapExpressions Expression.bare))).mapError Session.bare := by
  unfold acceptToken
  dsimp only
  rw [show (draft.mapExpressions Expression.bare).awaited = draft.awaited from rfl]
  split
  · split
    · rfl
    · rw [readKey_bare c s]
      rcases readKey c s with ⟨_ | ⟨key, d⟩, t⟩
      · rfl
      · dsimp only [Option.map_some, withPlace]
        rw [draft.begin_bare]
        rfl
  · split
    · rw [draft.colon_mapExpressions]
      rfl
    · rfl
  · rw [hrule c hc s]
    rcases rule c hc s with ⟨_ | ⟨value, d⟩, t⟩
    · rfl
    · dsimp only [Option.map_some, withPlace]
      rw [draft.fill_mapExpressions]
      rfl
  · split
    · rfl
    · split
      · rw [draft.comma_mapExpressions]
        rfl
      · rfl

theorem propertyStep_bare {bareRule : ValueRule Unit n} {rule : ValueRule σ n}
    (hrule : bareRule.Bares rule) :
    RoundStep.Bares (PropertyDraft.mapExpressions Expression.bare) (propertyStep bareRule)
      (propertyStep rule) := by
  intro c hc draft s
  unfold propertyStep
  split
  · rfl
  · rename_i hne
    split
    · rfl
    · rw [acceptToken_bare hrule]
      cases acceptToken rule c hc hne draft s with
      | ok round => rfl
      | error t =>
        dsimp only [Except.map, Except.mapError]
        rw [show (draft.mapExpressions Expression.bare).awaited = draft.awaited from rfl,
          ← t.bare_commit, Session.bare_halted, recoverProperty_bare]
        split <;> rfl

/-! ### Values -/

theorem readArray_bare (c : Cursor)
    (hrule : ValueRule.Bares (n := c.rest.length) (fun d _ s => readValue d s)
      fun d _ (s : Session σ) => readValue d s) :
    Bares (withPlace (Value.mapExpressions Expression.bare))
      (readArray c fun d _ s => readValue d s)
      (readArray c fun d _ (s : Session σ) => readValue d s) := by
  intro s
  unfold readArray
  split
  · rename_i rest hrest
    have hlt := Cursor.length_lt_of_lt (c.next (Cursor.rest_ne_nil hrest)).2
    have hloop := rounds_bare (slotStep_bare hrule) _ hlt {} s
    rw [SlotDraft.mapExpressions_empty] at hloop
    simp only [← readSlots_eq_rounds] at hloop
    simp only [hloop, ← Session.bare_commitUnclosed, SlotDraft.finish_mapExpressions, ← mapSlots_eq]
    simp only [Option.map_some, withPlace, Value.mapExpressions]
    rfl
  · rfl

theorem readObject_bare (c : Cursor)
    (hrule : ValueRule.Bares (n := c.rest.length) (fun d _ s => readValue d s)
      fun d _ (s : Session σ) => readValue d s) :
    Bares (withPlace (Value.mapExpressions Expression.bare))
      (readObject c fun d _ s => readValue d s)
      (readObject c fun d _ (s : Session σ) => readValue d s) := by
  intro s
  unfold readObject
  split
  · rename_i rest hrest
    split
    · rfl
    · have hlt := Cursor.length_lt_of_lt (c.next (Cursor.rest_ne_nil hrest)).2
      have hloop := rounds_bare (propertyStep_bare hrule) _ hlt {} s
      rw [PropertyDraft.mapExpressions_empty] at hloop
      simp only [← readProperties_eq_rounds] at hloop
      have hawaited (draft : PropertyDraft) :
          (draft.mapExpressions Expression.bare).awaited = draft.awaited := rfl
      simp only [hloop, hawaited, ← Session.bare_commitUnclosed, PropertyDraft.flush_bare]
      simp only [Option.map_some, withPlace, Value.mapExpressions, mapProperties_eq,
        PropertyDraft.mapExpressions, Array.toList_map]
      rfl
  · rfl

/-- A value is the same without a host, but for its expressions. -/
theorem readValue_bare (c : Cursor) :
    Bares (σ := σ) (withPlace (Value.mapExpressions Expression.bare)) (readValue c)
      (readValue c) := by
  have hrule : ValueRule.Bares (n := c.rest.length) (fun d _ s => readValue d s)
      fun d _ (s : Session σ) => readValue d s := fun d _ => readValue_bare d
  rw [funext (readValue_eq c), funext (readValue_eq c)]
  refine (readText_bare c).orElse ?_ fun _ => by simp only [withPlace, Value.mapExpressions]
  refine (readExpression_bare c).orElse ?_ fun _ => by simp only [withPlace, Value.mapExpressions]
  refine (readArray_bare c hrule).orElse ?_ fun _ => rfl
  refine (readObject_bare c hrule).orElse ?_ fun _ => rfl
  exact (readScalar_bare c).orElse .nothing fun _ => by
    simp only [withPlace, Value.mapExpressions, id]
termination_by c.rest.length
decreasing_by assumption

/-! ### Documents -/

theorem skipTrivia_bare (c : Cursor) (s : Session σ) :
    skipTrivia c s.bare = ((skipTrivia c s).1, (skipTrivia c s).2.bare) := by
  fun_induction skipTrivia c s with
  | case1 c s hcomment =>
    rw [skipTrivia]
    split
    · rfl
    · rename_i d hd
      simp [hcomment] at hd
  | case2 c s d hd hlt e t hrest ih =>
    have hobserve : s.bare.observeComment c.skipBlanks d.1 =
        (s.observeComment c.skipBlanks d.1).bare := rfl
    rw [skipTrivia]
    split
    · rename_i hnone
      simp [hd] at hnone
    · rename_i d' hd'
      obtain rfl : d' = d := by simpa [hd] using hd'.symm
      simp only [hobserve, ih, hrest]

/-- What was read first of a document, with `f` applied to its expressions. -/
def Root.mapExpressions (f : Expression → Expression) {c : Cursor} (root : Root c) : Root c :=
  { root with value := root.value.map (Value.mapExpressions f) }

section Documents

variable (options : ReadOptions) {c : Cursor}

theorem readRoot_bare (emptyInput : EmptyInput) (c : Cursor) (s : Session σ) :
    readRoot emptyInput c s.bare =
      ((readRoot emptyInput c s).1.mapExpressions Expression.bare,
        (readRoot emptyInput c s).2.bare) := by
  have hempty : (emptyInput.value c.position).mapExpressions Expression.bare =
      emptyInput.value c.position := by
    cases emptyInput <;> simp [EmptyInput.value, Value.mapExpressions, Text.mapExpressions, mapMore]
  unfold readRoot
  split
  · simp only [Root.mapExpressions, Option.map_some, hempty]
    rfl
  · rw [readValue_bare c s]
    rcases readValue c s with ⟨_ | ⟨value, d⟩, t⟩
    · rfl
    · rfl

theorem mayBeLoose_mapExpressions (value : Option Value) :
    mayBeLoose (value.map (Value.mapExpressions f)) = mayBeLoose value := by
  rcases value with _ | ⟨_ | _ | _ | _ | _⟩ <;> simp [mayBeLoose, Value.mapExpressions]

theorem isExpression_mapExpressions (value : Option Value) :
    isExpression (value.map (Value.mapExpressions f)) = isExpression value := by
  rcases value with _ | ⟨_ | _ | _ | _ | _⟩ <;> simp [isExpression, Value.mapExpressions]

theorem noteRemainder_bare (root : Root c) (s : Session σ) :
    noteRemainder options (root.mapExpressions Expression.bare) s.bare =
      (noteRemainder options root s).bare := by
  simp only [noteRemainder, Root.mapExpressions, mayBeLoose_mapExpressions,
    isExpression_mapExpressions]
  rw [show s.bare.hasProblems = s.hasProblems from rfl]
  split <;> rfl

theorem wantsString_bare (root : Root c) (s : Session σ) :
    wantsString options (root.mapExpressions Expression.bare) s.bare =
      wantsString options root s := by
  simp only [wantsString, Root.mapExpressions, mayBeLoose_mapExpressions,
    isExpression_mapExpressions]
  rfl

/-- A second reading finds the same expressions, whatever the first has left. -/
theorem stringDocument_bare (c : Cursor) (s : Session σ) :
    (stringDocument c s).mapExpressions Expression.bare =
      (stringDocument c s.bare).mapExpressions Expression.bare := by
  have hfirst := readTextContent_bare none c c s.clearProblems.restartExpressions
  have hsecond := readTextContent_bare none c c s.bare.clearProblems.restartExpressions
  have hsame : s.bare.clearProblems.restartExpressions.bare =
      s.clearProblems.restartExpressions.bare := rfl
  rw [hsame, hfirst] at hsecond
  obtain ⟨htext, -, hsession⟩ := by simpa only [Prod.mk.injEq] using hsecond
  have hspan := congrArg Text.span htext
  have hexpressions := congrArg (fun s => s.expressions.toList) hsession
  simp only [Session.bare, Array.toList_map] at hexpressions
  simp only [stringDocument, Document.mapExpressions, Option.map_some, Value.mapExpressions,
    Document.mk.injEq, Option.some.injEq, Value.text.injEq, and_true, true_and]
  exact ⟨htext, hexpressions, congrArg Span.stop hspan⟩

theorem keptDocument_bare (root : Root c) (s : Session σ) :
    keptDocument (root.mapExpressions Expression.bare) s.bare =
      (keptDocument root s).mapExpressions Expression.bare := by
  simp only [keptDocument, Document.mapExpressions, Root.mapExpressions, Session.bare,
    Array.toList_map, Document.mk.injEq, and_true, true_and]
  cases root.value with
  | none => rfl
  | some value => exact congrArg Span.stop (value.span_mapExpressions Expression.span_bare)

theorem Expression.bare_comp_bare : Expression.bare ∘ Expression.bare = Expression.bare := rfl

theorem concludeFrom_bare (c : Cursor) (s : Session σ) :
    (concludeFrom options (c, s)).map (Document.mapExpressions Expression.bare) =
      (concludeFrom options (c, s.bare)).map (Document.mapExpressions Expression.bare) := by
  simp only [concludeFrom, concludeDocument, readRoot_bare]
  generalize readRoot options.emptyInput c s = first
  obtain ⟨root, t⟩ := first
  simp only [noteRemainder_bare, wantsString_bare]
  generalize noteRemainder options root t = u
  split
  · exact congrArg Except.ok (stringDocument_bare c u)
  · rw [keptDocument_bare, show u.bare.problems = u.problems from rfl]
    split
    · rfl
    · simp only [Except.map, Document.mapExpressions_mapExpressions, Expression.bare_comp_bare]

/-- A document is the same without a host, but for its expressions. -/
theorem readDocument_bare (hooks : Hooks σ) (state : σ) (source : String) :
    (readDocument options hooks state source.toList).1.map
        (Document.mapExpressions Expression.bare) =
      (parse options source).map (Document.mapExpressions Expression.bare) := by
  have hstart : (Session.start hooks state options.onError.halts).bare =
      Session.start {} () options.onError.halts := by simp [Session.start, Session.bare]
  have hopened : openDocument options ({} : Hooks Unit) () source.toList =
      ((openDocument options hooks state source.toList).1,
        (openDocument options hooks state source.toList).2.bare) := by
    simp only [openDocument, ← hstart, skipTrivia_bare]
  rw [parse, readDocument_eq_conclude, readDocument_eq_conclude, hopened]
  exact concludeFrom_bare options _ _

end Documents

end DataTemplate
