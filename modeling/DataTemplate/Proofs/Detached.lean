/-
Values that belong to no property.  After a problem an object may meet a colon that it finds no key
for; the value behind it is read, and then left out of the tree.  This module follows a reading from
moment to moment and collects these values.  Main statement: `readValue_detaches`, which says that
there are none before a problem is met, nor when problems halt the reading.
-/
import DataTemplate.Proofs.Drafts
import DataTemplate.Proofs.SessionLaws

namespace DataTemplate

variable {σ : Type} {n : Nat}

/-- A moment in the reading of an array or an object: the place where a round begins, and the draft
and the session there. -/
structure Moment (σ δ : Type) (n : Nat) where
  place : Cursor
  bound : place.rest.length < n
  draft : δ
  session : Session σ

/-- The moments at which the rounds of an array or an object begin. -/
def moments {δ : Type}
    (step : (c : Cursor) → c.rest.length < n → δ → Session σ → Round σ δ c) (c : Cursor)
    (hc : c.rest.length < n) (draft : δ) (s : Session σ) : List (Moment σ δ n) :=
  if s.halted then []
  else
    have hblank := c.le_skipBlanks
    have hn := Nat.lt_of_le_of_lt (Cursor.length_le_of_le hblank) hc
    ⟨c.skipBlanks, hn, draft, s⟩ ::
      match step c.skipBlanks hn draft s with
      | .stop _ _ _ _ => []
      | .again next draft s =>
        have hlt := Cursor.lt_of_le_of_lt hblank next.2
        moments step next.1 (Nat.lt_trans (Cursor.length_lt_of_lt hlt) hc) draft s
termination_by c.rest.length
decreasing_by exact Cursor.length_lt_of_lt hlt

/-- Whether an array looks for a value at a moment. -/
def Moment.slotLooks (m : Moment σ SlotDraft n) : Bool :=
  m.draft.awaitsValue && m.place.comment?.isNone

/-- Whether an object looks for a value at a moment. -/
def Moment.propertyLooks (m : Moment σ PropertyDraft n) : Bool :=
  m.draft.awaited == .value && m.place.comment?.isNone

/-- The value that is read at a moment and belongs to no property. -/
def Moment.unowned (rule : ValueRule σ n) (m : Moment σ PropertyDraft n) : List Value :=
  if m.draft.current.isNone then ((rule m.place m.bound m.session).1.map (·.1)).toList else []

/-- All values, at any depth, that belong to no property when the value at `c` is read. -/
def detachedValues (c : Cursor) (s : Session σ) : List Value :=
  match h : c.rest with
  | '[' :: _ =>
    let inner := c.next (Cursor.rest_ne_nil h)
    let rule : ValueRule σ c.rest.length := fun d _ s => readValue d s
    let rounds := moments (slotStep rule) inner.1 (Cursor.length_lt_of_lt inner.2) {} s
    rounds.flatMap fun m => if m.slotLooks then detachedValues m.place m.session else []
  | '{' :: rest =>
    if rest.head? = some '{' then []
    else
      let inner := c.next (Cursor.rest_ne_nil h)
      let rule : ValueRule σ c.rest.length := fun d _ s => readValue d s
      let rounds := moments (propertyStep rule) inner.1 (Cursor.length_lt_of_lt inner.2) {} s
      rounds.flatMap fun m =>
        if m.propertyLooks then detachedValues m.place m.session ++ m.unowned rule else []
  | _ => []
termination_by c.rest.length
decreasing_by all_goals exact m.bound

/-- The values that are detached in the round of an array that begins at a moment. -/
def Moment.slotDetached (m : Moment σ SlotDraft n) : List Value :=
  if m.slotLooks then detachedValues m.place m.session else []

/-- The values that are detached in the round of an object that begins at a moment. -/
def Moment.propertyDetached (m : Moment σ PropertyDraft n) : List Value :=
  if m.propertyLooks then
    detachedValues m.place m.session ++ m.unowned fun d _ s => readValue d s
  else []

/-- What holds of the draft, the session and what was collected so far, and is kept by every step
with what is collected at its moment, holds at the end of all rounds. -/
theorem rounds_collects {δ α : Type} (step : RoundStep σ δ n) (collect : Moment σ δ n → List α)
    (holds : δ → Session σ → List α → Prop)
    (hstep : ∀ ⦃c⦄ (hc : c.rest.length < n) ⦃draft s found⦄, holds draft s found →
      holds (step c hc draft s).outcome.2 (step c hc draft s).session
        (found ++ collect ⟨c, hc, draft, s⟩))
    {c : Cursor} (hc : c.rest.length < n) (draft : δ) (s : Session σ) (h : holds draft s []) :
    holds (rounds step c hc draft s).2.1 (rounds step c hc draft s).2.2.2
      ((moments step c hc draft s).flatMap collect) := by
  -- the rounds after a step go on from what the step has collected
  suffices hfrom : ∀ found, holds draft s found →
      holds (rounds step c hc draft s).2.1 (rounds step c hc draft s).2.2.2
        (found ++ (moments step c hc draft s).flatMap collect) from hfrom [] h
  clear h
  intro found h
  fun_induction rounds step c hc draft s generalizing found with
  | case1 c hc draft s hhalted =>
    rw [moments, if_pos hhalted, List.flatMap_nil, List.append_nil]
    exact h
  | case2 c hc draft s hgo hblank hn last draft' closed t hround =>
    have hlast := hstep hn h
    rw [moments, if_neg hgo]
    simpa [hround] using hlast
  | case3 c hc draft s hgo hblank hn next draft' t hround hlt hn' last result hrest ih =>
    have hnext := hstep hn h
    rw [hround] at hnext
    have hlast := ih _ hnext
    rw [hrest] at hlast
    rw [moments, if_neg hgo]
    simpa [hround] using hlast

/-! ### Where nothing is detached -/

theorem detachedValues_array {c inner : Cursor} (hinner : c.Moves ['['] inner)
    (hlt : inner.rest.length < c.rest.length) (s : Session σ) : detachedValues c s =
      (moments (slotStep fun d _ s => readValue d s) inner hlt {} s).flatMap
        Moment.slotDetached := by
  rw [detachedValues]
  split
  · rename_i rest hrest
    obtain rfl := (Cursor.moves_next hrest).unique hinner
    rfl
  · rename_i rest hrest
    simp [hinner.rest_eq] at hrest
  · rename_i hother _
    exact absurd hinner.rest_eq (hother inner.rest)

theorem detachedValues_object {c inner : Cursor} (hinner : c.Moves ['{'] inner)
    (hbrace : inner.rest.head? ≠ some '{') (hlt : inner.rest.length < c.rest.length)
    (s : Session σ) : detachedValues c s =
      (moments (propertyStep fun d _ s => readValue d s) inner hlt {} s).flatMap
        Moment.propertyDetached := by
  rw [detachedValues]
  split
  · rename_i rest hrest
    simp [hinner.rest_eq] at hrest
  · rename_i rest hrest
    obtain rfl := (Cursor.moves_next hrest).unique hinner
    have hinner_rest : (c.next (Cursor.rest_ne_nil hrest)).1.rest = rest := by
      simpa [hrest] using (Cursor.moves_next hrest).rest_eq.symm
    rw [if_neg (hinner_rest ▸ hbrace)]
    rfl
  · rename_i hother
    exact absurd hinner.rest_eq (hother inner.rest)

theorem detachedValues_of_head {c : Cursor} (hbracket : c.rest.head? ≠ some '[')
    (hbrace : ∀ rest, c.rest = '{' :: rest → rest.head? = some '{') (s : Session σ) :
    detachedValues c s = [] := by
  rw [detachedValues]
  split
  · rename_i rest hrest
    simp [hrest] at hbracket
  · rename_i rest hrest
    rw [if_pos (hbrace rest hrest)]
  · rfl

/-- Where no value is read, none is detached. -/
theorem detachedValues_of_none {c : Cursor} {s t : Session σ}
    (h : readValue c s = (none, t)) : detachedValues c s = [] := by
  have hread := readValue_read c s
  rw [h] at hread
  cases hread with
  | none hbracket hbrace => exact detachedValues_of_head hbracket hbrace s

theorem detachedValues_of_moves {c d : Cursor} {x : Char} (hd : c.Moves [x] d) (hbracket : x ≠ '[')
    (hbrace : x ≠ '{') (s : Session σ) : detachedValues c s = [] := by
  apply detachedValues_of_head
  · simpa [hd.rest_eq] using hbracket
  · intro rest hrest
    have hx : x = '{' := by simpa [hd.rest_eq] using (List.cons.inj (hd.rest_eq.symm.trans hrest)).1
    exact absurd hx hbrace

theorem detachedValues_of_quote {c : Cursor} {quote : Quote} (h : c.quote? = some quote)
    (s : Session σ) : detachedValues c s = [] := by
  apply detachedValues_of_moves (Cursor.moves_next_of_quote? h)
  · cases quote <;> decide
  · cases quote <;> decide

theorem detachedValues_of_scan {c : Cursor} {e : Expression} {d : c.After}
    (h : Expression.scan c = some (e, d)) (s : Session σ) : detachedValues c s = [] := by
  obtain ⟨rest, hrest⟩ : ∃ rest, c.rest = '{' :: '{' :: rest := by
    unfold Expression.scan at h
    split at h
    · rename_i hopens
      obtain ⟨rest, hrest⟩ := List.isPrefixOf_iff_prefix.mp hopens
      exact ⟨rest, hrest.symm⟩
    · simp at h
  apply detachedValues_of_head
  · simp [hrest]
  · intro rest' hrest'
    simp [hrest] at hrest'
    simp [← hrest']

theorem readValue_end {c : Cursor} (hend : c.rest = []) (s : Session σ) :
    readValue c s = (none, s) := by
  cases hread : readValue c s with
  | mk found t =>
    cases found with
    | none => rw [readValue_none hread]
    | some found =>
      have hlt := Cursor.length_lt_of_lt found.2.2
      simp [hend] at hlt

/-! ### Rounds -/

section Rounds

variable {c : Cursor} {hc : c.rest.length < n} {s : Session σ}

theorem slotDetached_of_none {draft : SlotDraft}
    (h : draft.awaitsValue = true → detachedValues c s = []) :
    Moment.slotDetached ⟨c, hc, draft, s⟩ = [] := by
  unfold Moment.slotDetached
  split
  · rename_i hlooks
    exact h (Bool.and_eq_true_iff.mp hlooks).1
  · rfl

theorem propertyDetached_of_none {draft : PropertyDraft}
    (h : draft.awaited = .value → readValue c s = (none, s)) :
    Moment.propertyDetached ⟨c, hc, draft, s⟩ = [] := by
  unfold Moment.propertyDetached
  split
  · rename_i hlooks
    have hnone := h (by simpa using (Bool.and_eq_true_iff.mp hlooks).1)
    simp [Moment.unowned, hnone, detachedValues_of_none hnone]
  · rfl

/-- What is detached in a round of an array is detached in the value that the round reads. -/
theorem SlotRound.detached {draft : SlotDraft} {round : Round σ SlotDraft c}
    (hround : SlotRound (fun d _ s => readValue d s) c hc draft s round) :
    Moment.slotDetached ⟨c, hc, draft, s⟩ = [] ∨
      ∃ value d t, readValue c s = (some (value, d), t) ∧ draft.awaitsValue = true ∧
        round = .again d (draft.fill value) t ∧
        Moment.slotDetached ⟨c, hc, draft, s⟩ = detachedValues c s := by
  cases hround with
  | ended hend =>
    exact .inl (slotDetached_of_none fun _ => detachedValues_of_none (readValue_end hend s))
  | closed hd =>
    exact .inl (slotDetached_of_none fun _ => detachedValues_of_moves hd (by decide) (by decide) s)
  | comma hd =>
    exact .inl (slotDetached_of_none fun _ => detachedValues_of_moves hd (by decide) (by decide) s)
  | comment hd => exact .inl (by simp [Moment.slotDetached, Moment.slotLooks, hd])
  | @value value d t hcomment hopen hvalue =>
    refine .inr ⟨value, d, t, hvalue, hopen, rfl, ?_⟩
    simp [Moment.slotDetached, Moment.slotLooks, hcomment, hopen]
  | halt hnone => exact .inl (slotDetached_of_none fun h => detachedValues_of_none (hnone h))
  | recover hnone => exact .inl (slotDetached_of_none fun h => detachedValues_of_none (hnone h))

/-- What is detached in a round of an object is detached in the value that the round reads, or is
that value. -/
theorem PropertyRound.detached {draft : PropertyDraft} {round : Round σ PropertyDraft c}
    (hround : PropertyRound (fun d _ s => readValue d s) c hc draft s round) :
    Moment.propertyDetached ⟨c, hc, draft, s⟩ = [] ∨
      ∃ value d t, readValue c s = (some (value, d), t) ∧ draft.awaited = .value ∧
        round = .again d (draft.fill value) t ∧
        Moment.propertyDetached ⟨c, hc, draft, s⟩ =
          detachedValues c s ++ if draft.current.isNone then [value] else [] := by
  cases hround with
  | ended hend => exact .inl (propertyDetached_of_none fun _ => readValue_end hend s)
  | comment hd => exact .inl (by simp [Moment.propertyDetached, Moment.propertyLooks, hd])
  | closed hd hle hawaited =>
    exact .inl (propertyDetached_of_none (by rcases hawaited with h | h <;> simp [h]))
  | key hawaited => exact .inl (propertyDetached_of_none (by simp [hawaited]))
  | colon hawaited => exact .inl (propertyDetached_of_none (by simp [hawaited]))
  | @value value d t hcomment hawaited hvalue =>
    refine .inr ⟨value, d, t, hvalue, hawaited, rfl, ?_⟩
    simp [Moment.propertyDetached, Moment.propertyLooks, Moment.unowned, hcomment, hawaited, hvalue]
  | comma hawaited => exact .inl (propertyDetached_of_none (by simp [hawaited]))
  | halt hnone => exact .inl (propertyDetached_of_none hnone)
  | recover hnone => exact .inl (propertyDetached_of_none hnone)

end Rounds

/-! ### Only after a problem -/

/-- An object builds a property once it waits for more than a key, unless it goes on after a
problem. -/
def PropertyDraft.Owned (draft : PropertyDraft) (s : Session σ) : Prop :=
  draft.current = none → draft.awaited = .keyOrEnd ∨ s.Recovering

theorem PropertyRound.owned {c : Cursor} {hc : c.rest.length < n} {draft : PropertyDraft}
    {s : Session σ} {round : Round σ PropertyDraft c}
    (hround : PropertyRound (fun d _ s => readValue d s) c hc draft s round)
    (h : draft.Owned s) : round.outcome.2.Owned round.session := by
  have hgrows := hround.grows
  have hstays (hcurrent : draft.current = none) (hawaited : draft.awaited ≠ .keyOrEnd) :
      round.session.Recovering := ((h hcurrent).resolve_left hawaited).of_grows hgrows
  intro hcurrent
  cases hround with
  | ended | closed | comment | halt =>
    exact (h hcurrent).imp_right fun hrecovering => hrecovering.of_grows hgrows
  | key => simp [PropertyDraft.begin] at hcurrent
  | colon hawaited =>
    simp only [Round.outcome_again, PropertyDraft.colon, PropertyDraft.modify,
      Option.map_eq_none_iff] at hcurrent
    exact .inr (hstays hcurrent (by simp [hawaited]))
  | value _ hawaited =>
    simp only [Round.outcome_again, PropertyDraft.fill, PropertyDraft.modify,
      Option.map_eq_none_iff] at hcurrent
    exact .inr (hstays hcurrent (by simp [hawaited]))
  | comma => exact .inl rfl
  | recover _ hgo hround =>
    have hcommit := Session.commit_recovering hgo
    exact .inr (hcommit.of_grows (hround.grows hcommit))

/-- Values are detached only while the reading goes on after a problem. -/
def DetachesRecovering (σ : Type) (c : Cursor) : Prop :=
  ∀ ⦃s : Session σ⦄, detachedValues c s ≠ [] → (readValue c s).2.Recovering

theorem SlotRound.recovering {c : Cursor} {hc : c.rest.length < n} {draft : SlotDraft}
    {s : Session σ} {round : Round σ SlotDraft c}
    (hround : SlotRound (fun d _ s => readValue d s) c hc draft s round)
    (hvalues : DetachesRecovering σ c) {found : List Value} (h : found ≠ [] → s.Recovering)
    (hfound : found ++ Moment.slotDetached ⟨c, hc, draft, s⟩ ≠ []) : round.session.Recovering := by
  have hgrows := hround.grows
  by_cases hbefore : found = []
  · rw [hbefore, List.nil_append] at hfound
    obtain ⟨value, d, t, hvalue, -, rfl, hdetached⟩ := hround.detached.resolve_left hfound
    rw [hdetached] at hfound
    have hrecovering := hvalues hfound
    rwa [hvalue] at hrecovering
  · exact (h hbefore).of_grows hgrows

theorem PropertyRound.recovering {c : Cursor} {hc : c.rest.length < n} {draft : PropertyDraft}
    {s : Session σ} {round : Round σ PropertyDraft c}
    (hround : PropertyRound (fun d _ s => readValue d s) c hc draft s round)
    (hvalues : DetachesRecovering σ c) (howned : draft.Owned s) {found : List Value}
    (h : found ≠ [] → s.Recovering)
    (hfound : found ++ Moment.propertyDetached ⟨c, hc, draft, s⟩ ≠ []) :
    round.session.Recovering := by
  have hgrows := hround.grows
  by_cases hbefore : found = []
  · rw [hbefore, List.nil_append] at hfound
    obtain ⟨value, d, t, hvalue, hawaited, rfl, hdetached⟩ := hround.detached.resolve_left hfound
    by_cases hnone : detachedValues c s = []
    · -- what is left is the value itself, and only a recovering object has no property for it
      cases hcurrent : draft.current with
      | none => exact ((howned hcurrent).resolve_left (by simp [hawaited])).of_grows hgrows
      | some p => simp [hdetached, hnone, hcurrent] at hfound
    · have hrecovering := hvalues hnone
      rwa [hvalue] at hrecovering
  · exact (h hbefore).of_grows hgrows

theorem readSlots_detaches (hvalues : ∀ ⦃c⦄, c.rest.length < n → DetachesRecovering σ c)
    {c : Cursor} (hc : c.rest.length < n) (s : Session σ)
    (h : (moments (slotStep fun d _ s => readValue d s) c hc {} s).flatMap
      Moment.slotDetached ≠ []) :
    (readSlots (fun d _ s => readValue d s) c hc {} s).2.2.2.Recovering := by
  rw [readSlots_eq_rounds]
  refine rounds_collects _ Moment.slotDetached
    (fun _ s found => found ≠ [] → s.Recovering) ?_ hc {} s (absurd rfl) h
  intro c hc draft s found hfound
  exact (slotStep_round readValue_quiet c hc draft s).recovering (hvalues hc) hfound

theorem readProperties_detaches (hvalues : ∀ ⦃c⦄, c.rest.length < n → DetachesRecovering σ c)
    {c : Cursor} (hc : c.rest.length < n) (s : Session σ)
    (h : (moments (propertyStep fun d _ s => readValue d s) c hc {} s).flatMap
      Moment.propertyDetached ≠ []) :
    (readProperties (fun d _ s => readValue d s) c hc {} s).2.2.2.Recovering := by
  rw [readProperties_eq_rounds]
  refine (rounds_collects _ Moment.propertyDetached
    (fun draft s found => draft.Owned s ∧ (found ≠ [] → s.Recovering)) ?_ hc {} s
    ⟨fun _ => .inl rfl, absurd rfl⟩).2 h
  rintro c hc draft s found ⟨howned, hfound⟩
  have hround := propertyStep_round readValue_quiet c hc draft s
  exact ⟨hround.owned howned, hround.recovering (hvalues hc) howned hfound⟩

/-- No value is detached at any depth before a problem is met, nor when problems halt the
reading. -/
theorem readValue_detaches (c : Cursor) : DetachesRecovering σ c := by
  intro s h
  have law := Session.Grows.law (σ := σ)
  have hread := readValue_read c s
  generalize readValue c s = reading at hread ⊢
  cases hread with
  | text htext =>
    obtain ⟨quote, hquote⟩ := readText_some_quote htext
    exact absurd (detachedValues_of_quote hquote s) h
  | expression _ hexpression =>
    obtain ⟨scanned, hscan, -⟩ := readExpression_some hexpression
    exact absurd (detachedValues_of_scan hscan s) h
  | @array inner hlt d draft closed t value hinner hslots hvalue hd =>
    rw [detachedValues_array hinner hlt] at h
    have hloop := readSlots_detaches (fun c _ => readValue_detaches c) hlt s h
    rw [hslots] at hloop
    exact hloop.of_grows (.trans (law.commitUnclosed c t closed _ _) (.observe _ _))
  | @object inner hlt d draft closed t u value hinner hbrace hproperties hu hvalue hd =>
    subst hu
    rw [detachedValues_object hinner hbrace hlt] at h
    have hloop := readProperties_detaches (fun c _ => readValue_detaches c) hlt s h
    rw [hproperties] at hloop
    have hunclosed := hloop.of_grows
      (law.commitUnclosed c t closed draft.awaited.missing d.1.position)
    exact hunclosed.of_grows (.trans (law.flush c draft _) (.observe _ _))
  | scalar hbracket hbrace => exact absurd (detachedValues_of_head hbracket hbrace s) h
  | none hbracket hbrace => exact absurd (detachedValues_of_head hbracket hbrace s) h
termination_by c.rest.length

end DataTemplate
