/-
What arrays and objects under construction hold.  The values of an array and the properties of an
object only ever grow at the end, and the property being built lacks the parts that its object still
waits for.  What holds of each value or property as it is made holds of all of them in the end.
Main statements: `SlotDraft.values_finish`, `PropertyRound.lacks` and `readProperties_forall`.
-/
import DataTemplate.Proofs.Preorder
import DataTemplate.Proofs.Rounds

namespace DataTemplate

variable {σ : Type} {n : Nat}

/-! ### Arrays -/

/-- No slot of an array is closed before one was opened. -/
def SlotDraft.Opened (draft : SlotDraft) : Prop := draft.current = none → draft.closed = #[]

theorem SlotDraft.values_comma (draft : SlotDraft) (position : Nat) :
    slotValues (draft.comma position).slots = slotValues draft.slots := by
  cases hcurrent : draft.current with
  | none => simp [slotValues, slots, comma, currentAt, hcurrent]
  | some slot => cases hvalue : slot.value <;>
      simp [slotValues, slots, comma, currentAt, hcurrent, hvalue]

theorem SlotDraft.values_fill {draft : SlotDraft} (hopen : draft.awaitsValue = true)
    (value : Value) : slotValues (draft.fill value).slots = slotValues draft.slots ++ [value] := by
  cases hcurrent : draft.current with
  | none => simp [slotValues, slots, fill, currentAt, hcurrent]
  | some slot =>
    have hslot : slot.value = none := by simpa [awaitsValue, hcurrent] using hopen
    simp [slotValues, slots, fill, currentAt, hcurrent, hslot]

/-- Finishing an array leaves its slots as they are, or drops an open one without a value. -/
theorem SlotDraft.finish_cases {draft : SlotDraft} (hopened : draft.Opened) :
    draft.finish = draft.slots ∨
      ∃ slot, draft.current = some slot ∧ slot.value = none ∧
        draft.finish = draft.closed.toList := by
  unfold finish
  split
  · rename_i hdrop
    obtain ⟨hlength, hopen⟩ := by simpa using hdrop
    cases hcurrent : draft.current with
    | none => simp [slots, hcurrent, hopened hcurrent] at hlength
    | some slot =>
      have hslot : slot.value = none := by simpa [awaitsValue, hcurrent] using hopen
      exact .inr ⟨slot, rfl, hslot, by simp [slots, hcurrent]⟩
  · exact .inl rfl

/-- Dropping an empty last slot drops no value. -/
theorem SlotDraft.values_finish {draft : SlotDraft} (hopened : draft.Opened) :
    slotValues draft.finish = slotValues draft.slots := by
  rcases draft.finish_cases hopened with hsame | ⟨slot, hcurrent, hslot, hdrop⟩
  · rw [hsame]
  · simp [slotValues, slots, hcurrent, hslot, hdrop]

/-- The commas recorded in some slots. -/
def slotCommas (slots : List (Slot Value)) : List Nat := slots.filterMap (·.comma)

/-- The open slot of an array has no comma. -/
def SlotDraft.OpenEnded (draft : SlotDraft) : Prop :=
  ∀ slot, draft.current = some slot → slot.comma = none

theorem SlotDraft.commas_comma {draft : SlotDraft} (h : draft.OpenEnded) (position : Nat) :
    slotCommas (draft.comma position).slots = slotCommas draft.slots ++ [position] := by
  cases hcurrent : draft.current with
  | none => simp [slotCommas, slots, comma, hcurrent]
  | some slot => simp [slotCommas, slots, comma, hcurrent, h slot hcurrent]

theorem SlotDraft.commas_fill (draft : SlotDraft) (value : Value) :
    slotCommas (draft.fill value).slots = slotCommas draft.slots := by
  cases hcurrent : draft.current with
  | none => simp [slotCommas, slots, fill, currentAt, hcurrent]
  | some slot => cases hcomma : slot.comma <;>
      simp [slotCommas, slots, fill, currentAt, hcurrent, hcomma]

/-- Dropping an empty last slot drops no comma. -/
theorem SlotDraft.commas_finish {draft : SlotDraft} (hopened : draft.Opened)
    (h : draft.OpenEnded) : slotCommas draft.finish = slotCommas draft.slots := by
  rcases draft.finish_cases hopened with hsame | ⟨slot, hcurrent, -, hdrop⟩
  · rw [hsame]
  · simp [slotCommas, slots, hcurrent, h slot hcurrent, hdrop]

/-! ### Objects -/

namespace PropertyDraft

/-- The properties read so far. -/
def properties (draft : PropertyDraft) : List (Property Value) :=
  draft.finished.toList ++ draft.current.toList

/-- The parts that the property being built lacks while its object waits. -/
def Lacks (draft : PropertyDraft) : Prop :=
  ∀ p, draft.current = some p →
    match draft.awaited with
    | .keyOrEnd => True
    | .colon => p.colon = none ∧ p.value = none ∧ p.comma = none
    | .value => p.value = none ∧ p.comma = none
    | .commaOrEnd => p.comma = none

variable {draft : PropertyDraft}

theorem properties_flush (draft : PropertyDraft) (s : Session σ) :
    (draft.flush s).1.properties = draft.properties := by
  cases hcurrent : draft.current <;> simp [flush, properties, hcurrent]

theorem current_flush (draft : PropertyDraft) (s : Session σ) :
    (draft.flush s).1.current = none := by
  cases hcurrent : draft.current <;> simp [flush, hcurrent]

theorem finished_flush (draft : PropertyDraft) (s : Session σ) :
    (draft.flush s).1.finished.toList = draft.properties := by
  rw [← properties_flush draft s, properties, current_flush, Option.toList_none, List.append_nil]

theorem properties_begin (draft : PropertyDraft) (key : Key) (s : Session σ) :
    (draft.begin key s).1.properties = draft.properties ++ [⟨key, none, none, none⟩] := by
  cases hcurrent : draft.current <;> simp [begin, flush, properties, hcurrent]

/-- A change of the property being built keeps what holds of every property, if it does so there. -/
theorem forall_modify {draft : PropertyDraft} {holds : Property Value → Prop}
    {f : Property Value → Property Value} (h : ∀ p ∈ draft.properties, holds p)
    (hf : ∀ p, draft.current = some p → holds p → holds (f p)) :
    ∀ p ∈ (draft.modify f).properties, holds p := by
  intro p hp
  cases hcurrent : draft.current with
  | none =>
    refine h p ?_
    simpa [properties, modify, hcurrent] using hp
  | some last =>
    simp only [properties, modify, hcurrent, Option.map_some, Option.toList_some,
      List.mem_append, List.mem_singleton] at hp
    rcases hp with hp | rfl
    · exact h p (by simp [properties, hp])
    · exact hf last hcurrent (h last (by simp [properties, hcurrent]))

theorem lacks_begin (draft : PropertyDraft) (key : Key) (s : Session σ) :
    (draft.begin key s).1.Lacks := by
  intro p hp
  obtain rfl := Option.some.inj hp
  exact ⟨rfl, rfl, rfl⟩

theorem lacks_colon (position : Nat)
    (h : ∀ p, draft.current = some p → p.colon = none ∧ p.value = none ∧ p.comma = none) :
    (draft.colon position).Lacks := by
  intro p hp
  obtain ⟨q, hq, rfl⟩ := Option.map_eq_some_iff.mp hp
  exact ⟨(h q hq).2.1, (h q hq).2.2⟩

theorem lacks_fill (value : Value)
    (h : ∀ p, draft.current = some p → p.value = none ∧ p.comma = none) :
    (draft.fill value).Lacks := by
  intro p hp
  obtain ⟨q, hq, rfl⟩ := Option.map_eq_some_iff.mp hp
  exact (h q hq).2

theorem lacks_comma (draft : PropertyDraft) (position : Nat) : (draft.comma position).Lacks :=
  fun _ _ => trivial

theorem Lacks.of_colon (h : draft.Lacks) (hawaited : draft.awaited = .colon) :
    ∀ p, draft.current = some p → p.colon = none ∧ p.value = none ∧ p.comma = none := by
  intro p hp
  have := h p hp
  rwa [hawaited] at this

theorem Lacks.of_value (h : draft.Lacks) (hawaited : draft.awaited = .value) :
    ∀ p, draft.current = some p → p.value = none ∧ p.comma = none := by
  intro p hp
  have := h p hp
  rwa [hawaited] at this

end PropertyDraft

/-! ### Rounds -/

theorem SlotRound.opened {rule : ValueRule σ n} {c : Cursor} {hc : c.rest.length < n}
    {draft : SlotDraft} {s : Session σ} {round : Round σ SlotDraft c}
    (hround : SlotRound rule c hc draft s round) (h : draft.Opened) : round.outcome.2.Opened := by
  cases hround with
  | comma => simp [SlotDraft.Opened, Round.outcome, SlotDraft.comma]
  | value => simp [SlotDraft.Opened, Round.outcome, SlotDraft.fill]
  | ended | closed | comment | halt | recover => exact h

theorem SlotRound.openEnded {rule : ValueRule σ n} {c : Cursor} {hc : c.rest.length < n}
    {draft : SlotDraft} {s : Session σ} {round : Round σ SlotDraft c}
    (hround : SlotRound rule c hc draft s round) (h : draft.OpenEnded) :
    round.outcome.2.OpenEnded := by
  cases hround with
  | comma =>
    rintro slot hslot
    obtain rfl := Option.some.inj hslot
    rfl
  | value =>
    rintro slot hslot
    obtain rfl := Option.some.inj hslot
    cases hcurrent : draft.current with
    | none => simp [SlotDraft.currentAt, hcurrent]
    | some slot => simpa [SlotDraft.currentAt, hcurrent] using h slot hcurrent
  | ended | closed | comment | halt | recover => exact h

theorem readSlots_opened {rule : ValueRule σ n} (hquiet : rule.Quiet) {c : Cursor}
    (hc : c.rest.length < n) (draft : SlotDraft) (s : Session σ) (h : draft.Opened) :
    (readSlots rule c hc draft s).2.1.Opened := by
  rw [readSlots_eq_rounds]
  refine rounds_invariant (slotStep rule) (fun _ draft _ => draft.Opened) (fun _ _ _ h => h) ?_
    hc draft s h
  intro c hc draft s hopened
  exact (slotStep_round hquiet c hc draft s).opened hopened

theorem PropertyRecovery.lacks {c : Cursor} {draft : PropertyDraft} {s : Session σ}
    {round : Round σ PropertyDraft c} (hround : PropertyRecovery c draft s round)
    (h : draft.Lacks) : round.outcome.2.Lacks := by
  cases hround with
  | lost | closed => exact h
  | comma => exact PropertyDraft.lacks_comma draft _
  | @key _ key _ t =>
    exact PropertyDraft.lacks_colon _ ((PropertyDraft.lacks_begin draft key t).of_colon rfl)
  | detach =>
    apply PropertyDraft.lacks_colon
    simp [PropertyDraft.current_flush]

/-- What is awaited is never there already. -/
theorem PropertyRound.lacks {rule : ValueRule σ n} {c : Cursor} {hc : c.rest.length < n}
    {draft : PropertyDraft} {s : Session σ} {round : Round σ PropertyDraft c}
    (hround : PropertyRound rule c hc draft s round) (h : draft.Lacks) :
    round.outcome.2.Lacks := by
  cases hround with
  | ended | comment | closed | halt => exact h
  | key => exact PropertyDraft.lacks_begin draft _ _
  | colon hawaited => exact PropertyDraft.lacks_colon _ (h.of_colon hawaited)
  | value _ hawaited => exact PropertyDraft.lacks_fill _ (h.of_value hawaited)
  | comma => exact PropertyDraft.lacks_comma draft _
  | recover _ _ hround => exact hround.lacks h

/-! ### What holds of all that is read -/

/-- What holds of every value that the rule reads holds of every value in an array. -/
theorem SlotRound.forall_values {holds : Value → Prop} {rule : ValueRule σ n}
    (hrule : ∀ ⦃c hc s value d t⦄, rule c hc s = (some (value, d), t) → holds value) {c : Cursor}
    {hc : c.rest.length < n} {draft : SlotDraft} {s : Session σ} {round : Round σ SlotDraft c}
    (hround : SlotRound rule c hc draft s round) (h : ∀ v ∈ slotValues draft.slots, holds v) :
    ∀ v ∈ slotValues round.outcome.2.slots, holds v := by
  cases hround with
  | comma => rwa [Round.outcome_again, SlotDraft.values_comma]
  | value _ hopen hvalue =>
    rw [Round.outcome_again, SlotDraft.values_fill hopen]
    exact List.forall_mem_append.mpr ⟨h, List.forall_mem_singleton.mpr (hrule hvalue)⟩
  | ended | closed | comment | halt | recover => exact h

theorem readSlots_forall {holds : Value → Prop} {rule : ValueRule σ n} (hquiet : rule.Quiet)
    (hrule : ∀ ⦃c hc s value d t⦄, rule c hc s = (some (value, d), t) → holds value) {c : Cursor}
    (hc : c.rest.length < n) (s : Session σ) :
    ∀ v ∈ slotValues (readSlots rule c hc {} s).2.1.finish, holds v := by
  have hopened := readSlots_opened hquiet hc {} s fun _ => rfl
  rw [SlotDraft.values_finish hopened, readSlots_eq_rounds]
  refine rounds_invariant (slotStep rule)
    (fun _ draft _ => ∀ v ∈ slotValues draft.slots, holds v) (fun _ _ _ h => h) ?_ hc {} s
    (by simp [slotValues, SlotDraft.slots])
  intro c hc draft s h
  exact (slotStep_round hquiet c hc draft s).forall_values hrule h

/-- What holds of a property with a key alone, and goes on to hold as its other parts are met. -/
structure PropertyLaw (rule : ValueRule σ n) (holds : Property Value → Prop) : Prop where
  key : ∀ ⦃c : Cursor⦄ ⦃s t : Session σ⦄ ⦃key d⦄, readKey c s = (some (key, d), t) →
    holds ⟨key, none, none, none⟩
  colon : ∀ ⦃p⦄ position, holds p → holds { p with colon := some position }
  value : ∀ ⦃c hc s value d t⦄, rule c hc s = (some (value, d), t) → ∀ ⦃p⦄, holds p →
    holds { p with value := some value }
  comma : ∀ ⦃p⦄ position, holds p → holds { p with comma := some position }

namespace PropertyLaw

variable {rule : ValueRule σ n} {holds : Property Value → Prop} {draft : PropertyDraft}

theorem begin (law : PropertyLaw rule holds) (h : ∀ p ∈ draft.properties, holds p) {c : Cursor}
    {s t : Session σ} {key : Key} {d : c.After} (hkey : readKey c s = (some (key, d), t)) :
    ∀ p ∈ (draft.begin key t).1.properties, holds p := by
  rw [PropertyDraft.properties_begin]
  exact List.forall_mem_append.mpr ⟨h, List.forall_mem_singleton.mpr (law.key hkey)⟩

theorem recovery (law : PropertyLaw rule holds) {c : Cursor} {s : Session σ}
    {round : Round σ PropertyDraft c} (hround : PropertyRecovery c draft s round)
    (h : ∀ p ∈ draft.properties, holds p) : ∀ p ∈ round.outcome.2.properties, holds p := by
  cases hround with
  | lost | closed => exact h
  | comma => exact PropertyDraft.forall_modify h fun _ _ hp => law.comma _ hp
  | key _ _ _ hkey =>
    exact PropertyDraft.forall_modify (law.begin h hkey) fun _ _ hp => law.colon _ hp
  | @detach _ tried =>
    have hflush : ∀ p ∈ (draft.flush (tried.rollback s.checkpoint)).1.properties, holds p := by
      rwa [PropertyDraft.properties_flush]
    exact PropertyDraft.forall_modify hflush fun _ _ hp => law.colon _ hp

theorem round (law : PropertyLaw rule holds) {c : Cursor} {hc : c.rest.length < n} {s : Session σ}
    {round : Round σ PropertyDraft c} (hround : PropertyRound rule c hc draft s round)
    (h : ∀ p ∈ draft.properties, holds p) : ∀ p ∈ round.outcome.2.properties, holds p := by
  cases hround with
  | ended | comment | closed | halt => exact h
  | key _ hkey => exact law.begin h hkey
  | colon => exact PropertyDraft.forall_modify h fun _ _ hp => law.colon _ hp
  | value _ _ hvalue => exact PropertyDraft.forall_modify h fun _ _ hp => law.value hvalue hp
  | comma => exact PropertyDraft.forall_modify h fun _ _ hp => law.comma _ hp
  | recover _ _ hround => exact law.recovery hround h

end PropertyLaw

theorem readProperties_forall {holds : Property Value → Prop} {rule : ValueRule σ n}
    (hquiet : rule.Quiet) (law : PropertyLaw rule holds) {c : Cursor} (hc : c.rest.length < n)
    (s : Session σ) : ∀ p ∈ (readProperties rule c hc {} s).2.1.properties, holds p := by
  rw [readProperties_eq_rounds]
  refine rounds_invariant (propertyStep rule)
    (fun _ draft _ => ∀ p ∈ draft.properties, holds p) (fun _ _ _ h => h) ?_ hc {} s
    (by simp [PropertyDraft.properties])
  intro c hc draft s h
  exact law.round (propertyStep_round hquiet c hc draft s) h

end DataTemplate
