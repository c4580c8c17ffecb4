/-
The reader that spells out every field reads the same documents.  What it builds is at every moment
what the fields of a draft say when they are computed: the two lists of an array stay in step with
its slots, the end of a property with its parts.  Each rule comes with the equation between its two
readings, and the equations compose along the grammar.
Main statements: `SlotDraft.comma_builder`, `PropertyDraft.fill_builder`, `Explicit.readValue_eq` and
`Explicit.readDocument_eq`.
-/
import DataTemplate.Proofs.Drafts
import DataTemplate.Proofs.Policies
import DataTemplate.Reading.Explicit

namespace DataTemplate

variable {σ : Type} {n : Nat}

/-! ### Arrays under construction -/

/-- The last entry of an array is the one that was pushed. -/
theorem modify_push {α : Type} (xs : Array α) (x : α) (f : α → α) :
    (xs.push x).modify ((xs.push x).size - 1) f = xs.push (f x) := by
  apply Array.ext
  · simp
  · intro i hi _
    rw [Array.size_modify, Array.size_push] at hi
    rcases Nat.lt_succ_iff_lt_or_eq.mp hi with hlt | rfl
    · simp [Array.getElem_modify, Array.getElem_push_lt hlt, Nat.ne_of_gt hlt]
    · simp [Array.getElem_modify]

namespace SlotDraft

/-- The two lists of an array under construction. -/
def builder (draft : SlotDraft) : Explicit.ArrayBuilder where
  items := (draft.slots.map Slot.item).toArray
  locations := (draft.slots.map Slot.location).toArray
  slotEmpty := draft.awaitsValue

/-- Both lists end with the open slot. -/
theorem builder_mk (closed : Array (Slot Value)) (slot : Slot Value) :
    (mk closed (some slot)).builder =
      { items := (closed.map Slot.item).push slot.item
        locations := (closed.map Slot.location).push slot.location
        slotEmpty := slot.value.isNone } := by
  have hitems : ((mk closed (some slot)).slots.map Slot.item).toArray =
      (closed.map Slot.item).push slot.item := Array.toList_inj.mp (by simp [slots])
  have hlocations : ((mk closed (some slot)).slots.map Slot.location).toArray =
      (closed.map Slot.location).push slot.location := Array.toList_inj.mp (by simp [slots])
  rw [builder, hitems, hlocations]
  rfl

variable {draft : SlotDraft}

theorem eq_mk {slot : Slot Value} (h : draft.current = some slot) :
    draft = mk draft.closed (some slot) := by rw [← h]

/-- A slot is opened where there was none yet. -/
theorem opened_builder (hopened : draft.Opened) (position : Nat) :
    draft.builder.opened position =
      (mk draft.closed (some (draft.currentAt position))).builder := by
  cases hcurrent : draft.current with
  | some slot =>
    rw [currentAt, hcurrent, Option.getD_some, ← eq_mk hcurrent, eq_mk hcurrent, builder_mk]
    simp [Explicit.ArrayBuilder.opened]
  | none =>
    rw [builder_mk, currentAt, hcurrent]
    simp [builder, slots, awaitsValue, Explicit.ArrayBuilder.opened, hcurrent, hopened hcurrent,
      Slot.item, Slot.location, Slot.valueSpan, Explicit.ItemLocation.empty]

/-- A comma changes the last place, and both lists go on. -/
theorem comma_builder (hopened : draft.Opened) (position : Nat) :
    draft.builder.comma position = (draft.comma position).builder := by
  rw [Explicit.ArrayBuilder.comma, opened_builder hopened, comma, builder_mk, builder_mk]
  simp only [Explicit.ArrayBuilder.relocate, modify_push, Array.map_push]
  rfl

/-- A value changes the last entry of both lists. -/
theorem fill_builder (hopened : draft.Opened) (value : Value) :
    draft.builder.fill value.explicit = (draft.fill value).builder := by
  rw [Explicit.ArrayBuilder.fill, Value.span_explicit, opened_builder hopened, fill, builder_mk,
    builder_mk]
  simp only [Explicit.ArrayBuilder.relocate, modify_push]
  rfl

/-- Both lists lose their last entry, or neither does. -/
theorem finish_builder (hopened : draft.Opened) :
    draft.builder.finish = (draft.finish.map Slot.item, draft.finish.map Slot.location) := by
  cases hcurrent : draft.current with
  | none =>
    simp [Explicit.ArrayBuilder.finish, finish, builder, slots, hcurrent, hopened hcurrent]
  | some slot =>
    have hvalue : slot.location.hasValue = slot.value.isSome := rfl
    rw [eq_mk hcurrent, builder_mk, Explicit.ArrayBuilder.finish, finish]
    simp only [slots, awaitsValue, Array.back?_push, Option.any_some, hvalue,
      Option.not_isSome, Array.size_push, Array.size_map, List.length_append, Array.length_toList,
      Option.toList_some, List.length_singleton]
    split <;> simp

theorem missing_builder (draft : SlotDraft) : draft.builder.missing = draft.missing := rfl

end SlotDraft

/-! ### Objects under construction -/

/-- A property under construction, with its end. -/
def Property.builder (property : Property Value) : Explicit.PropertyBuilder where
  key := property.key.explicit
  value := property.value.map Value.explicit
  stop := property.stop
  colonStart := property.colon
  trailingCommaStart := property.comma

theorem Property.finish_builder (property : Property Value) :
    property.builder.finish = property.explicit := by
  simp [builder, Explicit.PropertyBuilder.finish, explicit, explicitWith, span]

namespace PropertyDraft

/-- An object under construction, its properties with their ends. -/
def builder (draft : PropertyDraft) : Explicit.ObjectBuilder where
  properties := draft.finished.map Property.explicit
  current := draft.current.map Property.builder
  awaited := draft.awaited

variable {draft : PropertyDraft}

theorem builder_empty : builder {} = {} := by simp [builder]

theorem delimiters_builder (draft : PropertyDraft) :
    draft.builder.delimiters = draft.delimiters := rfl

/-- A colon ends a property that has neither a value nor a comma. -/
theorem colon_builder (position : Nat)
    (h : ∀ p, draft.current = some p → p.colon = none ∧ p.value = none ∧ p.comma = none) :
    draft.builder.colon position = (draft.colon position).builder := by
  cases hcurrent : draft.current with
  | none => simp [builder, Explicit.ObjectBuilder.colon, colon, modify, hcurrent]
  | some p =>
    obtain ⟨-, hvalue, hcomma⟩ := h p hcurrent
    simp [builder, Explicit.ObjectBuilder.colon, colon, modify, hcurrent, Property.builder,
      Property.stop, hvalue, hcomma]

/-- A value ends a property that has no comma. -/
theorem fill_builder (value : Value)
    (h : ∀ p, draft.current = some p → p.value = none ∧ p.comma = none) :
    draft.builder.fill value.explicit = (draft.fill value).builder := by
  cases hcurrent : draft.current with
  | none => simp [builder, Explicit.ObjectBuilder.fill, fill, modify, hcurrent]
  | some p =>
    obtain ⟨-, hcomma⟩ := h p hcurrent
    simp [builder, Explicit.ObjectBuilder.fill, fill, modify, hcurrent, Property.builder,
      Property.stop, hcomma]

/-- A comma ends any property. -/
theorem comma_builder (draft : PropertyDraft) (position : Nat) :
    draft.builder.comma position = (draft.comma position).builder := by
  cases hcurrent : draft.current <;>
    simp [builder, Explicit.ObjectBuilder.comma, comma, modify, hcurrent, Property.builder,
      Property.stop]

end PropertyDraft

namespace Explicit

/-! ### Hosts -/

/-- The host of a session is told of nodes with every field spelled out. -/
def Hooks.Drives (hooks : Hooks σ) (s : Session σ) : Prop := s.hooks = hooks.onNodes

variable {hooks : Hooks σ} {s t : Session σ}

theorem Hooks.Drives.of_grows (h : hooks.Drives s) (hgrows : s.Grows t) : hooks.Drives t :=
  hgrows.hooks_eq.trans h

theorem Hooks.Drives.tell (h : hooks.Drives s) (node : DataTemplate.Node) :
    tell hooks s node.explicit = s.observe node := by
  have hobserve : s.hooks.observe s.state node = hooks.observe s.state node.explicit := by
    rw [h]
    rfl
  rw [Explicit.tell, Session.observe, hobserve]

/-- A rule that spells out what another finds, in a session that the host drives. -/
def Spells {α β : Type} {c : Cursor} (hooks : Hooks σ) (f : α → β)
    (spelled : Session σ → Reading σ β c) (plain : Session σ → Reading σ α c) : Prop :=
  ∀ s, hooks.Drives s →
    spelled s = ((plain s).1.map fun found => (f found.1, found.2), (plain s).2)

/-! ### Strings and keys -/

/-- The parts of string content. -/
def contentParts (content : Content) : List TextPart :=
  .segment content.first :: content.more.flatMap fun (e, s) => [.expression e, .segment s]

theorem pushSegment_eq (hdrives : hooks.Drives s) (parts : Array TextPart) (c d : Cursor) :
    pushSegment hooks parts c d s =
      (parts.push (.segment (segmentBetween c d)), s.observe (.segment (segmentBetween c d))) :=
  congrArg (Prod.mk _) (hdrives.tell (.segment (segmentBetween c d)))

theorem readParts_eq (hdrives : hooks.Drives s) (quote : Option Quote) (parts : Array TextPart)
    (segment c : Cursor) :
    readParts hooks quote parts segment c s =
      (parts ++ (contentParts (readContent quote segment c s).1).toArray,
        (readContent quote segment c s).1.closed, (readContent quote segment c s).2) := by
  fun_induction readContent quote segment c s generalizing parts with
  | case1 segment c s hfind last =>
    rw [readParts]
    simp only [hfind, pushSegment_eq hdrives]
    simp [contentParts, last]
  | case2 segment c s hit hfind hneedle t hread hlt content d u hrest ih =>
    obtain ⟨-, rfl⟩ := readExpression_none hread
    rw [hrest] at ih
    rw [readParts]
    simp only [hfind, hneedle, if_true, hread, ih hdrives]
  | case3 segment c s hit hfind hneedle e after t hread hlt first content d u hrest ih =>
    have hgrows := Session.Grows.law.expression hread
    have hdriven := hdrives.of_grows hgrows
    rw [hrest] at ih
    have hmore := ih (hdriven.of_grows (.observe _ _))
      ((parts.push (.segment first)).push (.expression e))
    rw [readParts]
    simp only [hfind, hneedle, if_true, hread, pushSegment_eq hdriven, hmore, first]
    simp [contentParts]
  | case4 segment c s hit hfind hneedle last =>
    rw [readParts]
    simp only [hfind, hneedle, pushSegment_eq hdrives]
    simp [contentParts, last]

/-- A string is dynamic when it has more than one part. -/
theorem text_of_content (span : Span) (quote : Option Quote) (content : Content) :
    (⟨span, quote, contentParts content, 1 < (contentParts content).length⟩ : Text) =
      (DataTemplate.Text.mk span quote content.first content.more).explicit := by
  have hdynamic : decide (1 < (contentParts content).length) = !content.more.isEmpty := by
    cases hmore : content.more <;> simp [contentParts, hmore]
  rw [hdynamic]
  rfl

theorem tellText (hdrives : hooks.Drives s) (text : DataTemplate.Text) :
    tell hooks s (.value (.text text.explicit)) = s.observe (.value (.text text)) := by
  have hnode : (DataTemplate.Node.value (.text text)).explicit = .value (.text text.explicit) := by
    rw [Node.explicit, Value.explicit]
  rw [← hnode, hdrives.tell]

theorem readTextContent_eq (hdrives : hooks.Drives s) (quote : Option Quote) (c inner : Cursor) :
    readTextContent hooks quote c inner s =
      ((DataTemplate.readTextContent quote c inner s).1.explicit,
        (DataTemplate.readTextContent quote c inner s).2) := by
  rw [readTextContent, readParts_eq hdrives, DataTemplate.readTextContent]
  have hgrows := Session.Grows.law.content quote inner inner s
  generalize readContent quote inner inner s = read at hgrows ⊢
  obtain ⟨content, d, t⟩ := read
  have hended : hooks.Drives
      (if content.closed then t else t.commit .unclosedString c.sourceLength) := by
    split
    · exact hdrives.of_grows hgrows
    · exact (hdrives.of_grows hgrows).of_grows (.commit t _ _)
  have htext := text_of_content ⟨c.position, d.1.position⟩ quote content
  simp only [finishText, Array.empty_append, List.size_toArray, htext, tellText hended]

theorem readStaticText_eq (hdrives : hooks.Drives s) (quote : Quote) (c d : Cursor)
    (raw : List Char) :
    let content := staticContent c d raw
    let plain := finishText (some quote) c d content (s.observe (.segment content.first))
    readStaticText hooks quote c d raw s = (plain.1.explicit, plain.2) := by
  intro content plain
  have hsegment : tell hooks s (.segment content.first) = s.observe (.segment content.first) :=
    hdrives.tell (.segment content.first)
  have htext := tellText (hdrives.of_grows (.observe s (.segment content.first))) plain.1
  rw [← hsegment] at htext
  exact Prod.ext rfl (htext.trans (by rw [hsegment]; rfl))

theorem readText_eq (c : Cursor) :
    Spells hooks DataTemplate.Text.explicit (readText hooks c) (DataTemplate.readText c) := by
  intro s hdrives
  unfold readText
  split
  · rw [readText_eq_none ‹_›]
    rfl
  · rename_i quote hquote
    rw [readText_of_quote hquote]
    dsimp only
    rw [readTextContent_eq hdrives]
    rcases c.matchQuoted with error | _ | ⟨raw, d⟩
    · rfl
    · rfl
    · dsimp only
      rw [readStaticText_eq hdrives]
      split <;> rfl

theorem readKey_eq (c : Cursor) :
    Spells hooks DataTemplate.Key.explicit (readKey hooks c) (DataTemplate.readKey c) := by
  intro s hdrives
  rw [readKey, readText_eq c s hdrives, DataTemplate.readKey]
  rcases DataTemplate.readText c s with ⟨_ | ⟨text, d⟩, t⟩
  · dsimp only [Option.map_none]
    rcases readExpression c t with ⟨_ | ⟨e, d⟩, u⟩
    · dsimp only
      rcases readIdentifier c u with ⟨_ | ⟨i, d⟩, v⟩ <;> rfl
    · rfl
  · rfl

/-! ### Rounds -/

/-- What a round leaves, with `f` applied to the draft. -/
def mapRound {δ δ' : Type} {c : Cursor} (f : δ → δ') : Round σ δ c → Round σ δ' c
  | .again next draft s => .again next (f draft) s
  | .stop last draft closed s => .stop last (f draft) closed s

/-- Steps that go the same way from all drafts and sessions that they can come to end the same. -/
theorem rounds_map {δ δ' : Type} (f : δ → δ') (holds : δ → Session σ → Prop)
    {spelled : RoundStep σ δ' n} {plain : RoundStep σ δ n}
    (hkeeps : ∀ ⦃c⦄ (hc : c.rest.length < n) ⦃draft s⦄, holds draft s →
      holds (plain c hc draft s).outcome.2 (plain c hc draft s).session)
    (hstep : ∀ ⦃c⦄ (hc : c.rest.length < n) ⦃draft s⦄, holds draft s →
      spelled c hc (f draft) s = mapRound f (plain c hc draft s))
    {c : Cursor} (hc : c.rest.length < n) (draft : δ) (s : Session σ) (h : holds draft s) :
    rounds spelled c hc (f draft) s =
        ((rounds plain c hc draft s).1, f (rounds plain c hc draft s).2.1,
          (rounds plain c hc draft s).2.2) ∧
      holds (rounds plain c hc draft s).2.1 (rounds plain c hc draft s).2.2.2 := by
  fun_induction rounds plain c hc draft s with
  | case1 c hc draft s hhalted => exact ⟨by rw [rounds, if_pos hhalted], h⟩
  | case2 c hc draft s hgo hle hn last draft' closed t hround =>
    have hsame := hstep hn h
    have hnext := hkeeps hn h
    rw [hround] at hsame hnext
    exact ⟨rounds_of_stop (eq_false_of_ne_true hgo) hsame, hnext⟩
  | case3 c hc draft s hgo hle hn next draft' t hround hlt hn' last result hrest ih =>
    have hsame := hstep hn h
    have hnext := hkeeps hn h
    rw [hround] at hsame hnext
    rw [hrest] at ih
    rw [mapRound] at hsame
    rw [rounds_of_again hn' (eq_false_of_ne_true hgo) hsame, (ih hnext).1]
    exact ⟨rfl, (ih hnext).2⟩

/-! ### Arrays -/

/-- A rule that spells out the values that another finds. -/
def RuleSpells (hooks : Hooks σ) (spelled : Rule σ n) (plain : ValueRule σ n) : Prop :=
  ∀ c hc, Spells hooks DataTemplate.Value.explicit (spelled c hc) (plain c hc)

theorem arrayStep_eq {spelled : Rule σ n} {plain : ValueRule σ n}
    (hrule : RuleSpells hooks spelled plain) {c : Cursor} (hc : c.rest.length < n)
    {draft : SlotDraft} (hopened : draft.Opened) (hdrives : hooks.Drives s) :
    arrayStep spelled c hc draft.builder s =
      mapRound SlotDraft.builder (slotStep plain c hc draft s) := by
  unfold arrayStep
  split
  · rw [slotStep_nil plain ‹_›]
    rfl
  · rename_i x rest hrest
    rw [slotStep_cons plain hrest]
    dsimp only
    split
    · rfl
    · split
      · rw [SlotDraft.comma_builder hopened]
        rfl
      · cases c.comment? with
        | some d => rfl
        | none =>
          by_cases hawaits : draft.awaitsValue = true
          · have hempty : draft.builder.slotEmpty = true := hawaits
            simp only [if_pos hempty, if_pos hawaits, hrule c hc s hdrives]
            rcases plain c hc s with ⟨_ | ⟨value, d⟩, t⟩
            · dsimp only [Option.map_none]
              rw [SlotDraft.missing_builder]
              split <;> rfl
            · dsimp only [Option.map_some]
              rw [SlotDraft.fill_builder hopened]
              rfl
          · have hfull : ¬ draft.builder.slotEmpty = true := hawaits
            simp only [if_neg hfull, if_neg hawaits]
            rw [SlotDraft.missing_builder]
            split <;> rfl

/-- Values with fewer than `n` characters left are spelled out. -/
abbrev ValuesSpell (hooks : Hooks σ) (n : Nat) : Prop :=
  RuleSpells (n := n) hooks (fun d _ s => readValue hooks d s)
    fun d _ s => DataTemplate.readValue d s

theorem arrayRounds_eq (hrule : ValuesSpell hooks n) {c : Cursor} (hc : c.rest.length < n)
    (hdrives : hooks.Drives s) :
    let plain := readSlots (fun d _ s => DataTemplate.readValue d s) c hc {} s
    rounds (arrayStep fun d _ s => readValue hooks d s) c hc {} s =
      (plain.1, plain.2.1.builder, plain.2.2) ∧ plain.2.1.Opened ∧ hooks.Drives plain.2.2.2 := by
  refine rounds_map SlotDraft.builder (fun draft t => draft.Opened ∧ hooks.Drives t) ?_ ?_ hc {} s
    ⟨fun _ => rfl, hdrives⟩
  · intro c hc draft t h
    have hround := slotStep_round readValue_quiet c hc draft t
    exact ⟨hround.opened h.1, h.2.of_grows hround.grows⟩
  · intro c hc draft t h
    exact arrayStep_eq hrule hc h.1 h.2

theorem Hooks.Drives.commitUnclosed (h : hooks.Drives s) (closed : Bool) (cause : Cause)
    (position : Nat) : hooks.Drives (s.commitUnclosed closed cause position) :=
  h.of_grows (Session.Grows.law.commitUnclosed (.ofText []) s closed cause position)

theorem finishArray_eq (hdrives : hooks.Drives s) (c d : Cursor) {draft : SlotDraft}
    (hopened : draft.Opened) (closed : Bool) :
    let value := DataTemplate.Value.array ⟨c.position, d.position⟩ draft.finish
    finishArray hooks c d draft.builder closed s =
      (value.explicit,
        (s.commitUnclosed closed .unclosedArray d.position).observe (.value value)) := by
  intro value
  have htold := (hdrives.commitUnclosed closed .unclosedArray d.position).tell (.value value)
  have hvalue : value.explicit = .array ⟨c.position, d.position⟩ (draft.finish.map Slot.item)
      (draft.finish.map Slot.location) := Value.explicit_array _ _
  rw [finishArray, SlotDraft.finish_builder hopened]
  dsimp only
  rw [← hvalue, ← htold]
  rfl

theorem readArray_eq {c : Cursor} (hrule : ValuesSpell hooks c.rest.length) :
    Spells hooks DataTemplate.Value.explicit (readArray hooks c fun d _ s => readValue hooks d s)
      (DataTemplate.readArray c fun d _ s => DataTemplate.readValue d s) := by
  intro s hdrives
  unfold readArray
  split
  · rename_i hnil
    rw [readArray_of_other (by simp [hnil])]
    rfl
  · rename_i x rest hrest
    split
    · subst x
      have hlt := (c.next (Cursor.rest_ne_nil hrest)).length_lt
      obtain ⟨hsame, hopened, hdriven⟩ := arrayRounds_eq hrule hlt hdrives
      rw [readArray_of_bracket hrest]
      simp only [hsame, finishArray_eq hdriven _ _ hopened]
      rfl
    · rename_i hx
      rw [readArray_of_other (by simp [hrest, hx])]
      rfl

/-! ### Objects -/

theorem flush_eq (hdrives : hooks.Drives s) (draft : PropertyDraft) :
    draft.builder.flush hooks s = ((draft.flush s).1.builder, (draft.flush s).2) := by
  cases hcurrent : draft.current with
  | none => simp [ObjectBuilder.flush, PropertyDraft.flush, PropertyDraft.builder, hcurrent]
  | some p =>
    have htold := hdrives.tell (.property p)
    rw [Node.explicit] at htold
    simp [ObjectBuilder.flush, PropertyDraft.flush, PropertyDraft.builder, hcurrent,
      Property.finish_builder, htold]

theorem begin_eq (hdrives : hooks.Drives s) (draft : PropertyDraft) (key : DataTemplate.Key) :
    draft.builder.begin hooks key.explicit s =
      ((draft.begin key s).1.builder, (draft.begin key s).2) := by
  have hkey : PropertyBuilder.ofKey key.explicit =
      (DataTemplate.Property.mk key none none none).builder := by
    rw [PropertyBuilder.ofKey, Key.span_explicit]
    rfl
  rw [ObjectBuilder.begin, flush_eq hdrives, hkey]
  rfl

theorem beginBeforeColon_eq (hdrives : hooks.Drives s) (c colon : Cursor)
    (draft : PropertyDraft) :
    beginBeforeColon hooks c colon draft.builder s =
      ((DataTemplate.beginBeforeColon c colon draft s).1.builder,
        (DataTemplate.beginBeforeColon c colon draft s).2) := by
  have hgrows : s.Grows (DataTemplate.readKey c s).2 := Session.Grows.law.key (c := c) rfl
  unfold beginBeforeColon DataTemplate.beginBeforeColon
  rw [readKey_eq c s hdrives]
  generalize DataTemplate.readKey c s = read at hgrows ⊢
  rcases read with ⟨_ | ⟨key, d⟩, tried⟩
  · exact flush_eq (hdrives.of_grows hgrows.rollback) draft
  · dsimp only [Option.map_some]
    split
    · exact begin_eq (hdrives.of_grows hgrows) draft key
    · exact flush_eq (hdrives.of_grows hgrows.rollback) draft

/-- The property whose colon was met after a problem has only its key, if there is one. -/
theorem beginBeforeColon_lacks (c colon : Cursor) (draft : PropertyDraft) (s : Session σ) :
    ∀ p, (DataTemplate.beginBeforeColon c colon draft s).1.current = some p →
      p.colon = none ∧ p.value = none ∧ p.comma = none := by
  unfold DataTemplate.beginBeforeColon
  split
  · split
    · exact (PropertyDraft.lacks_begin draft _ _).of_colon rfl
    · simp [PropertyDraft.current_flush]
  · simp [PropertyDraft.current_flush]

theorem recoverProperty_eq (hdrives : hooks.Drives s) (c : Cursor) (hc : c.rest ≠ [])
    (draft : PropertyDraft) :
    recoverProperty hooks c hc draft.builder s =
      mapRound PropertyDraft.builder (DataTemplate.recoverProperty c hc draft s) := by
  unfold recoverProperty DataTemplate.recoverProperty
  rw [PropertyDraft.delimiters_builder]
  cases nextDelimiter? draft.delimiters c with
  | none => rfl
  | some landing =>
    dsimp only
    split
    · rfl
    · split
      · rw [PropertyDraft.comma_builder]
        rfl
      · rw [beginBeforeColon_eq hdrives,
          PropertyDraft.colon_builder _ (beginBeforeColon_lacks c landing.here draft s)]
        rfl

theorem acceptToken_eq {spelled : Rule σ n} {plain : ValueRule σ n}
    (hrule : RuleSpells hooks spelled plain) {c : Cursor} (hc : c.rest.length < n)
    (hne : c.rest ≠ []) {draft : PropertyDraft} (hlacks : draft.Lacks)
    (hdrives : hooks.Drives s) :
    acceptToken hooks spelled c hc hne draft.builder s =
      (DataTemplate.acceptToken plain c hc hne draft s).map (mapRound PropertyDraft.builder) := by
  have hgrows : s.Grows (DataTemplate.readKey c s).2 := Session.Grows.law.key (c := c) rfl
  have hawaited : draft.builder.awaited = draft.awaited := rfl
  unfold acceptToken DataTemplate.acceptToken
  dsimp only
  rw [hawaited]
  cases hwaits : draft.awaited with
  | keyOrEnd =>
    dsimp only
    split
    · rfl
    · rw [readKey_eq c s hdrives]
      generalize DataTemplate.readKey c s = read at hgrows ⊢
      rcases read with ⟨_ | ⟨key, d⟩, t⟩
      · rfl
      · dsimp only [Option.map_some]
        rw [begin_eq (hdrives.of_grows hgrows)]
        rfl
  | colon =>
    dsimp only
    split
    · rw [PropertyDraft.colon_builder _ (hlacks.of_colon hwaits)]
      rfl
    · rfl
  | value =>
    dsimp only
    rw [hrule c hc s hdrives]
    rcases plain c hc s with ⟨_ | ⟨value, d⟩, t⟩
    · rfl
    · dsimp only [Option.map_some]
      rw [PropertyDraft.fill_builder _ (hlacks.of_value hwaits)]
      rfl
  | commaOrEnd =>
    dsimp only
    split
    · rfl
    · split
      · rw [PropertyDraft.comma_builder]
        rfl
      · rfl

theorem objectStep_eq {spelled : Rule σ n} {plain : ValueRule σ n}
    (hrule : RuleSpells hooks spelled plain) (hquiet : plain.Quiet) {c : Cursor}
    (hc : c.rest.length < n) {draft : PropertyDraft} (hlacks : draft.Lacks)
    (hdrives : hooks.Drives s) :
    objectStep hooks spelled c hc draft.builder s =
      mapRound PropertyDraft.builder (propertyStep plain c hc draft s) := by
  have hawaited : draft.builder.awaited = draft.awaited := rfl
  unfold objectStep propertyStep
  split
  · rfl
  · rename_i hne
    cases c.comment? with
    | some d => rfl
    | none =>
      dsimp only
      rw [acceptToken_eq hrule hc hne hlacks hdrives]
      cases htoken : DataTemplate.acceptToken plain c hc hne draft s with
      | ok round => rfl
      | error t =>
        obtain ⟨rfl, -⟩ := acceptToken_error hquiet htoken
        dsimp only [Except.map]
        rw [hawaited, recoverProperty_eq (hdrives.of_grows (.commit t _ _))]
        split <;> rfl

theorem objectRounds_eq (hrule : ValuesSpell hooks n) {c : Cursor} (hc : c.rest.length < n)
    (hdrives : hooks.Drives s) :
    let plain := readProperties (fun d _ s => DataTemplate.readValue d s) c hc {} s
    rounds (objectStep hooks fun d _ s => readValue hooks d s) c hc {} s =
      (plain.1, plain.2.1.builder, plain.2.2) ∧ plain.2.1.Lacks ∧ hooks.Drives plain.2.2.2 := by
  rw [← PropertyDraft.builder_empty]
  refine rounds_map PropertyDraft.builder (fun draft t => draft.Lacks ∧ hooks.Drives t) ?_ ?_ hc
    {} s ⟨by simp [PropertyDraft.Lacks], hdrives⟩
  · intro c hc draft t h
    have hround := propertyStep_round readValue_quiet c hc draft t
    exact ⟨hround.lacks h.1, h.2.of_grows hround.grows⟩
  · intro c hc draft t h
    exact objectStep_eq hrule readValue_quiet hc h.1 h.2

theorem finishObject_eq (hdrives : hooks.Drives s) (c d : Cursor) (draft : PropertyDraft)
    (closed : Bool) :
    let u := s.commitUnclosed closed draft.awaited.missing d.position
    let value := DataTemplate.Value.object ⟨c.position, d.position⟩
      (draft.flush u).1.finished.toList
    finishObject hooks c d draft.builder closed s =
      (value.explicit, (draft.flush u).2.observe (.value value)) := by
  intro u value
  have hdriven : hooks.Drives u := hdrives.commitUnclosed closed _ _
  have hflushed := hdriven.of_grows (Session.Grows.law.flush c draft u)
  have htold := hflushed.tell (.value value)
  have hvalue : value.explicit =
      .object ⟨c.position, d.position⟩ (draft.flush u).1.builder.properties.toList := by
    rw [Value.explicit_object, PropertyDraft.builder, Array.toList_map]
  have hflush : draft.builder.flush hooks u = _ := flush_eq hdriven draft
  have hawaited : draft.builder.awaited = draft.awaited := rfl
  rw [← htold, Node.explicit, hvalue]
  simp only [finishObject, hawaited, hflush, u]

theorem readObject_eq {c : Cursor} (hrule : ValuesSpell hooks c.rest.length) :
    Spells hooks DataTemplate.Value.explicit
      (readObject hooks c fun d _ s => readValue hooks d s)
      (DataTemplate.readObject c fun d _ s => DataTemplate.readValue d s) := by
  intro s hdrives
  unfold readObject
  split
  · rename_i hnil
    rw [readObject_of_other (by simp [hnil])]
    rfl
  · rename_i x rest hrest
    split
    · rename_i hbrace
      obtain ⟨rfl, hsingle⟩ := hbrace
      have hlt := (c.next (Cursor.rest_ne_nil hrest)).length_lt
      obtain ⟨hsame, -, hdriven⟩ := objectRounds_eq hrule hlt hdrives
      rw [readObject_of_brace hrest hsingle]
      simp only [hsame, finishObject_eq hdriven]
      rfl
    · rename_i hbrace
      have hother : ∀ tail, c.rest = '{' :: tail → tail.head? = some '{' := by
        simpa [hrest] using hbrace
      rw [readObject_of_other hother]
      rfl

/-! ### Values -/

/-- A value is read the same with every field spelled out. -/
theorem readValue_eq (c : Cursor) :
    Spells hooks DataTemplate.Value.explicit (readValue hooks c) (DataTemplate.readValue c) := by
  have hrule : ValuesSpell hooks c.rest.length := fun d _ => readValue_eq d
  intro s hdrives
  rw [readValue, readText_eq c s hdrives, DataTemplate.readValue]
  rcases htext : DataTemplate.readText c s with ⟨_ | ⟨text, d⟩, t⟩
  · obtain ⟨-, rfl⟩ := readText_none htext
    dsimp only [Option.map_none]
    rcases hexpression : readExpression c t with ⟨_ | ⟨e, d⟩, u⟩
    · obtain ⟨-, rfl⟩ := readExpression_none hexpression
      dsimp only
      rw [readArray_eq hrule u hdrives]
      rcases readArray_read (c := c) (s := u) with ⟨found, v, harray, -⟩ | ⟨-, harray⟩
      · rw [harray]
        rfl
      · rw [harray]
        dsimp only [Option.map_none]
        rw [readObject_eq hrule u hdrives]
        rcases readObject_read (c := c) (s := u) with ⟨found, v, hobject, -⟩ | ⟨-, hobject⟩
        · rw [hobject]
          rfl
        · rw [hobject]
          dsimp only [Option.map_none]
          rcases readScalar c u with ⟨_ | ⟨scalar, d⟩, v⟩
          · rfl
          · simp [Value.explicit]
    · simp [Value.explicit]
  · simp [Value.explicit]
termination_by c.rest.length

/-! ### Documents -/

theorem emptyValue_eq (emptyInput : EmptyInput) (position : Nat) :
    emptyValue emptyInput position = (emptyInput.value position).explicit := by
  cases emptyInput <;> simp only [EmptyInput.value, Value.explicit] <;> rfl

/-- What was read first of a document, with the fields of its value spelled out. -/
def rootOf {c : Cursor} (root : DataTemplate.Root c) : Root c :=
  ⟨root.value.map Value.explicit, root.after⟩

section Documents

variable (options : ReadOptions) {c : Cursor}

theorem mayBeLoose_explicit (value : Option DataTemplate.Value) :
    mayBeLoose (value.map Value.explicit) = DataTemplate.mayBeLoose value := by
  rcases value with _ | ⟨_ | _ | _ | _ | _⟩ <;>
    simp [mayBeLoose, DataTemplate.mayBeLoose, Value.explicit]

theorem isExpression_explicit (value : Option DataTemplate.Value) :
    isExpression (value.map Value.explicit) = DataTemplate.isExpression value := by
  rcases value with _ | ⟨_ | _ | _ | _ | _⟩ <;>
    simp [isExpression, DataTemplate.isExpression, Value.explicit]

theorem readRoot_eq (hdrives : hooks.Drives s) (emptyInput : EmptyInput) :
    readRoot hooks emptyInput c s =
      (rootOf (DataTemplate.readRoot emptyInput c s).1,
        (DataTemplate.readRoot emptyInput c s).2) := by
  unfold readRoot DataTemplate.readRoot
  split
  · have htold := hdrives.tell (.value (emptyInput.value c.position))
    rw [emptyValue_eq]
    exact congrArg (Prod.mk _) htold
  · rw [readValue_eq c s hdrives]
    rcases DataTemplate.readValue c s with ⟨_ | ⟨value, d⟩, t⟩ <;> rfl

theorem noteRemainder_eq (root : DataTemplate.Root c) (s : Session σ) :
    noteRemainder options (rootOf root) s = DataTemplate.noteRemainder options root s := by
  simp only [noteRemainder, DataTemplate.noteRemainder, rootOf, mayBeLoose_explicit,
    isExpression_explicit]

theorem wantsString_eq (root : DataTemplate.Root c) (s : Session σ) :
    wantsString options (rootOf root) s = DataTemplate.wantsString options root s := by
  simp only [wantsString, DataTemplate.wantsString, rootOf, mayBeLoose_explicit,
    isExpression_explicit]

theorem conclude_eq (start : Nat) (asString : Bool) (value : Option DataTemplate.Value)
    (s : Session σ) :
    conclude options start asString (value.map Value.explicit) s =
      (match if options.onError = .fail then s.problems[0]? else none with
        | some problem => (.error problem, s.state)
        | none => (.ok (DataTemplate.Document.explicit {
            root := value
            expressions := s.expressions.toList
            start := start
            stop := (value.map (·.span.stop)).getD start
            problems := s.problems.toList
            readAsString := asString }), s.state)) := by
  have hstop : ((value.map Value.explicit).map (·.span.stop)).getD start =
      (value.map (·.span.stop)).getD start := by cases value <;> simp
  rw [conclude, hstop]
  rfl

/-- The host of a document goes on to be told of nodes with every field spelled out. -/
theorem drives_notedSession (hooks : Hooks σ) (state : σ) (source : List Char) :
    hooks.Drives (openDocument options hooks.onNodes state source).2 ∧
      hooks.Drives (notedSession options hooks.onNodes state source) := by
  have hopened := Session.Grows.law.trivia (.ofText source)
    (Session.start hooks.onNodes state options.onError.halts)
  obtain ⟨d, t, -, hgrows, ⟨problems, hnoted⟩, -⟩ :=
    notedSession_follows options hooks.onNodes state source Session.Grows.law
  exact ⟨hopened.hooks_eq, hnoted ▸ hgrows.hooks_eq⟩

/-- A second reading spells out the same string. -/
theorem readAgain_eq (hooks : Hooks σ) (state : σ) (source : List Char) :
    readAgain hooks (rereads options hooks.onNodes state source)
        (rootOf (firstRoot options hooks.onNodes state source).1)
        (notedSession options hooks.onNodes state source) =
      ((finalReading options hooks.onNodes state source).1.map Value.explicit,
        (finalReading options hooks.onNodes state source).2) := by
  have hdriven : hooks.Drives
      (notedSession options hooks.onNodes state source).clearProblems.restartExpressions :=
    (drives_notedSession options hooks state source).2
  rw [readAgain, finalReading]
  split
  · simp only [readTextContent_eq hdriven, Option.map_some, Value.explicit]
    rfl
  · rfl

/-- A document is read the same with every field of its value spelled out. -/
theorem readDocument_eq (hooks : Hooks σ) (state : σ) (source : List Char) :
    readDocument options hooks state source =
      ((DataTemplate.readDocument options hooks.onNodes state source).1.map
          DataTemplate.Document.explicit,
        (DataTemplate.readDocument options hooks.onNodes state source).2) := by
  have hopened := (drives_notedSession options hooks state source).1
  have hroot : readRoot hooks options.emptyInput (documentStart options hooks.onNodes state source)
      (openDocument options hooks.onNodes state source).2 =
      (rootOf (firstRoot options hooks.onNodes state source).1,
        (firstRoot options hooks.onNodes state source).2) := readRoot_eq hopened options.emptyInput
  have hnote : DataTemplate.noteRemainder options
      (firstRoot options hooks.onNodes state source).1
      (firstRoot options hooks.onNodes state source).2 =
      notedSession options hooks.onNodes state source := rfl
  have hwants : DataTemplate.wantsString options (firstRoot options hooks.onNodes state source).1
      (notedSession options hooks.onNodes state source) =
      rereads options hooks.onNodes state source := rfl
  have hstages : readDocument options hooks state source =
      (let root := readRoot hooks options.emptyInput
        (documentStart options hooks.onNodes state source)
        (openDocument options hooks.onNodes state source).2
       let s := noteRemainder options root.1 root.2
       let asString := wantsString options root.1 s
       let again := readAgain hooks asString root.1 s
       conclude options (documentStart options hooks.onNodes state source).position asString
         again.1 again.2) := rfl
  rw [hstages, hroot, DataTemplate.readDocument_eq]
  simp only [noteRemainder_eq, wantsString_eq, hnote, hwants, readAgain_eq, conclude_eq]
  generalize (if options.onError = .fail then
    (finalReading options hooks.onNodes state source).2.problems[0]? else none) = failure
  cases failure <;> rfl

end Documents

end Explicit

end DataTemplate
