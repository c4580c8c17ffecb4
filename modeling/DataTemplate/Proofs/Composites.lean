/-
Arrays and objects are read back part by part.  Each part of a composite has a text and something
that the reader takes it for, and the parts go together as they do in the grammar: slots behind each
other up to a bracket, properties up to a brace.  Main statements: `ReadsValue.array` and
`ReadsValue.object`.
-/
import DataTemplate.Proofs.Drafts
import DataTemplate.Proofs.Leaves
import DataTemplate.Proofs.Outcome

namespace DataTemplate

variable {σ : Type} {n : Nat}

/-! ### Drafts of arrays -/

/-- An array under construction, without positions: its closed slots, and the value of the slot that
is open or about to be opened. -/
structure SlotDraft.Holds (draft : SlotDraft) (closed : List (Slot Value)) (item : Option Value) :
    Prop where
  closed_eq : draft.closed.toList.map Slot.erase = closed
  item_eq : (draft.current.bind (·.value)).map Value.erase = item
  no_comma : ∀ slot, draft.current = some slot → slot.comma = none
  opened : item = none → (draft.current = none ↔ closed = [])

namespace SlotDraft.Holds

variable {draft : SlotDraft} {closed : List (Slot Value)} {item : Option Value}

theorem empty : SlotDraft.Holds {} [] none := by
  constructor <;> simp

theorem awaitsValue_eq (h : draft.Holds closed item) : draft.awaitsValue = item.isNone := by
  rw [← h.item_eq]
  cases hcurrent : draft.current with
  | none => simp [SlotDraft.awaitsValue, hcurrent]
  | some slot => simp [SlotDraft.awaitsValue, hcurrent]

theorem fill (h : draft.Holds closed none) (value : Value) :
    (draft.fill value).Holds closed (some value.erase) where
  closed_eq := h.closed_eq
  item_eq := rfl
  no_comma := by
    rintro slot ⟨⟩
    cases hcurrent : draft.current with
    | none => simp [currentAt, hcurrent]
    | some slot => simpa [currentAt, hcurrent] using h.no_comma slot hcurrent
  opened := by simp

theorem erase_currentAt (h : draft.Holds closed item) (position : Nat) (comma : Option Nat) :
    Slot.erase { draft.currentAt position with comma := comma } =
      ⟨item, 0, eraseMark comma⟩ := by
  rw [← h.item_eq]
  cases hcurrent : draft.current with
  | none => simp [currentAt, hcurrent, Slot.erase]
  | some slot => simp [currentAt, hcurrent, Slot.erase]

theorem comma (h : draft.Holds closed item) (position : Nat) :
    (draft.comma position).Holds (closed ++ [⟨item, 0, some 0⟩]) none where
  closed_eq := by
    simp only [SlotDraft.comma, Array.toList_push, List.map_append, List.map_cons, List.map_nil,
      h.closed_eq, h.erase_currentAt]
    rfl
  item_eq := rfl
  no_comma := by
    rintro slot ⟨⟩
    rfl
  opened := by simp [SlotDraft.comma]

theorem slots_eq (h : draft.Holds closed item) (hcurrent : draft.current ≠ none) :
    draft.slots.map Slot.erase = closed ++ [⟨item, 0, none⟩] := by
  obtain ⟨slot, hslot⟩ := Option.ne_none_iff_exists'.mp hcurrent
  have hlast := h.erase_currentAt 0 none
  have hcomma := h.no_comma slot hslot
  simp only [currentAt, hslot, Option.getD_some] at hlast
  rw [← hcomma] at hlast
  simp only [slots, hslot, List.map_append, h.closed_eq, Option.toList_some, List.map_cons,
    List.map_nil, hlast, hcomma]
  rfl

/-- The items of a finished array are those of its printed slots. -/
theorem finish_eq (h : draft.Holds closed item) :
    draft.finish.map Slot.erase = itemsOf (closed ++ [⟨item, 0, none⟩]) := by
  have hawaits := h.awaitsValue_eq
  by_cases hcurrent : draft.current = none
  · have hitem : item = none := by simp [← h.item_eq, hcurrent]
    have hclosed := (h.opened hitem).mp hcurrent
    have hslots : draft.closed.toList = [] := by simpa [hclosed] using h.closed_eq
    simp [SlotDraft.finish, slots, hcurrent, hslots, hclosed, hitem, itemsOf]
  · have hslots := h.slots_eq hcurrent
    have hlength : draft.slots.length = closed.length + 1 := by
      simpa using congrArg List.length hslots
    have hlone : item = none → closed ≠ [] := fun hitem hclosed =>
      hcurrent ((h.opened hitem).mpr hclosed)
    unfold SlotDraft.finish itemsOf
    rw [hawaits, hlength]
    cases item with
    | some value => simp [hslots]
    | none =>
      have hclosed := hlone rfl
      by_cases hmany : 2 < closed.length + 1
      · simp [hmany, List.map_dropLast, hslots]
      · simp [hmany, hclosed, hslots]

end SlotDraft.Holds

/-! ### Drafts of objects -/

/-- An object under construction, without positions: what it waits for, its finished properties, and
the one being built. -/
structure PropertyDraft.Holds (draft : PropertyDraft) (awaited : Awaited)
    (done : List (Property Value)) (last : Option (Property Value)) : Prop where
  awaited_eq : draft.awaited = awaited
  finished_eq : draft.finished.toList.map Property.erase = done
  current_eq : draft.current.map Property.erase = last

namespace PropertyDraft.Holds

variable {draft : PropertyDraft} {awaited : Awaited} {done : List (Property Value)}
  {last : Option (Property Value)} {p : Property Value}

theorem empty : PropertyDraft.Holds {} .keyOrEnd [] none := ⟨rfl, rfl, rfl⟩

theorem properties_eq (h : draft.Holds awaited done last) :
    draft.properties.map Property.erase = done ++ last.toList := by
  rw [properties, List.map_append, h.finished_eq, ← h.current_eq]
  cases draft.current <;> rfl

theorem begin (h : draft.Holds .keyOrEnd done last) (key : Key) (s : Session σ) :
    (draft.begin key s).1.Holds .colon (done ++ last.toList)
      (some ⟨key.erase, none, none, none⟩) where
  awaited_eq := rfl
  finished_eq := by
    rw [← h.properties_eq, ← finished_flush draft s]
    rfl
  current_eq := rfl

theorem colon (h : draft.Holds .colon done (some p)) (position : Nat) :
    (draft.colon position).Holds .value done (some { p with colon := some 0 }) where
  awaited_eq := rfl
  finished_eq := h.finished_eq
  current_eq := by
    obtain ⟨property, hproperty, rfl⟩ := Option.map_eq_some_iff.mp h.current_eq
    simp [PropertyDraft.colon, modify, hproperty, Property.erase, eraseMark]

theorem fill (h : draft.Holds .value done (some p)) (value : Value) :
    (draft.fill value).Holds .commaOrEnd done (some { p with value := some value.erase }) where
  awaited_eq := rfl
  finished_eq := h.finished_eq
  current_eq := by
    obtain ⟨property, hproperty, rfl⟩ := Option.map_eq_some_iff.mp h.current_eq
    simp [PropertyDraft.fill, modify, hproperty, Property.erase]

theorem comma (h : draft.Holds .commaOrEnd done (some p)) (position : Nat) :
    (draft.comma position).Holds .keyOrEnd done (some { p with comma := some 0 }) where
  awaited_eq := rfl
  finished_eq := h.finished_eq
  current_eq := by
    obtain ⟨property, hproperty, rfl⟩ := Option.map_eq_some_iff.mp h.current_eq
    simp [PropertyDraft.comma, modify, hproperty, Property.erase, eraseMark]

end PropertyDraft.Holds

/-! ### Rounds at tokens -/

section Rounds

variable (rule : ValueRule σ n) {c : Cursor} {x : Char} {rest : List Char} {s t : Session σ}

theorem slotStep_comma (hc : c.rest = ',' :: rest) (hn : c.rest.length < n) (draft : SlotDraft) :
    slotStep rule c hn draft s =
      .again (c.next (Cursor.rest_ne_nil hc)) (draft.comma c.position) s := by
  rw [slotStep_cons rule hc]
  rfl

theorem slotStep_close (hc : c.rest = ']' :: rest) (hn : c.rest.length < n) (draft : SlotDraft) :
    slotStep rule c hn draft s = .stop ⟨(c.next (Cursor.rest_ne_nil hc)).1,
      Cursor.le_of_lt (c.next (Cursor.rest_ne_nil hc)).2⟩ draft true s := by
  rw [slotStep_cons rule hc]
  rfl

theorem slotStep_value (hc : c.rest = x :: rest) (hx : x ∉ breakChars) (hn : c.rest.length < n)
    {draft : SlotDraft} (hopen : draft.awaitsValue = true) {value : Value} {d : c.After}
    (hvalue : rule c hn s = (some (value, d), t)) :
    slotStep rule c hn draft s = .again d (draft.fill value) t := by
  have hother : x ≠ ']' ∧ x ≠ ',' ∧ x ≠ '/' := by
    refine ⟨?_, ?_, ?_⟩ <;> rintro rfl <;> exact hx (by decide)
  have hcomment : c.comment? = none :=
    Cursor.comment?_eq_none (by simpa [hc] using hother.2.2)
  rw [slotStep_cons rule hc]
  simp only [hother, dite_false, hcomment, hopen, if_true, hvalue]

theorem propertyStep_of_accept (hc : c.rest = x :: rest) (hx : x ≠ '/') (hn : c.rest.length < n)
    {draft : PropertyDraft} {round : Round σ PropertyDraft c}
    (haccept : acceptToken rule c hn (Cursor.rest_ne_nil hc) draft s = .ok round) :
    propertyStep rule c hn draft s = round := by
  have hcomment : c.comment? = none := Cursor.comment?_eq_none (by simpa [hc] using hx)
  unfold propertyStep
  rw [dif_neg (Cursor.rest_ne_nil hc), hcomment]
  simp only [haccept]

theorem propertyStep_close (hc : c.rest = '}' :: rest) (hn : c.rest.length < n)
    {draft : PropertyDraft} (hawaited : draft.awaited = .keyOrEnd ∨ draft.awaited = .commaOrEnd) :
    propertyStep rule c hn draft s = .stop ⟨(c.next (Cursor.rest_ne_nil hc)).1,
      Cursor.le_of_lt (c.next (Cursor.rest_ne_nil hc)).2⟩ draft true s := by
  apply propertyStep_of_accept rule hc (by decide) hn
  unfold acceptToken
  rcases hawaited with hawaited | hawaited
  · simp [hawaited, hc]
  · simp [hawaited, hc]

theorem propertyStep_colon (hc : c.rest = ':' :: rest) (hn : c.rest.length < n)
    {draft : PropertyDraft} (hawaited : draft.awaited = .colon) :
    propertyStep rule c hn draft s =
      .again (c.next (Cursor.rest_ne_nil hc)) (draft.colon c.position) s := by
  apply propertyStep_of_accept rule hc (by decide) hn
  unfold acceptToken
  simp [hawaited, hc]

theorem propertyStep_comma (hc : c.rest = ',' :: rest) (hn : c.rest.length < n)
    {draft : PropertyDraft} (hawaited : draft.awaited = .commaOrEnd) :
    propertyStep rule c hn draft s =
      .again (c.next (Cursor.rest_ne_nil hc)) (draft.comma c.position) s := by
  apply propertyStep_of_accept rule hc (by decide) hn
  unfold acceptToken
  simp [hawaited, hc]

theorem propertyStep_key (hc : c.rest = x :: rest) (hx : x ∉ breakChars) (hn : c.rest.length < n)
    {draft : PropertyDraft} (hawaited : draft.awaited = .keyOrEnd) {key : Key} {d : c.After}
    (hkey : readKey c s = (some (key, d), t)) :
    propertyStep rule c hn draft s = .again d (draft.begin key t).1 (draft.begin key t).2 := by
  have hother : x ≠ '/' ∧ x ≠ '}' := by
    constructor <;> rintro rfl <;> exact hx (by decide)
  apply propertyStep_of_accept rule hc hother.1 hn
  unfold acceptToken
  simp [hawaited, hc, hother.2, hkey]

theorem propertyStep_value (hc : c.rest = x :: rest) (hx : x ∉ breakChars) (hn : c.rest.length < n)
    {draft : PropertyDraft} (hawaited : draft.awaited = .value) {value : Value} {d : c.After}
    (hvalue : rule c hn s = (some (value, d), t)) :
    propertyStep rule c hn draft s = .again d (draft.fill value) t := by
  have hother : x ≠ '/' := by
    rintro rfl
    exact hx (by decide)
  apply propertyStep_of_accept rule hc hother hn
  unfold acceptToken
  simp [hawaited, hvalue]

end Rounds

/-! ### Gaps -/

/-- A token may end before what stands between it and the next one. -/
theorem Gap.tokenMayEnd_text (gap : Gap) {rest : List Char} (hrest : tokenMayEnd rest = true) :
    tokenMayEnd (gap.text ++ rest) = true := by
  cases gap with
  | nil => exact hrest
  | cons filler gap =>
    cases filler with
    | blank x hblank => exact tokenMayEnd_cons (mem_breakChars_of_isBlank hblank)
    | line body stop hbody hstop => exact tokenMayEnd_cons (by decide)
    | block body hbody => exact tokenMayEnd_cons (by decide)

/-- Only what comes after a gap can make the text behind a brace start with another, and only if the
gap is empty. -/
theorem Gap.head?_text_ne (gap : Gap) {rest : List Char}
    (h : gap = [] → rest.head? ≠ some '{') : (gap.text ++ rest).head? ≠ some '{' := by
  cases gap with
  | nil => exact h rfl
  | cons filler gap =>
    cases filler with
    | blank x hblank =>
      have hx : x ≠ '{' := by
        rintro rfl
        exact absurd hblank (by decide)
      simpa [Gap.text, Filler.text] using hx
    | line body stop hbody hstop => simp [Gap.text, Filler.text]
    | block body hbody => simp [Gap.text, Filler.text]

/-! ### Values and keys -/

/-- The rule for values that arrays and objects are read with. -/
abbrev valueRule : ValueRule σ n := fun c _ s => readValue c s

/-- Wherever `spelling` stands in front of what may come after a token, the rule takes it for what,
without positions, is `node`. -/
structure Reads {α β : Type} (rule : ∀ c : Cursor, Session σ → Reading σ α c) (erase : α → β)
    (spelling : List Char) (node : β) : Prop where
  starts : ∃ x tail, spelling = x :: tail ∧ x ∉ breakChars
  yields : ∀ ⦃c : Cursor⦄ ⦃rest : List Char⦄ ⦃s : Session σ⦄, s.Plain → tokenMayEnd rest = true →
    c.rest = spelling ++ rest → Yields (rule c s) erase node rest

/-- The text of a value, and the tree that it is read as. -/
abbrev ReadsValue (σ : Type) (spelling : List Char) (tree : Value) : Prop :=
  Reads (σ := σ) readValue Value.erase spelling tree

/-- The text of a key, and the key that it is read as. -/
abbrev ReadsKey (σ : Type) (spelling : List Char) (key : Key) : Prop :=
  Reads (σ := σ) readKey Key.erase spelling key

theorem KeyForm.reads (form : KeyForm) : ReadsKey σ form.spelling form.node where
  starts := by
    obtain ⟨x, tail, htail, hx, -⟩ := form.spelling_eq
    exact ⟨x, tail, htail, hx⟩
  yields _ _ _ hplain hrest hc := readKey_yields form hplain hrest hc

theorem ScalarForm.reads (form : ScalarForm) : ReadsValue σ form.text (.scalar form.node) where
  starts := by
    obtain ⟨x, tail, htail, hx⟩ := form.text_eq
    rw [List.mem_append, not_or] at hx
    exact ⟨x, tail, htail, hx.2⟩
  yields _ _ _ hplain hrest hc := readValue_scalar form hplain hrest hc

/-! ### Arrays -/

/-- The text of a slot leads to what comes after it, with its value in the open slot. -/
def ReadsSlot (σ : Type) (spelling : List Char) (item : Option Value) : Prop :=
  ∀ ⦃n : Nat⦄ ⦃c : Cursor⦄ ⦃rest : List Char⦄ ⦃s : Session σ⦄ ⦃draft : SlotDraft⦄
    ⦃closed : List (Slot Value)⦄, s.Plain → draft.Holds closed none → tokenMayEnd rest = true →
    c.rest = spelling ++ rest → ∃ d draft' t,
      LeadsTo (slotStep (n := n) valueRule) c draft s d draft' t ∧ d.rest = rest ∧
        draft'.Holds closed item ∧ t.Plain

theorem ReadsSlot.gap (gap : Gap) : ReadsSlot σ gap.text none := by
  intro n c rest s draft closed hplain hdraft hrest hc
  obtain ⟨d, t, hleads, hd, ht⟩ :=
    leadsTo_gap (slotStep_passesComments (σ := σ) (n := n) valueRule) draft gap hplain hc
  exact ⟨d, draft, t, hleads, hd, hdraft, ht⟩

theorem ReadsSlot.value (before after : Gap) {spelling : List Char} {tree : Value}
    (hvalue : ReadsValue σ spelling tree) :
    ReadsSlot σ (before.text ++ (spelling ++ after.text)) (some tree) := by
  intro n c rest s draft closed hplain hdraft hrest hc
  have hpasses := slotStep_passesComments (σ := σ) (n := n) valueRule
  have htext : c.rest = before.text ++ (spelling ++ (after.text ++ rest)) := by simpa using hc
  obtain ⟨d, t, hbefore, hd, ht⟩ := leadsTo_gap hpasses draft before hplain htext
  obtain ⟨x, tail, htail, hx⟩ := hvalue.starts
  have hhead : d.rest = x :: (tail ++ (after.text ++ rest)) := by rw [hd, htail]; rfl
  have hblank := head?_any_isBlank hhead (isBlank_of_not_mem_breakChars hx)
  obtain ⟨value, e, u, hread, htree, he, hu⟩ :=
    hvalue.yields ht (Gap.tokenMayEnd_text after hrest) hd
  have hfill := leadsTo_of_again ht.going hblank fun hn =>
    slotStep_value (valueRule (n := n)) hhead hx hn hdraft.awaitsValue_eq hread
  obtain ⟨f, v, hafter, hf, hv⟩ := leadsTo_gap hpasses (draft.fill value) after hu he
  exact ⟨f, _, v, (hbefore.trans hfill).trans hafter, hf, htree ▸ hdraft.fill value, hv⟩

/-- The text of the slots that are left of an array leads behind its bracket, with their items. -/
def ReadsSlots (σ : Type) (spelling : List Char) (printed : List (Slot Value)) : Prop :=
  ∀ ⦃n : Nat⦄ ⦃c : Cursor⦄ ⦃rest : List Char⦄ ⦃s : Session σ⦄ ⦃draft : SlotDraft⦄
    ⦃closed : List (Slot Value)⦄ (hc : c.rest.length < n), s.Plain → draft.Holds closed none →
    c.rest = spelling ++ rest → ∃ d draft' t,
      roundsEnd (slotStep valueRule) c hc draft s = (d, draft', true, t) ∧ d.rest = rest ∧
        draft'.finish.map Slot.erase = itemsOf (closed ++ printed) ∧ t.Plain

section Slots

variable {spelling : List Char} {item : Option Value} (hslot : ReadsSlot σ spelling item)
include hslot

theorem ReadsSlots.last : ReadsSlots σ (spelling ++ [']']) [⟨item, 0, none⟩] := by
  intro n c rest s draft closed hc hplain hdraft htext
  have hfirst : c.rest = spelling ++ ']' :: rest := by simpa using htext
  obtain ⟨d, draft', t, hleads, hd, hdraft', ht⟩ :=
    hslot (n := n) hplain hdraft (tokenMayEnd_cons (by decide)) hfirst
  obtain ⟨hdn, hend⟩ := hleads hc
  obtain ⟨e, hclosed, he⟩ := roundsEnd_closed hd (by decide) ht.going
    (fun hn => slotStep_close valueRule hd hn draft') hdn
  exact ⟨e, draft', t, hend.trans hclosed, he, hdraft'.finish_eq, ht⟩

theorem ReadsSlots.cons {more : List Char} {printed : List (Slot Value)}
    (hmore : ReadsSlots σ more printed) :
    ReadsSlots σ (spelling ++ ',' :: more) (⟨item, 0, some 0⟩ :: printed) := by
  intro n c rest s draft closed hc hplain hdraft htext
  have hfirst : c.rest = spelling ++ ',' :: (more ++ rest) := by simpa using htext
  obtain ⟨d, draft', t, hleads, hd, hdraft', ht⟩ :=
    hslot (n := n) hplain hdraft (tokenMayEnd_cons (by decide)) hfirst
  obtain ⟨e, hcomma, he⟩ := leadsTo_next hd (by decide) ht.going
    fun hn => slotStep_comma (valueRule (n := n)) hd hn draft'
  obtain ⟨hen, hend⟩ := (hleads.trans hcomma) hc
  obtain ⟨f, last, u, hmore, hf, hlast, hu⟩ := hmore hen ht (hdraft'.comma d.position) he
  refine ⟨f, last, u, hend.trans hmore, hf, ?_, hu⟩
  rw [hlast, List.append_assoc]
  rfl

end Slots

theorem Session.commitUnclosed_closed (s : Session σ) (cause : Cause) (position : Nat) :
    s.commitUnclosed true cause position = s := by
  simp [commitUnclosed]

theorem readArray_of_slots {c : Cursor} {rest : List Char} (hc : c.rest = '[' :: rest)
    {rule : ValueRule σ c.rest.length} {s t : Session σ} {d : Cursor} {draft : SlotDraft}
    (hend : roundsEnd (slotStep rule) (c.next (Cursor.rest_ne_nil hc)).1
      (Cursor.length_lt_of_lt (c.next (Cursor.rest_ne_nil hc)).2) {} s = (d, draft, true, t)) :
    ∃ e value, readArray c rule s = (some (value, e), t.observe (.value value)) ∧
      value = .array ⟨c.position, d.position⟩ draft.finish ∧ e.1.rest = d.rest := by
  obtain ⟨last, hrounds, rfl⟩ := exists_of_roundsEnd hend
  rw [← readSlots_eq_rounds] at hrounds
  rw [readArray_of_bracket hc]
  simp only [hrounds, Session.commitUnclosed_closed]
  have hlt := Cursor.lt_of_lt_of_le (c.next (Cursor.rest_ne_nil hc)).2 last.2
  exact ⟨⟨last.1, hlt⟩, .array _ draft.finish, rfl, rfl, rfl⟩

theorem ReadsValue.array {spelling : List Char} {printed : List (Slot Value)}
    (hslots : ReadsSlots σ spelling printed) :
    ReadsValue σ ('[' :: spelling) (.array .erased (itemsOf printed)) where
  starts := ⟨'[', spelling, rfl, by decide⟩
  yields := by
    intro c rest s hplain hrest htext
    have hhead : c.rest = '[' :: (spelling ++ rest) := htext
    obtain ⟨d, draft, t, hend, hd, hitems, ht⟩ :=
      hslots (Cursor.length_lt_of_lt (c.next (Cursor.rest_ne_nil hhead)).2) hplain .empty
        (Cursor.rest_next hhead)
    obtain ⟨e, value, harray, rfl, he⟩ := readArray_of_slots hhead hend
    rw [readValue_eq, readText_eq_none (Cursor.quote?_eq_none hhead (by decide)), orElse,
      readExpression_eq_none (Expression.scan_eq_none_of_head hhead (by decide)), orElse, harray]
    refine ⟨_, e, _, rfl, ?_, he.trans hd, ht.observe _⟩
    rw [Value.erase, eraseSlots_eq, hitems]
    rfl

/-! ### Objects -/

/-- The text of a key, its colon and what stands around them leads to the value of a property. -/
def ReadsFront (σ : Type) (spelling : List Char) (key : Key) : Prop :=
  ∀ ⦃n : Nat⦄ ⦃c : Cursor⦄ ⦃rest : List Char⦄ ⦃s : Session σ⦄ ⦃draft : PropertyDraft⦄
    ⦃done : List (Property Value)⦄ ⦃last : Option (Property Value)⦄, s.Plain →
    draft.Holds .keyOrEnd done last → c.rest = spelling ++ rest → ∃ d draft' t,
      LeadsTo (propertyStep (n := n) valueRule) c draft s d draft' t ∧ d.rest = rest ∧
        draft'.Holds .value (done ++ last.toList) (some ⟨key, some 0, none, none⟩) ∧ t.Plain

theorem ReadsKey.front (before after beforeValue : Gap) {spelling : List Char} {key : Key}
    (hkey : ReadsKey σ spelling key) :
    ReadsFront σ (before.text ++ (spelling ++ (after.text ++ ':' :: beforeValue.text))) key := by
  intro n c rest s draft done last hplain hdraft hc
  have hpasses := propertyStep_passesComments (σ := σ) (n := n) valueRule
  have htext : c.rest = before.text ++ (spelling ++
      (after.text ++ ':' :: (beforeValue.text ++ rest))) := by simpa using hc
  obtain ⟨d, t, hbefore, hd, ht⟩ := leadsTo_gap hpasses draft before hplain htext
  obtain ⟨x, tail, htail, hx⟩ := hkey.starts
  have hhead : d.rest = x :: (tail ++ (after.text ++ ':' :: (beforeValue.text ++ rest))) := by
    rw [hd, htail]
    rfl
  have hblank := head?_any_isBlank hhead (isBlank_of_not_mem_breakChars hx)
  obtain ⟨found, e, u, hread, hfound, he, hu⟩ :=
    hkey.yields ht (Gap.tokenMayEnd_text after (tokenMayEnd_cons (by decide))) hd
  have hbegin := leadsTo_of_again ht.going hblank fun hn =>
    propertyStep_key (valueRule (n := n)) hhead hx hn hdraft.awaited_eq hread
  have hbegun := hdraft.begin found u
  obtain ⟨f, v, hafter, hf, hv⟩ := leadsTo_gap hpasses _ after (hu.begin draft found) he
  obtain ⟨g, hcolon, hg⟩ := leadsTo_next hf (by decide) hv.going fun hn =>
    propertyStep_colon (valueRule (n := n)) hf hn hbegun.awaited_eq
  obtain ⟨i, w, hvalue, hi, hw⟩ := leadsTo_gap hpasses _ beforeValue hv hg
  refine ⟨i, _, w, (((hbefore.trans hbegin).trans hafter).trans hcolon).trans hvalue, hi, ?_, hw⟩
  rw [← hfound]
  exact hbegun.colon f.position

section Property

variable {front value : List Char} {key : Key} {tree : Value}

/-- A property without its comma leads to what comes after it. -/
theorem leadsTo_property (hfront : ReadsFront σ front key) (hvalue : ReadsValue σ value tree)
    (after : Gap) {c : Cursor} {rest : List Char} {s : Session σ} {draft : PropertyDraft}
    {done : List (Property Value)} {last : Option (Property Value)} (hplain : s.Plain)
    (hdraft : draft.Holds .keyOrEnd done last) (hrest : tokenMayEnd rest = true)
    (hc : c.rest = front ++ (value ++ (after.text ++ rest))) :
    ∃ d draft' t, LeadsTo (propertyStep (n := n) valueRule) c draft s d draft' t ∧
      d.rest = rest ∧ draft'.Holds .commaOrEnd (done ++ last.toList)
        (some ⟨key, some 0, some tree, none⟩) ∧ t.Plain := by
  have hpasses := propertyStep_passesComments (σ := σ) (n := n) valueRule
  obtain ⟨d, waiting, t, hfront, hd, hwaiting, ht⟩ := hfront (n := n) hplain hdraft hc
  obtain ⟨x, tail, htail, hx⟩ := hvalue.starts
  have hhead : d.rest = x :: (tail ++ (after.text ++ rest)) := by rw [hd, htail]; rfl
  have hblank := head?_any_isBlank hhead (isBlank_of_not_mem_breakChars hx)
  obtain ⟨found, e, u, hread, hfound, he, hu⟩ :=
    hvalue.yields ht (Gap.tokenMayEnd_text after hrest) hd
  have hfill := leadsTo_of_again ht.going hblank fun hn =>
    propertyStep_value (valueRule (n := n)) hhead hx hn hwaiting.awaited_eq hread
  have hfilled := hwaiting.fill found
  obtain ⟨f, v, hafter, hf, hv⟩ := leadsTo_gap hpasses _ after hu he
  exact ⟨f, _, v, (hfront.trans hfill).trans hafter, hf, hfound ▸ hfilled, hv⟩

/-- The text of an object behind the value of a property: its comma, if there is one, and all other
properties. -/
structure ReadsMore (σ : Type) (spelling : List Char) (comma : Option Nat)
    (properties : List (Property Value)) : Prop where
  ends : ∀ rest, tokenMayEnd (spelling ++ rest) = true
  yields : ∀ ⦃n : Nat⦄ ⦃c : Cursor⦄ ⦃rest : List Char⦄ ⦃s : Session σ⦄ ⦃draft : PropertyDraft⦄
    ⦃done : List (Property Value)⦄ ⦃p : Property Value⦄ (hc : c.rest.length < n), s.Plain →
    draft.Holds .commaOrEnd done (some p) → p.comma = none → c.rest = spelling ++ rest →
    ∃ d draft' t, roundsEnd (propertyStep valueRule) c hc draft s = (d, draft', true, t) ∧
      d.rest = rest ∧ draft'.properties.map Property.erase =
        done ++ { p with comma := comma } :: properties ∧ t.Plain

theorem ReadsMore.close : ReadsMore σ ['}'] none [] where
  ends _ := tokenMayEnd_cons (by decide)
  yields := by
    intro n c rest s draft done p hc hplain hdraft hcomma htext
    have hhead : c.rest = '}' :: rest := htext
    obtain ⟨d, hclosed, hd⟩ := roundsEnd_closed hhead (by decide) hplain.going
      (fun hn => propertyStep_close valueRule hhead hn (.inr hdraft.awaited_eq)) hc
    refine ⟨d, draft, s, hclosed, hd, ?_, hplain⟩
    rw [hdraft.properties_eq, ← hcomma]
    rfl

theorem ReadsMore.finalComma (gap : Gap) :
    ReadsMore σ (',' :: (gap.text ++ ['}'])) (some 0) [] where
  ends _ := tokenMayEnd_cons (by decide)
  yields := by
    intro n c rest s draft done p hc hplain hdraft hcomma htext
    have hhead : c.rest = ',' :: (gap.text ++ '}' :: rest) := by simpa using htext
    obtain ⟨d, hnext, hd⟩ := leadsTo_next hhead (by decide) hplain.going fun hn =>
      propertyStep_comma (valueRule (n := n)) hhead hn hdraft.awaited_eq
    have hwaiting := hdraft.comma c.position
    obtain ⟨e, t, hgap, he, ht⟩ :=
      leadsTo_gap (propertyStep_passesComments (σ := σ) (n := n) valueRule) _ gap hplain hd
    obtain ⟨hen, hend⟩ := (hnext.trans hgap) hc
    obtain ⟨f, hclosed, hf⟩ := roundsEnd_closed he (by decide) ht.going
      (fun hn => propertyStep_close valueRule he hn (.inl hwaiting.awaited_eq)) hen
    refine ⟨f, _, t, hend.trans hclosed, hf, ?_, ht⟩
    rw [hwaiting.properties_eq]
    rfl

theorem ReadsMore.cons (hfront : ReadsFront σ front key) (hvalue : ReadsValue σ value tree)
    (after : Gap) {spelling : List Char} {comma : Option Nat} {properties : List (Property Value)}
    (hmore : ReadsMore σ spelling comma properties) :
    ReadsMore σ (',' :: (front ++ (value ++ (after.text ++ spelling)))) (some 0)
      (⟨key, some 0, some tree, comma⟩ :: properties) where
  ends _ := tokenMayEnd_cons (by decide)
  yields := by
    intro n c rest s draft done p hc hplain hdraft hcomma htext
    have hhead : c.rest = ',' :: (front ++ (value ++ (after.text ++ (spelling ++ rest)))) := by
      simpa using htext
    obtain ⟨d, hnext, hd⟩ := leadsTo_next hhead (by decide) hplain.going fun hn =>
      propertyStep_comma (valueRule (n := n)) hhead hn hdraft.awaited_eq
    obtain ⟨e, filled, t, hproperty, he, hfilled, ht⟩ := leadsTo_property (n := n) hfront hvalue
      after hplain (hdraft.comma c.position) (hmore.ends rest) hd
    obtain ⟨hen, hend⟩ := (hnext.trans hproperty) hc
    obtain ⟨f, last, u, hmore, hf, hlast, hu⟩ := hmore.yields hen ht hfilled rfl he
    refine ⟨f, last, u, hend.trans hmore, hf, ?_, hu⟩
    rw [hlast]
    simp

end Property

theorem readObject_of_properties {c : Cursor} {rest : List Char} (hc : c.rest = '{' :: rest)
    (hbrace : rest.head? ≠ some '{') {rule : ValueRule σ c.rest.length} {s t : Session σ}
    {d : Cursor} {draft : PropertyDraft}
    (hend : roundsEnd (propertyStep rule) (c.next (Cursor.rest_ne_nil hc)).1
      (Cursor.length_lt_of_lt (c.next (Cursor.rest_ne_nil hc)).2) {} s = (d, draft, true, t)) :
    ∃ e value, readObject c rule s = (some (value, e), (draft.flush t).2.observe (.value value)) ∧
      value = .object ⟨c.position, d.position⟩ draft.properties ∧ e.1.rest = d.rest := by
  obtain ⟨last, hrounds, rfl⟩ := exists_of_roundsEnd hend
  rw [← readProperties_eq_rounds] at hrounds
  rw [readObject_of_brace hc hbrace]
  simp only [hrounds, Session.commitUnclosed_closed]
  have hlt := Cursor.lt_of_lt_of_le (c.next (Cursor.rest_ne_nil hc)).2 last.2
  rw [PropertyDraft.finished_flush]
  exact ⟨⟨last.1, hlt⟩, .object _ draft.properties, rfl, rfl, rfl⟩

/-- An object is read by its properties. -/
theorem readValue_object {c : Cursor} {rest tail : List Char} {s : Session σ}
    {properties : List (Property Value)} (hc : c.rest = '{' :: tail)
    (hbrace : tail.head? ≠ some '{')
    (hend : ∀ (d : Cursor) (hd : d.rest.length < c.rest.length), d.rest = tail →
      ∃ e draft t, roundsEnd (propertyStep valueRule) d hd {} s = (e, draft, true, t) ∧
        e.rest = rest ∧ draft.properties.map Property.erase = properties ∧ t.Plain) :
    Yields (readValue c s) Value.erase (.object .erased properties) rest := by
  have hnext := (c.next (Cursor.rest_ne_nil hc)).2
  obtain ⟨d, draft, t, hend, hd, hproperties, ht⟩ :=
    hend _ (Cursor.length_lt_of_lt hnext) (Cursor.rest_next hc)
  obtain ⟨e, value, hobject, rfl, he⟩ := readObject_of_properties hc hbrace hend
  rw [readValue_eq, readText_eq_none (Cursor.quote?_eq_none hc (by decide)), orElse,
    readExpression_eq_none (Expression.scan_eq_none_of_lone hc hbrace), orElse,
    readArray_eq_none hc (by decide), orElse, hobject]
  refine ⟨_, e, _, rfl, ?_, he.trans hd, (ht.flush draft).observe _⟩
  show Value.erase _ = _
  rw [Value.erase, eraseProperties_eq, hproperties]

theorem ReadsValue.emptyObject (gap : Gap) :
    ReadsValue σ ('{' :: (gap.text ++ ['}'])) (.object .erased []) where
  starts := ⟨'{', _, rfl, by decide⟩
  yields := by
    intro c rest s hplain hrest htext
    have hhead : c.rest = '{' :: (gap.text ++ '}' :: rest) := by simpa using htext
    refine readValue_object hhead (gap.head?_text_ne (by simp)) fun d hdn hd => ?_
    let draft : PropertyDraft := {}
    have hstart : draft.awaited = .keyOrEnd ∨ draft.awaited = .commaOrEnd := .inl rfl
    obtain ⟨e, t, hgap, he, ht⟩ :=
      leadsTo_gap (propertyStep_passesComments (σ := σ) valueRule) draft gap hplain hd
    obtain ⟨hen, hend⟩ := hgap hdn
    obtain ⟨f, hclosed, hf⟩ := roundsEnd_closed he (by decide) ht.going
      (fun hn => propertyStep_close valueRule he hn hstart) hen
    exact ⟨f, draft, t, hend.trans hclosed, hf, rfl, ht⟩

/-- An object is read back if its brace stands apart from a first key that is an expression. -/
theorem ReadsValue.object {front value spelling : List Char} {key : Key} {tree : Value}
    {comma : Option Nat} {properties : List (Property Value)}
    (hapart : ∀ rest, (front ++ rest).head? ≠ some '{') (hfront : ReadsFront σ front key)
    (hvalue : ReadsValue σ value tree) (after : Gap)
    (hmore : ReadsMore σ spelling comma properties) :
    ReadsValue σ ('{' :: (front ++ (value ++ (after.text ++ spelling))))
      (.object .erased (⟨key, some 0, some tree, comma⟩ :: properties)) where
  starts := ⟨'{', _, rfl, by decide⟩
  yields := by
    intro c rest s hplain hrest htext
    have hhead : c.rest = '{' :: (front ++ (value ++ (after.text ++ (spelling ++ rest)))) := by
      simpa using htext
    refine readValue_object hhead (hapart _) fun d hdn hd => ?_
    obtain ⟨e, filled, t, hproperty, he, hfilled, ht⟩ :=
      leadsTo_property hfront hvalue after hplain .empty (hmore.ends rest) hd
    obtain ⟨hen, hend⟩ := hproperty hdn
    obtain ⟨f, last, u, hmore, hf, hlast, hu⟩ := hmore.yields hen ht hfilled rfl he
    exact ⟨f, last, u, hend.trans hmore, hf, hlast, hu⟩

/-! ### Documents -/

theorem noteRemainder_of_end (options : ReadOptions) {c : Cursor} {root : Root c} (s : Session σ)
    (h : root.after.1.rest = []) : noteRemainder options root s = s := by
  simp [noteRemainder, Cursor.atEnd, h]

theorem wantsString_of_end (options : ReadOptions) {c : Cursor} {root : Root c} {s : Session σ}
    (hproblems : s.problems = #[]) (h : root.after.1.rest = []) :
    wantsString options root s = false := by
  simp [wantsString, Session.hasProblems, hproblems, Cursor.atEnd, h]


/-- The value of a document is its only content if nothing but white space comes after it. -/
theorem readRoot_reads (emptyInput : EmptyInput) {spelling after : List Char} {tree : Value}
    (hreads : ReadsValue σ spelling tree) (hafter : ∀ x ∈ after, isBlank x = true) {c : Cursor}
    {s : Session σ} (hplain : s.Plain) (hc : c.rest = spelling ++ after) :
    (readRoot emptyInput c s).1.value.map Value.erase = some tree ∧
      (readRoot emptyInput c s).1.after.1.rest = [] ∧ (readRoot emptyInput c s).2.Plain := by
  obtain ⟨x, tail, htail, hx⟩ := hreads.starts
  have hstart : c.atEnd = false := by simp [Cursor.atEnd, hc, htail]
  have hrest : tokenMayEnd after = true := by
    cases after with
    | nil => rfl
    | cons y after => exact tokenMayEnd_cons (mem_breakChars_of_isBlank (hafter y (by simp)))
  obtain ⟨value, d, t, hread, hvalue, hd, ht⟩ := hreads.yields hplain hrest hc
  have hblanks : d.1.rest = after ++ [] := by simpa using hd
  have hend : d.1.skipBlanks.rest = [] := (Cursor.rest_matchWhile hblanks hafter rfl).2
  unfold readRoot
  simp only [hstart, hread]
  exact ⟨congrArg some hvalue, hend, ht⟩

/-- A value that is read back is the tree of the document that it stands in, and nothing is
reported. -/
theorem parse_reads (before : Gap) {spelling after : List Char} {tree : Value}
    (hreads : ReadsValue Unit spelling tree) (hafter : ∀ x ∈ after, isBlank x = true) :
    ∃ document, parse {} (String.ofList (before.text ++ (spelling ++ after))) = .ok document ∧
      document.root.map Value.erase = some tree ∧ document.problems = [] ∧
      document.readAsString = false := by
  let options : ReadOptions := {}
  let hooks : Hooks Unit := {}
  let source := before.text ++ (spelling ++ after)
  have hfresh : (Session.start hooks () options.onError.halts).Plain :=
    ⟨rfl, rfl, rfl, fun _ _ => rfl⟩
  obtain ⟨x, tail, htail, hx⟩ := hreads.starts
  have htoken : tokenMayStart (spelling ++ after) = true := by
    rw [htail]
    exact tokenMayStart_cons hx
  obtain ⟨hstart, hplain⟩ := skipTrivia_gap before (c := .ofText source) hfresh rfl htoken
  obtain ⟨hvalue, hend, hdone⟩ := readRoot_reads options.emptyInput hreads hafter hplain hstart
  have hnoted : notedSession options hooks () source =
      (firstRoot options hooks () source).2 := noteRemainder_of_end options _ hend
  have hkeeps : rereads options hooks () source = false := by
    rw [rereads, hnoted]
    exact wantsString_of_end options hdone.none_met hend
  have hproblems : (notedSession options hooks () source).problems = #[] := by
    rw [hnoted]
    exact hdone.none_met
  have hread := readDocument_read options hooks () source
  unfold parse
  rw [String.toList_ofList]
  generalize readDocument options hooks () source = outcome at hread ⊢
  cases hread with
  | asValue hvalues hpolicy => exact ⟨_, rfl, hvalue, by simp [hproblems], rfl⟩
  | asString hrereads => simp [hkeeps] at hrereads
  | failed hvalues hpolicy hproblem => simp [hproblems] at hproblem

end DataTemplate
