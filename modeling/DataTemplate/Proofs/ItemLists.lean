/-
The two lists of an array: its items and the places where they stand.  They have an entry each for
every slot that the loop of the array made of the commas and values it took, each place says what its
item is, and the places stand in the order of the text.  The loop builds both lists entry by entry;
that it goes the way of the loop over slots is proved state by state.
Main statements: `Explicit.arrayLoop_goes` and `Explicit.readDocument_items`.
-/
import DataTemplate.Proofs.ExplicitReading
import DataTemplate.Proofs.SlotCounts

namespace DataTemplate

variable {σ : Type}

/-- What was taken, with `f` applied to its values. -/
def SlotToken.map {α β : Type} (f : α → β) : SlotToken α → SlotToken β
  | comma position => .comma position
  | value v => .value (f v)

theorem slotCount_map {α β : Type} (f : α → β) (tokens : List (SlotToken α)) :
    slotCount (tokens.map (SlotToken.map f)) = slotCount tokens := by
  have hcomma : SlotToken.isComma ∘ SlotToken.map f = SlotToken.isComma := by
    funext token
    cases token <;> rfl
  rw [slotCount, slotCount, List.countP_map, hcomma, List.getLast?_map]
  cases tokens.getLast? with
  | none => rfl
  | some last => cases last <;> rfl

theorem commas_map {α β : Type} (f : α → β) (tokens : List (SlotToken α)) :
    (tokens.map (SlotToken.map f)).filterMap SlotToken.comma? =
      tokens.filterMap SlotToken.comma? := by
  rw [List.filterMap_map]
  congr 1
  funext token
  cases token <;> rfl

theorem values_map {α β : Type} (f : α → β) (tokens : List (SlotToken α)) :
    (tokens.map (SlotToken.map f)).filterMap SlotToken.value? =
      (tokens.filterMap SlotToken.value?).map f := by
  rw [List.filterMap_map, List.map_filterMap]
  congr 1
  funext token
  cases token <;> rfl

namespace Explicit

/-! ### Trees -/

/-- A node is the root of a tree or lies below it. -/
inductive Node.Reaches : Node → Node → Prop
  | refl (node : Node) : Reaches node node
  | child {node child below : Node} (hchild : child ∈ node.children) (h : Reaches child below) :
      Reaches node below

theorem children_explicit (node : DataTemplate.Node) :
    node.explicit.children = node.children.map DataTemplate.Node.explicit := by
  have hpart (part : TextPart) : part.node.explicit = partNode part := by
    cases part with
    | segment => rfl
    | expression => simp only [TextPart.node, Node.explicit, Value.explicit, partNode]
  have hkey (key : DataTemplate.Key) : key.node.explicit = key.explicit.node := by
    cases key <;> simp only [DataTemplate.Key.node, Node.explicit, Value.explicit] <;> rfl
  cases node with
  | comment | identifier | segment => rfl
  | property p =>
    cases hvalue : p.value <;>
      simp only [DataTemplate.Node.children, List.map_cons, hkey, hvalue] <;>
      simp [Node.explicit, Node.children, Property.explicit, Property.explicitWith, hvalue]
  | value v =>
    cases v with
    | scalar | expression =>
      simp only [Node.explicit, Value.explicit, Node.children, DataTemplate.Node.children,
        List.map_nil]
    | text t =>
      simp only [Node.explicit, Value.explicit, Node.children, DataTemplate.Node.children,
        List.map_map]
      exact List.map_congr_left fun part _ => (hpart part).symm
    | array | object =>
      simp [Node.explicit, Value.explicit_array, Value.explicit_object, Node.children,
        DataTemplate.Node.children, Slot.item, List.filterMap_map, List.map_filterMap,
        Function.comp_def]

/-- What lies below a spelled out node is a spelled out node below it. -/
theorem Node.Reaches.of_explicit (node : DataTemplate.Node) {below : Node}
    (h : node.explicit.Reaches below) : ∃ plain, node.Reaches plain ∧ plain.explicit = below := by
  generalize hnode : node.explicit = spelled at h
  induction h generalizing node with
  | refl => exact ⟨node, .refl node, hnode⟩
  | child hchild _ ih =>
    subst hnode
    rw [children_explicit] at hchild
    obtain ⟨child, hmem, hchild⟩ := List.mem_map.mp hchild
    obtain ⟨plain, hreaches, hplain⟩ := ih child hchild
    exact ⟨plain, .child hmem hreaches, hplain⟩

/-! ### The loop -/

/-- The loop of an array that builds both lists. -/
def arrayLoop (hooks : Hooks σ) : Loop (LoopState σ ArrayBuilder) (LoopEnd σ ArrayBuilder) where
  exit := LoopState.halt?
  body a :=
    (arrayStep (fun c _ s => readValue hooks c s) a.place.skipBlanks (Nat.lt_succ_self _) a.draft
      a.session).pass

/-- The comma or the value that the next iteration of an array takes. -/
def itemToken? (hooks : Hooks σ) (a : LoopState σ ArrayBuilder) : Option (SlotToken Value) :=
  let c := a.place.skipBlanks
  if c.rest.head? = some ',' then some (.comma c.position)
  else if a.draft.slotEmpty then
    (readValue hooks c a.session).1.map fun found => .value found.1
  else none

/-- What the iterations in some states take. -/
def itemTokens (hooks : Hooks σ) (states : List (LoopState σ ArrayBuilder)) :
    List (SlotToken Value) := states.filterMap (itemToken? hooks)

/-- The state of the loop over slots, with both lists built. -/
def built (a : LoopState σ SlotDraft) : LoopState σ ArrayBuilder :=
  ⟨a.place, a.draft.builder, a.session⟩

/-- The loop over slots can have come to this state, with this host. -/
structure Hooks.Visits (hooks : Hooks σ) (a : LoopState σ SlotDraft) : Prop where
  opened : a.draft.Opened
  drives : hooks.Drives a.session

section Loop

variable {hooks : Hooks σ} {a b next : LoopState σ SlotDraft}

/-- An iteration builds what an iteration over slots comes to. -/
theorem arrayLoop_body (h : hooks.Visits a) :
    (arrayLoop hooks).body (built a) =
      (mapRound SlotDraft.builder (slotStep (fun c _ s => DataTemplate.readValue c s)
        a.place.skipBlanks (Nat.lt_succ_self _) a.draft a.session)).pass := by
  have hrule : ValuesSpell hooks (a.place.skipBlanks.rest.length + 1) :=
    fun c _ => readValue_eq c
  exact congrArg Round.pass (arrayStep_eq hrule (Nat.lt_succ_self _) h.opened h.drives)

theorem arrayLoop_again (h : hooks.Visits a)
    (hbody : (slotLoop DataTemplate.readValue).body a = .again next) :
    (arrayLoop hooks).body (built a) = .again (built next) ∧ hooks.Visits next := by
  have hround := slotStep_round readValue_quiet a.place.skipBlanks (Nat.lt_succ_self _) a.draft
    a.session
  have hgrows := slotLoop_grows hbody
  rw [arrayLoop_body h]
  change Round.pass (slotStep _ _ _ _ _) = _ at hbody
  generalize slotStep _ _ _ _ _ = round at hround hbody ⊢
  have hopened := hround.opened h.opened
  cases round with
  | stop => simp [Round.pass] at hbody
  | again d draft s =>
    obtain rfl := Pass.again.inj hbody
    exact ⟨rfl, hopened, h.drives.of_grows hgrows⟩

theorem arrayLoop_leave {e : LoopEnd σ SlotDraft} (h : hooks.Visits a)
    (hbody : (slotLoop DataTemplate.readValue).body a = .leave e) :
    (arrayLoop hooks).body (built a) = .leave (e.1, e.2.1.builder, e.2.2) := by
  rw [arrayLoop_body h]
  change Round.pass (slotStep _ _ _ _ _) = _ at hbody
  generalize slotStep _ _ _ _ _ = round at hbody ⊢
  cases round with
  | again => simp [Round.pass] at hbody
  | stop last draft closed s =>
    obtain rfl := Pass.leave.inj hbody
    rfl

/-- An iteration takes the same, spelled out. -/
theorem itemToken?_built (h : hooks.Visits a) :
    itemToken? hooks (built a) =
      (slotToken? a).map (SlotToken.map DataTemplate.Value.explicit) := by
  have hread := readValue_eq a.place.skipBlanks a.session h.drives
  have hempty : (built a).draft.slotEmpty = a.draft.awaitsValue := rfl
  simp only [itemToken?, slotToken?, hempty]
  change (if a.place.skipBlanks.rest.head? = some ',' then _ else if _ then
    (readValue hooks a.place.skipBlanks a.session).1.map _ else _) = _
  rw [hread]
  split
  · rfl
  · split
    · cases (DataTemplate.readValue a.place.skipBlanks a.session).1 <;> rfl
    · rfl

/-- Iterations take the same, spelled out. -/
theorem itemTokens_built {states : List (LoopState σ SlotDraft)}
    (h : ∀ a ∈ states, hooks.Visits a) :
    itemTokens hooks (states.map built) =
      (slotTokens states).map (SlotToken.map DataTemplate.Value.explicit) := by
  induction states with
  | nil => rfl
  | cons a states ih =>
    obtain ⟨ha, hstates⟩ := List.forall_mem_cons.mp h
    have htoken := itemToken?_built ha
    rw [itemTokens, slotTokens] at ih ⊢
    rw [List.map_cons, List.filterMap_cons, List.filterMap_cons, htoken, ih hstates]
    cases slotToken? a <;> rfl

/-- The loop goes through the states of the loop over slots. -/
theorem arrayLoop_goes {states : List (LoopState σ SlotDraft)} (ha : hooks.Visits a)
    (h : (slotLoop DataTemplate.readValue).Goes a states b) :
    (arrayLoop hooks).Goes (built a) (states.map built) (built b) ∧
      ∀ visited ∈ states ++ [b], hooks.Visits visited := by
  induction h with
  | start => exact ⟨.start, by simpa using ha⟩
  | @again states b next _ hgo hbody ih =>
    obtain ⟨hgoes, hvisits⟩ := ih
    obtain ⟨hagain, hnext⟩ := arrayLoop_again (hvisits b (by simp)) hbody
    have hgoing : b.session.halted = false := LoopState.halt?_eq_none.mp hgo
    have hexit : (arrayLoop hooks).exit (built b) = none := LoopState.halt?_eq_none.mpr hgoing
    rw [List.map_append]
    exact ⟨.again hgoes hexit hagain,
      List.forall_mem_append.mpr ⟨hvisits, List.forall_mem_singleton.mpr hnext⟩⟩

/-- The loop runs its iterations in the states of the loop over slots, and ends with both lists of
what that ends with. -/
theorem arrayLoop_course {states : List (LoopState σ SlotDraft)} {e : LoopEnd σ SlotDraft}
    (ha : hooks.Visits a) (h : (slotLoop DataTemplate.readValue).Course a states e) :
    (arrayLoop hooks).Course (built a) (states.map built) (e.1, e.2.1.builder, e.2.2) ∧
      itemTokens hooks (states.map built) =
        (slotTokens states).map (SlotToken.map DataTemplate.Value.explicit) := by
  cases h with
  | @exit states b _ hgoes hexit =>
    obtain ⟨hgoes, hvisits⟩ := arrayLoop_goes ha hgoes
    refine ⟨.exit hgoes ?_, itemTokens_built fun a ha => hvisits a (List.mem_append_left _ ha)⟩
    obtain ⟨hhalted, rfl⟩ : b.session.halted = true ∧
        (b.place, b.draft, false, b.session) = e := by
      simpa [slotLoop, LoopState.halt?] using hexit
    exact LoopState.halt?_of_halted hhalted
  | @leave states b _ hgoes hgo hbody =>
    obtain ⟨hgoes, hvisits⟩ := arrayLoop_goes ha hgoes
    have hgoing : b.session.halted = false := LoopState.halt?_eq_none.mp hgo
    have hexit : (arrayLoop hooks).exit (built b) = none := LoopState.halt?_eq_none.mpr hgoing
    have hleave := arrayLoop_leave (hvisits b (by simp)) hbody
    refine ⟨?_, itemTokens_built hvisits⟩
    rw [List.map_append]
    exact .leave hgoes hexit hleave

end Loop

/-! ### Arrays -/

/-- The items of an array and the places where they stand.  There is a place for each item, which
says whether there is a value and where, and whether and where a comma follows.  A comma follows all
but the last item; it stands behind the item and in front of all later ones. -/
structure ItemsLocated (items : List (Option Value)) (locations : List ItemLocation) : Prop where
  length_eq : items.length = locations.length
  hasValue_eq : ∀ entry ∈ items.zip locations, entry.2.hasValue = entry.1.isSome
  span_eq : ∀ entry ∈ items.zip locations, ∀ value, entry.1 = some value →
    value.span = ⟨entry.2.valueStart, entry.2.valueEnd⟩
  separated : ∀ location ∈ locations.dropLast, location.hasTrailingComma = true
  hasTrailingComma_eq : ∀ location ∈ locations,
    location.hasTrailingComma = location.trailingCommaStart.isSome
  start_le_end : ∀ location ∈ locations, location.valueStart ≤ location.valueEnd
  end_le_comma : ∀ location ∈ locations, ∀ q, location.trailingCommaStart = some q →
    location.valueEnd ≤ q
  comma_lt_start : locations.Pairwise fun location later => ∀ q,
    location.trailingCommaStart = some q → q < later.valueStart

theorem ItemsLocated.of_slots {slots : List (Slot DataTemplate.Value)} (h : SlotsOrdered slots) :
    ItemsLocated (slots.map Slot.item) (slots.map Slot.location) := by
  have hentry {entry : Option Value × ItemLocation}
      (hmem : entry ∈ (slots.map Slot.item).zip (slots.map Slot.location)) :
      ∃ slot : Slot DataTemplate.Value, (slot.item, slot.location) = entry := by
    rw [List.zip_map', List.mem_map] at hmem
    obtain ⟨slot, -, hslot⟩ := hmem
    exact ⟨slot, hslot⟩
  refine ⟨by simp, ?_, ?_, ?_, ?_, ?_, ?_, ?_⟩
  · intro entry hmem
    obtain ⟨slot, rfl⟩ := hentry hmem
    simp [Slot.item, Slot.location]
  · intro entry hmem value hvalue
    obtain ⟨slot, rfl⟩ := hentry hmem
    obtain ⟨v, hv, rfl⟩ := Option.map_eq_some_iff.mp hvalue
    simp [Slot.location, Slot.valueSpan, hv]
  · rw [← List.map_dropLast]
    exact List.forall_mem_map.mpr h.separated
  · exact List.forall_mem_map.mpr fun _ _ => rfl
  · exact List.forall_mem_map.mpr h.span_le
  · exact List.forall_mem_map.mpr h.value_le
  · exact List.pairwise_map.mpr h.comma_lt

theorem array_of_explicit {node : DataTemplate.Node} {span : Span} {items : List (Option Value)}
    {locations : List ItemLocation} (h : node.explicit = .value (.array span items locations)) :
    ∃ slots, node = .value (.array span slots) ∧ items = slots.map Slot.item ∧
      locations = slots.map Slot.location := by
  cases node with
  | comment | identifier | segment | property => simp [Node.explicit] at h
  | value v =>
    have hvalue := Node.value.inj h
    cases v with
    | scalar | expression | text | object => simp [Value.explicit] at hvalue
    | array span' slots =>
      rw [Value.explicit_array] at hvalue
      obtain ⟨rfl, rfl, rfl⟩ := Value.array.inj hvalue
      exact ⟨slots, rfl, rfl, rfl⟩

/-- An array was read in a document by a loop of its own that ran iterations in these states, with
what was read of its items and their places. -/
def ArrayCourse (options : ReadOptions) (hooks : Hooks σ) (state : σ) (source : List Char)
    (array : Value) (states : List (LoopState σ ArrayBuilder)) : Prop :=
  ∃ c inner s e, ReadsWithin (documentStart options hooks.onNodes state source)
      (openDocument options hooks.onNodes state source).2 c s ∧ c.Moves ['['] inner ∧
    (arrayLoop hooks).Course ⟨inner, {}, s⟩ states e ∧
    (finishArray hooks c e.1 e.2.1 e.2.2.1 e.2.2.2).1 = array

/-- Every array of a document has a place for each of its items, in the order of the text, with a
comma after each but possibly the last.  Its lists hold the commas and the values that its own loop
took, and their length follows from these. -/
theorem readDocument_items {options : ReadOptions} {hooks : Hooks σ} {state : σ}
    {source : List Char} {document : Document} {root : Value} {span : Span}
    {items : List (Option Value)} {locations : List ItemLocation}
    (hdocument : (readDocument options hooks state source).1 = .ok document)
    (hroot : document.root = some root)
    (hreach : (Node.value root).Reaches (.value (.array span items locations))) :
    ItemsLocated items locations ∧
    ∃ states, ArrayCourse options hooks state source (.array span items locations) states ∧
      locations.filterMap ItemLocation.trailingCommaStart =
        (itemTokens hooks states).filterMap SlotToken.comma? ∧
      items.filterMap id = (itemTokens hooks states).filterMap SlotToken.value? ∧
      items.length = slotCount (itemTokens hooks states) := by
  rw [readDocument_eq] at hdocument
  cases hplain : (DataTemplate.readDocument options hooks.onNodes state source).1 with
  | error => simp [hplain, Except.map] at hdocument
  | ok plain =>
    rw [hplain] at hdocument
    obtain rfl := Except.ok.inj hdocument
    obtain ⟨plainRoot, hplainRoot, rfl⟩ := Option.map_eq_some_iff.mp hroot
    obtain ⟨node, hreaches, hnode⟩ := Node.Reaches.of_explicit (.value plainRoot) hreach
    obtain ⟨slots, rfl, rfl, rfl⟩ := array_of_explicit hnode
    obtain ⟨c, s, d, t, hread⟩ := readDocument_reads hplain hplainRoot rfl hreaches
    obtain ⟨inner, states, e, hinner, hcourse, harray, -⟩ := readValue_array_course hread.reads
    have hkept := slotLoop_course_kept hcourse
    obtain ⟨rfl, rfl, -⟩ := LoopEnd.array_eq harray
    have hdrives : hooks.Drives s :=
      (drives_notedSession options hooks state source).1.of_grows hread.within.grows
    obtain ⟨hbuilt, htokens⟩ := arrayLoop_course ⟨fun _ => rfl, hdrives⟩ hcourse
    refine ⟨.of_slots hkept.ordered, states.map built,
      ⟨c, inner, s, _, hread.within, hinner, hbuilt, ?_⟩, ?_, ?_, ?_⟩
    · rw [finishArray, SlotDraft.finish_builder hkept.opened]
    · rw [htokens, commas_map, ← hkept.commas,
        ← SlotDraft.commas_finish hkept.opened hkept.openEnded, List.filterMap_map]
      rfl
    · rw [htokens, values_map, ← hkept.values, ← SlotDraft.values_finish hkept.opened,
        List.filterMap_map, slotValues, List.map_filterMap]
      rfl
    · rw [htokens, slotCount_map, List.length_map, hkept.length_finish]

/-- An array with a gap, an item that is skipped, and a comma in front of its bracket. -/
theorem readDocument_items_broken :
    ∃ document span items locations,
      (readDocument { onError := .recover } ({} : Hooks Unit) () "[1,,@ 2,]".toList).1 =
        .ok document ∧
      document.root = some (.array span items locations) ∧
      locations.map ItemLocation.hasValue = [true, false, false] ∧ ItemsLocated items locations ∧
      ∃ states, ArrayCourse { onError := .recover } ({} : Hooks Unit) () "[1,,@ 2,]".toList
        (.array span items locations) states ∧
        items.length = slotCount (itemTokens ({} : Hooks Unit) states) := by
  have hdocument : ∃ document, (readDocument { onError := .recover } ({} : Hooks Unit) ()
      "[1,,@ 2,]".toList).1 = .ok document ∧
      document.root.map (fun
        | .array _ _ locations => locations.map ItemLocation.hasValue
        | _ => []) = some [true, false, false] := ⟨_, rfl, by decide +kernel⟩
  obtain ⟨document, hdocument, hroot⟩ := hdocument
  obtain ⟨root, hroot, hplaces⟩ := Option.map_eq_some_iff.mp hroot
  cases root with
  | array span items locations =>
    obtain ⟨hlocated, states, hcourse, -, -, hlength⟩ :=
      readDocument_items hdocument hroot (.refl _)
    exact ⟨document, span, items, locations, hdocument, hroot, hplaces, hlocated, states, hcourse,
      hlength⟩
  | scalar | expression | text | object => simp at hplaces

end Explicit

end DataTemplate
