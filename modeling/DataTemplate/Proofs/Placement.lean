/-
Every node of a document stands where it should, whatever the text: its span lies in the source and
splits no character, and its children lie inside it one after the other.  Both loops keep an invariant
of what they have built so far: its parts stand in a row from the opening bracket to the place reached.
Main statement: `readDocument_reaches_placed`.
-/
import DataTemplate.Proofs.Drafts
import DataTemplate.Proofs.Outcome
import DataTemplate.Proofs.Spans

namespace DataTemplate

variable {σ : Type} {n : Nat} {source : List Char}

/-- A node whose span lies in `source` on boundaries and holds its children, in order and without
overlap. -/
structure Node.Placed (source : List Char) (node : Node) : Prop where
  span : node.span.In source
  inside : ∀ child ∈ node.children, node.span.contains child.span = true
  ordered : node.children.Pairwise fun a b => a.span.stop ≤ b.span.start

/-- Nodes that all stand where they should. -/
def AllPlaced (source : List Char) (nodes : List Node) : Prop :=
  ∀ node ∈ nodes, node.Placed source

theorem AllPlaced.append {xs ys : List Node} (h : AllPlaced source xs) (k : AllPlaced source ys) :
    AllPlaced source (xs ++ ys) := by
  intro node hnode
  rcases List.mem_append.mp hnode with hnode | hnode
  · exact h node hnode
  · exact k node hnode

theorem AllPlaced.cons {node : Node} {nodes : List Node} (h : node.Placed source)
    (k : AllPlaced source nodes) : AllPlaced source (node :: nodes) := by
  intro other hother
  rcases List.mem_cons.mp hother with rfl | hother
  · exact h
  · exact k other hother

theorem AllPlaced.flatMap {α : Type} {f : α → List Node} {xs : List α}
    (h : ∀ x ∈ xs, AllPlaced source (f x)) : AllPlaced source (xs.flatMap f) := by
  intro node hnode
  obtain ⟨x, hx, hnode⟩ := List.mem_flatMap.mp hnode
  exact h x hx node hnode

/-- A row of children inside a node is all that the node needs. -/
theorem Node.placed_of_row {node : Node} (hspan : node.span.In source)
    (hrow : Span.Row node.span.start node.span.stop (node.children.map Node.span)) :
    node.Placed source where
  span := hspan
  inside := by
    intro child hchild
    have hbounds := hrow.bounds (List.mem_map_of_mem hchild)
    simpa [Span.contains] using hbounds
  ordered := List.pairwise_map.mp hrow.pairwise

theorem Node.placed_leaf {node : Node} (hspan : node.span.In source) (hleaf : node.children = []) :
    node.Placed source := by
  apply Node.placed_of_row hspan
  rw [hleaf]
  exact hspan.start_le_stop

/-! ### Leaves -/

theorem Text.children_span (t : Text) :
    (Node.value (.text t)).children.map Node.span = t.partSpans := by
  simp only [Node.children, partSpans, List.map_map]
  apply List.map_congr_left
  intro part _
  cases part <;> rfl

theorem Text.Spans.placed {c d : Cursor} {text : Text} (h : text.Spans c d) (hle : c ≤ d) :
    AllPlaced c.source text.nodes := by
  have hspan : (Node.value (.text text)).span = ⟨c.position, d.position⟩ := h.span_eq
  apply AllPlaced.cons
  · apply Node.placed_of_row
    · rw [hspan]
      exact Span.in_of_le hle
    · rw [hspan, text.children_span]
      exact h.row
  · intro node hnode
    obtain ⟨part, hpart, rfl⟩ := List.mem_map.mp hnode
    have hinside := h.inside part.span (List.mem_map_of_mem hpart)
    cases part with
    | segment => exact Node.placed_leaf hinside rfl
    | expression => exact Node.placed_leaf hinside rfl

theorem readKey_placed {c : Cursor} {s t : Session σ} {key : Key} {d : c.After}
    (h : readKey c s = (some (key, d), t)) : AllPlaced c.source key.nodes := by
  have hspan := readKey_span h
  have hle := Cursor.le_of_lt d.2
  have hin := Span.in_of_le hle
  have hread := readKey_read c s
  rw [h] at hread
  cases hread with
  | text h => exact (readText_spans h).placed hle
  | expression =>
    rw [← hspan] at hin
    exact .cons (Node.placed_leaf hin rfl) (by simp [AllPlaced])
  | identifier =>
    rw [← hspan] at hin
    exact .cons (Node.placed_leaf hin rfl) (by simp [AllPlaced])

/-! ### Arrays -/

/-- What an array has read between `start` and `stop`: placed values in a row. -/
structure SlotDraft.Placed (source : List Char) (start stop : Nat) (draft : SlotDraft) : Prop where
  row : Span.Row start stop ((slotValues draft.slots).map Value.span)
  placed : ∀ value ∈ slotValues draft.slots, AllPlaced source value.nodes

/-- Every value that the rule reads at `c` up to `d` fills the text between them, and is placed. -/
def ValueRule.Places (rule : ValueRule σ n) : Prop :=
  ∀ ⦃c hc s value d t⦄, rule c hc s = (some (value, d), t) →
    value.span = ⟨c.position, d.1.position⟩ ∧ AllPlaced c.source value.nodes

theorem SlotRound.placed {rule : ValueRule σ n} (hplaces : rule.Places) {start : Nat} {c : Cursor}
    {hc : c.rest.length < n} {draft : SlotDraft} {s : Session σ} {round : Round σ SlotDraft c}
    (hround : SlotRound rule c hc draft s round) (h : draft.Placed c.source start c.position) :
    round.outcome.2.Placed c.source start round.outcome.1.position := by
  have hle := Cursor.position_le_of_le round.le_outcome
  cases hround with
  | comma =>
    constructor
    · rw [Round.outcome_again, SlotDraft.values_comma]
      exact h.row.mono_right hle
    · rw [Round.outcome_again, SlotDraft.values_comma]
      exact h.placed
  | @value value d _ _ hopen hvalue =>
    obtain ⟨hspan, hvalue⟩ := hplaces hvalue
    constructor
    · rw [Round.outcome_again, SlotDraft.values_fill hopen, List.map_append, Span.Row.append_iff]
      refine ⟨c.position, h.row, ?_⟩
      simp only [List.map_cons, List.map_nil, hspan]
      exact ⟨Nat.le_refl _, Cursor.position_le_of_le (Cursor.le_of_lt d.2), Nat.le_refl _⟩
    · intro other hother
      rw [Round.outcome_again, SlotDraft.values_fill hopen, List.mem_append,
        List.mem_singleton] at hother
      rcases hother with hother | rfl
      · exact h.placed other hother
      · exact hvalue
  | ended | closed | comment | halt | recover => exact ⟨h.row.mono_right hle, h.placed⟩

theorem readSlots_placed {rule : ValueRule σ n} (hquiet : rule.Quiet) (hplaces : rule.Places)
    {start : Nat} {c : Cursor} (hc : c.rest.length < n) (draft : SlotDraft) (s : Session σ)
    (hopened : draft.Opened) (h : draft.Placed c.source start c.position) :
    (readSlots rule c hc draft s).2.1.Opened ∧
      (readSlots rule c hc draft s).2.1.Placed c.source start
        (readSlots rule c hc draft s).1.1.position := by
  let holds (d : Cursor) (draft : SlotDraft) (_ : Session σ) : Prop :=
    d.source = c.source ∧ draft.Opened ∧ draft.Placed c.source start d.position
  have hrounds := rounds_invariant (slotStep rule) holds ?_ ?_ hc draft s ⟨rfl, hopened, h⟩
  · rw [readSlots_eq_rounds]
    exact hrounds.2
  · rintro d draft t ⟨hsource, hopened, h⟩
    have hle := d.le_skipBlanks
    exact ⟨(Cursor.source_eq_of_le hle).trans hsource, hopened,
      h.row.mono_right (Cursor.position_le_of_le hle), h.placed⟩
  · rintro d hd draft t ⟨hsource, hopened, h⟩
    have hround := slotStep_round hquiet d hd draft t
    have hle := Round.le_outcome (slotStep rule d hd draft t)
    refine ⟨(Cursor.source_eq_of_le hle).trans hsource, hround.opened hopened, ?_⟩
    rw [← hsource] at h ⊢
    exact hround.placed hplaces h

theorem SlotDraft.Placed.array {c d : Cursor} {draft : SlotDraft} {start : Nat} (hle : c ≤ d)
    (hstart : c.position ≤ start) (hopened : draft.Opened)
    (h : draft.Placed c.source start d.position) :
    AllPlaced c.source (Value.array ⟨c.position, d.position⟩ draft.finish).nodes := by
  rw [Value.nodes, slotNodes_eq, SlotDraft.values_finish hopened]
  refine .cons (Node.placed_of_row (Span.in_of_le hle) ?_) (.flatMap h.placed)
  have hchildren : (Node.value (.array ⟨c.position, d.position⟩ draft.finish)).children.map
      Node.span = (slotValues draft.finish).map Value.span := by
    simp only [Node.children, slotValues, List.map_filterMap, Option.map_map]
    rfl
  rw [hchildren, SlotDraft.values_finish hopened]
  exact h.row.mono_left hstart

/-! ### Objects -/

/-- A property whose parts stand in a row from its key to its end. -/
structure Property.Placed (source : List Char) (p : Property Value) : Prop where
  key : AllPlaced source p.key.nodes
  value : ∀ value, p.value = some value → AllPlaced source value.nodes
  row : Span.Row p.key.span.start p.stop (p.key.span :: (p.value.map Value.span).toList)
  stop : IsBoundary source p.stop

theorem Key.span_node (key : Key) : key.node.span = key.span := by
  cases key <;> rfl

theorem Key.node_mem_nodes (key : Key) : key.node ∈ key.nodes := by
  cases key <;> simp [nodes, node, Text.nodes]

theorem Value.node_mem_nodes (value : Value) : Node.value value ∈ value.nodes := by
  cases value <;> simp [nodes, Text.nodes]

theorem Property.Placed.nodes {p : Property Value} (h : p.Placed source) :
    AllPlaced source p.nodes := by
  have hkey := (h.key _ p.key.node_mem_nodes).span
  rw [Key.span_node] at hkey
  have hchildren : (Node.property p).children.map Node.span =
      p.key.span :: (p.value.map Value.span).toList := by
    rw [Node.children, List.map_cons, Key.span_node]
    cases p.value <;> rfl
  refine .cons (Node.placed_of_row ?_ (hchildren.symm ▸ h.row)) (h.key.append (.flatMap ?_))
  · exact Span.in_of_boundary h.row.le hkey.start_boundary h.stop
  · intro value hvalue
    exact h.value value (by simpa using hvalue)

/-- A property begins as its key. -/
theorem Property.placed_key {key : Key} (h : AllPlaced source key.nodes) :
    Property.Placed source ⟨key, none, none, none⟩ := by
  have hkey := (h _ key.node_mem_nodes).span
  rw [Key.span_node] at hkey
  exact ⟨h, by simp, ⟨Nat.le_refl _, hkey.start_le_stop, Nat.le_refl _⟩, hkey.stop_boundary⟩

/-- A property may come to end later. -/
theorem Property.Placed.of_stop {p q : Property Value} (h : p.Placed source)
    (hkey : q.key = p.key) (hvalue : q.value = p.value) (hle : p.stop ≤ q.stop)
    (hstop : IsBoundary source q.stop) : q.Placed source where
  key := hkey ▸ h.key
  value := hvalue ▸ h.value
  row := hkey ▸ hvalue ▸ h.row.mono_right hle
  stop := hstop

/-- A property may take a value that stands behind it. -/
theorem Property.Placed.fill {p : Property Value} {value : Value} (h : p.Placed source)
    (hnone : p.value = none) (hcomma : p.comma = none) (hle : p.stop ≤ value.span.start)
    (hvalue : AllPlaced source value.nodes) : { p with value := some value }.Placed source := by
  have hspan : value.span.In source := (hvalue _ value.node_mem_nodes).span
  have hstop : { p with value := some value }.stop = value.span.stop := by
    simp [Property.stop, hcomma]
  have hrow := h.row
  rw [hnone] at hrow
  refine ⟨h.key, by simpa using hvalue, ?_, hstop ▸ hspan.stop_boundary⟩
  rw [hstop]
  exact ⟨hrow.1, hrow.2.1, Nat.le_trans hrow.2.2 hle, hspan.start_le_stop, Nat.le_refl _⟩

namespace PropertyDraft

/-- What an object has read between `start` and `stop`: placed properties in a row. -/
structure Placed (source : List Char) (start stop : Nat) (draft : PropertyDraft) : Prop where
  row : Span.Row start stop (draft.properties.map Property.span)
  placed : ∀ p ∈ draft.properties, p.Placed source

variable {draft : PropertyDraft} {start stop next : Nat}

theorem Placed.mono_right (h : draft.Placed source start stop) (hle : stop ≤ next) :
    draft.Placed source start next := ⟨h.row.mono_right hle, h.placed⟩

theorem Placed.flush (h : draft.Placed source start stop) (s : Session σ) :
    (draft.flush s).1.Placed source start stop := by
  constructor
  · rw [properties_flush]
    exact h.row
  · rw [properties_flush]
    exact h.placed

theorem Placed.begin (h : draft.Placed source start stop) {key : Key}
    (hkey : AllPlaced source key.nodes) (hle : stop ≤ key.span.start) (s : Session σ) :
    (draft.begin key s).1.Placed source start key.span.stop := by
  have hspan := (hkey _ key.node_mem_nodes).span
  rw [Key.span_node] at hspan
  constructor
  · rw [properties_begin, List.map_append, Span.Row.append_iff]
    exact ⟨stop, h.row, hle, hspan.start_le_stop, Nat.le_refl _⟩
  · intro p hp
    rw [properties_begin, List.mem_append, List.mem_singleton] at hp
    rcases hp with hp | rfl
    · exact h.placed p hp
    · exact Property.placed_key hkey

/-- The property being built ends before the place reached. -/
theorem Placed.stop_le (h : draft.Placed source start stop) {p : Property Value}
    (hp : draft.current = some p) : p.stop ≤ stop := by
  have hmem : p.span ∈ draft.properties.map Property.span :=
    List.mem_map_of_mem (by simp [properties, hp])
  exact (h.row.bounds hmem).2

/-- The property being built may change, if it stays placed and ends no earlier. -/
theorem Placed.modify {f : Property Value → Property Value} (h : draft.Placed source start stop)
    (hle : stop ≤ next) (hkey : ∀ p, (f p).key = p.key)
    (hf : ∀ p, draft.current = some p → p.Placed source →
      (f p).Placed source ∧ (f p).stop ≤ next) :
    (draft.modify f).Placed source start next := by
  cases hcurrent : draft.current with
  | none =>
    have hsame : (draft.modify f).properties = draft.properties := by
      simp [properties, PropertyDraft.modify, hcurrent]
    exact ⟨hsame ▸ h.row.mono_right hle, hsame ▸ h.placed⟩
  | some p =>
    have hrow := h.row
    have hplaced := h.placed
    have hlast := hplaced p (by simp [properties, hcurrent])
    obtain ⟨hfp, hstop⟩ := hf p hcurrent hlast
    simp only [properties, hcurrent, Option.toList_some, List.map_append, List.map_cons,
      List.map_nil, Span.Row.append_iff] at hrow hplaced
    obtain ⟨middle, hfinished, hstart, -, -⟩ := hrow
    constructor
    · simp only [properties, PropertyDraft.modify, hcurrent, Option.map_some, Option.toList_some,
        List.map_append, List.map_cons, List.map_nil, Span.Row.append_iff]
      refine ⟨middle, hfinished, ?_, hfp.row.le, hstop⟩
      simpa [Property.span, hkey] using hstart
    · intro q hq
      simp only [properties, PropertyDraft.modify, hcurrent, Option.map_some, Option.toList_some,
        List.mem_append, List.mem_singleton] at hq
      rcases hq with hq | rfl
      · exact hplaced q (List.mem_append_left _ hq)
      · exact hfp

/-- A colon ends a property that has only its key. -/
theorem Placed.colon (h : draft.Placed source start stop) {position : Nat} (hle : stop ≤ position)
    (hlacks : ∀ p, draft.current = some p → p.colon = none ∧ p.value = none ∧ p.comma = none)
    (hboundary : IsBoundary source (position + 1)) :
    (draft.colon position).Placed source start (position + 1) := by
  have hmodify := h.modify (f := fun p => { p with colon := some position })
    (Nat.le_succ_of_le hle) (fun _ => rfl) (by
      intro p hp hplaced
      obtain ⟨hcolon, hvalue, hcomma⟩ := hlacks p hp
      have hstop : ({ p with colon := some position } : Property Value).stop = position + 1 := by
        simp [Property.stop, hvalue, hcomma]
      have hend := h.stop_le hp
      exact ⟨hplaced.of_stop rfl rfl (by omega) (hstop ▸ hboundary), by omega⟩)
  exact ⟨hmodify.row, hmodify.placed⟩

/-- A comma ends a property. -/
theorem Placed.comma (h : draft.Placed source start stop) {position : Nat} (hle : stop ≤ position)
    (hboundary : IsBoundary source (position + 1)) :
    (draft.comma position).Placed source start (position + 1) := by
  have hmodify := h.modify (f := fun p => { p with comma := some position })
    (Nat.le_succ_of_le hle) (fun _ => rfl) (by
      intro p hp hplaced
      have hstop : ({ p with comma := some position } : Property Value).stop = position + 1 := rfl
      have hend := h.stop_le hp
      exact ⟨hplaced.of_stop rfl rfl (by omega) (hstop ▸ hboundary), by omega⟩)
  exact ⟨hmodify.row, hmodify.placed⟩

/-- A value ends a property that has none and no comma. -/
theorem Placed.fill (h : draft.Placed source start stop) {value : Value}
    (hle : stop ≤ value.span.start)
    (hlacks : ∀ p, draft.current = some p → p.value = none ∧ p.comma = none)
    (hvalue : AllPlaced source value.nodes) :
    (draft.fill value).Placed source start value.span.stop := by
  have hspan : value.span.start ≤ value.span.stop :=
    (hvalue _ value.node_mem_nodes).span.start_le_stop
  have hmodify := h.modify (f := fun p => { p with value := some value })
    (Nat.le_trans hle hspan) (fun _ => rfl) (by
      intro p hp hplaced
      obtain ⟨hnone, hcomma⟩ := hlacks p hp
      have hend := h.stop_le hp
      refine ⟨hplaced.fill hnone hcomma (by omega) hvalue, ?_⟩
      simp [Property.stop, hcomma])
  exact ⟨hmodify.row, hmodify.placed⟩

end PropertyDraft

theorem Cursor.Moves.position_succ {c d : Cursor} {x : Char} (h : c.Moves [x] d)
    (hx : x.utf8Size = 1) : d.position = c.position + 1 := by
  simp [h.position_eq, hx]

/-- What an object has read from `start` up to `c`. -/
def PropertyDraft.PlacedTo (start : Nat) (c : Cursor) (draft : PropertyDraft) : Prop :=
  draft.Placed c.source start c.position

namespace PropertyDraft.PlacedTo

variable {c d : Cursor} {draft : PropertyDraft} {start : Nat}

theorem mono (h : draft.PlacedTo start c) (hle : c ≤ d) : draft.PlacedTo start d := by
  rw [PlacedTo, Cursor.source_eq_of_le hle]
  exact h.mono_right (Cursor.position_le_of_le hle)

theorem begin (h : draft.PlacedTo start c) {key : Key} {d : c.After} {s t : Session σ}
    (hkey : readKey c s = (some (key, d), t)) : (draft.begin key t).1.PlacedTo start d.1 := by
  have hspan := readKey_span hkey
  have hbegin := Placed.begin h (readKey_placed hkey) (by simp [hspan]) t
  rwa [hspan, ← Cursor.source_eq_of_lt d.2] at hbegin

/-- A key may also be read ahead of the place reached. -/
theorem begin_before (h : draft.PlacedTo start c) {key : Key} {after : c.After} {s t : Session σ}
    (hkey : readKey c s = (some (key, after), t)) (hle : c ≤ d)
    (hd : after.1.position ≤ d.position) : (draft.begin key t).1.PlacedTo start d := by
  have hbegin := h.begin hkey
  rw [PlacedTo, Cursor.source_eq_of_le hle, ← Cursor.source_eq_of_lt after.2]
  exact hbegin.mono_right hd

theorem colon (h : draft.PlacedTo start c) (hd : c.Moves [':'] d)
    (hlacks : ∀ p, draft.current = some p → p.colon = none ∧ p.value = none ∧ p.comma = none) :
    (draft.colon c.position).PlacedTo start d := by
  have hposition := hd.position_succ (by decide)
  have hboundary := d.isBoundary
  rw [PlacedTo]
  rw [hd.source_eq, hposition] at hboundary ⊢
  exact Placed.colon h (Nat.le_refl _) hlacks hboundary

theorem comma (h : draft.PlacedTo start c) (hd : c.Moves [','] d) :
    (draft.comma c.position).PlacedTo start d := by
  have hposition := hd.position_succ (by decide)
  have hboundary := d.isBoundary
  rw [PlacedTo]
  rw [hd.source_eq, hposition] at hboundary ⊢
  exact Placed.comma h (Nat.le_refl _) hboundary

end PropertyDraft.PlacedTo

theorem Landing.moves {c : Cursor} {landing : Landing c} {x : Char}
    (h : landing.delimiter = x) : landing.here.Moves [x] landing.after := h ▸ landing.pass

theorem PropertyRecovery.placed {c : Cursor} {draft : PropertyDraft} {s : Session σ} {start : Nat}
    {round : Round σ PropertyDraft c} (hround : PropertyRecovery c draft s round)
    (h : draft.PlacedTo start c) : round.outcome.2.PlacedTo start round.outcome.1 := by
  cases hround with
  | @lost d => exact h.mono (Cursor.le_of_lt d.2)
  | closed _ _ hle => exact h.mono hle
  | @comma landing hland hdelimiter =>
    exact (h.mono landing.reach).comma (Landing.moves hdelimiter)
  | @key landing key d t hland hdelimiter hlt hkey hd =>
    exact (h.begin_before hkey landing.reach hd).colon (Landing.moves hdelimiter)
      ((PropertyDraft.lacks_begin draft key t).of_colon rfl)
  | @detach landing tried hland hdelimiter =>
    have hflush := PropertyDraft.Placed.flush (h.mono landing.reach) (tried.rollback s.checkpoint)
    exact PropertyDraft.PlacedTo.colon hflush (Landing.moves hdelimiter)
      (by simp [PropertyDraft.current_flush])

theorem PropertyRound.placed {rule : ValueRule σ n} (hplaces : rule.Places) {c : Cursor}
    {hc : c.rest.length < n} {draft : PropertyDraft} {s : Session σ} {start : Nat}
    {round : Round σ PropertyDraft c} (hround : PropertyRound rule c hc draft s round)
    (hlacks : draft.Lacks) (h : draft.PlacedTo start c) :
    round.outcome.2.PlacedTo start round.outcome.1 := by
  cases hround with
  | ended => exact h
  | @comment d => exact h.mono (Cursor.le_of_lt d.2)
  | closed _ hle => exact h.mono hle
  | key _ hkey => exact h.begin hkey
  | colon hawaited hd => exact h.colon hd (hlacks.of_colon hawaited)
  | @value value d t _ hawaited hvalue =>
    obtain ⟨hspan, hvalue⟩ := hplaces hvalue
    have hfill := PropertyDraft.Placed.fill h (by simp [hspan]) (hlacks.of_value hawaited) hvalue
    rwa [hspan, ← Cursor.source_eq_of_lt d.2] at hfill
  | comma _ hd => exact h.comma hd
  | halt => exact h
  | recover _ _ hround => exact hround.placed h

theorem readProperties_placed {rule : ValueRule σ n} (hquiet : rule.Quiet) (hplaces : rule.Places)
    {start : Nat} {c : Cursor} (hc : c.rest.length < n) (draft : PropertyDraft) (s : Session σ)
    (hlacks : draft.Lacks) (h : draft.PlacedTo start c) :
    (readProperties rule c hc draft s).2.1.PlacedTo start
      (readProperties rule c hc draft s).1.1 := by
  let holds (d : Cursor) (draft : PropertyDraft) (_ : Session σ) : Prop :=
    draft.Lacks ∧ draft.PlacedTo start d
  have hrounds := rounds_invariant (propertyStep rule) holds ?_ ?_ hc draft s ⟨hlacks, h⟩
  · rw [readProperties_eq_rounds]
    exact hrounds.2
  · rintro d draft t ⟨hlacks, h⟩
    exact ⟨hlacks, h.mono d.le_skipBlanks⟩
  · rintro d hd draft t ⟨hlacks, h⟩
    have hround := propertyStep_round hquiet d hd draft t
    exact ⟨hround.lacks hlacks, hround.placed hplaces hlacks h⟩

theorem PropertyDraft.Placed.object {c d : Cursor} {draft : PropertyDraft} {start : Nat}
    (hle : c ≤ d) (hstart : c.position ≤ start) (h : draft.Placed c.source start d.position)
    (s : Session σ) :
    AllPlaced c.source
      (Value.object ⟨c.position, d.position⟩ (draft.flush s).1.finished.toList).nodes := by
  have hfinished := draft.finished_flush s
  rw [Value.nodes, propertyNodes_eq, hfinished]
  refine .cons (Node.placed_of_row (Span.in_of_le hle) ?_) (.flatMap ?_)
  · have hchildren : (Node.value (.object ⟨c.position, d.position⟩ draft.properties)).children.map
        Node.span = draft.properties.map Property.span := by
      simp [Node.children, Function.comp_def, Node.span]
    rw [hchildren]
    exact h.row.mono_left hstart
  · exact fun p hp => (h.placed p hp).nodes

/-! ### Values and documents -/

/-- Every value that is read fills the text that was read, and all its nodes are placed. -/
theorem readValue_placed {c : Cursor} {s t : Session σ} {value : Value} {d : c.After}
    (h : readValue c s = (some (value, d), t)) :
    value.span = ⟨c.position, d.1.position⟩ ∧ AllPlaced c.source value.nodes := by
  have hin := Span.in_of_le (Cursor.le_of_lt d.2)
  have hread := readValue_read c s
  rw [h] at hread
  cases hread with
  | text htext =>
    have hspans := readText_spans htext
    exact ⟨hspans.span_eq, hspans.placed (Cursor.le_of_lt d.2)⟩
  | @expression e _ _ _ hexpression =>
    have hspan := readExpression_span hexpression
    rw [← hspan] at hin
    exact ⟨hspan, .cons (Node.placed_leaf hin rfl) (by simp [AllPlaced])⟩
  | @array inner hlt e draft closed u _ hinner hslots hvalue hd =>
    subst hvalue
    have hloop := readSlots_placed readValue_quiet
      (fun _ _ _ _ _ _ hvalue => readValue_placed hvalue) hlt {} s (fun _ => rfl)
      ⟨Nat.le_refl _, by simp [slotValues, SlotDraft.slots]⟩
    rw [hslots, hinner.source_eq] at hloop
    exact ⟨rfl, hloop.2.array (Cursor.le_of_lt hd) (Cursor.position_le_of_le hinner.le) hloop.1⟩
  | @object inner hlt e draft closed u v _ hinner hbrace hproperties hv hvalue hd =>
    subst hvalue
    have hloop := readProperties_placed readValue_quiet
      (fun _ _ _ _ _ _ hvalue => readValue_placed hvalue) hlt {} s
      (by simp [PropertyDraft.Lacks]) ⟨Nat.le_refl _, by simp [PropertyDraft.properties]⟩
    rw [hproperties, PropertyDraft.PlacedTo, Cursor.source_eq_of_le e.2, hinner.source_eq] at hloop
    exact ⟨rfl, hloop.object (Cursor.le_of_lt hd) (Cursor.position_le_of_le hinner.le) v⟩
  | scalar _ _ hscalar =>
    unfold Scalar.scan at hscalar
    split at hscalar
    · simp at hscalar
    · obtain ⟨rfl, rfl⟩ := by simpa using hscalar
      exact ⟨rfl, .cons (Node.placed_leaf hin rfl) (by simp [AllPlaced])⟩
termination_by c.rest.length

theorem EmptyInput.value_placed (emptyInput : EmptyInput) (c : Cursor) :
    AllPlaced c.source (emptyInput.value c.position).nodes := by
  have hin : Span.In c.source ⟨c.position, c.position⟩ := Span.in_of_le c.le_refl
  cases emptyInput with
  | asUndefined => exact .cons (Node.placed_leaf hin rfl) (by simp [AllPlaced])
  | asEmptyString =>
    have hspans : Text.Spans c c ⟨⟨c.position, c.position⟩, some .double,
        ⟨⟨c.position, c.position⟩, ""⟩, []⟩ := by
      refine ⟨rfl, ?_, ?_⟩
      · exact ⟨Nat.le_refl _, Nat.le_refl _, Nat.le_refl _⟩
      · intro span hspan
        obtain rfl : span = ⟨c.position, c.position⟩ := by
          simpa [Text.partSpans_eq, partSpansAfter] using hspan
        exact hin
    exact hspans.placed c.le_refl

theorem readTextContent_placed (quote : Option Quote) (c : Cursor) (s : Session σ) :
    AllPlaced c.source (readTextContent quote c c s).1.nodes := by
  have hrow := readContent_row quote c.le_refl s
  have hspans : (readTextContent quote c c s).1.Spans c (readContent quote c c s).2.1.1 :=
    hrow.text (Nat.le_refl _) rfl
  exact hspans.placed (readContent quote c c s).2.1.2

section Document

variable (options : ReadOptions) (hooks : Hooks σ) (state : σ)

theorem firstRoot_placed {value : Value}
    (h : (firstRoot options hooks state source).1.value = some value) :
    AllPlaced source value.nodes := by
  have hsource := documentStart_source options hooks state source
  unfold firstRoot readRoot at h
  split at h
  · obtain rfl := Option.some.inj h
    have hplaced := options.emptyInput.value_placed (documentStart options hooks state source)
    rwa [hsource] at hplaced
  · split at h
    · rename_i found d t hread
      obtain rfl := Option.some.inj h
      exact hsource ▸ (readValue_placed hread).2
    · simp at h

end Document

/-- Every node of a document stands where it should, whatever the text and the options. -/
theorem readDocument_reaches_placed {options : ReadOptions} {hooks : Hooks σ} {state : σ}
    {document : Document} {root : Value} {node : Node}
    (hdocument : (readDocument options hooks state source).1 = .ok document)
    (hroot : document.root = some root) (hnode : (Node.value root).Reaches node) :
    node.Placed source := by
  apply (show AllPlaced source root.nodes from ?_) node hnode.mem_preorder
  have hread := readDocument_read options hooks state source
  generalize readDocument options hooks state source = outcome at hread hdocument
  cases hread with
  | asValue =>
    obtain rfl := Except.ok.inj hdocument
    exact firstRoot_placed options hooks state hroot
  | asString =>
    obtain rfl := Except.ok.inj hdocument
    obtain rfl := Option.some.inj hroot
    have hplaced := readTextContent_placed none (documentStart options hooks state source)
      (notedSession options hooks state source).clearProblems.restartExpressions
    rwa [documentStart_source] at hplaced
  | failed => simp at hdocument

/-- A broken object: a second comma, a colon without a key, and a string that is not closed. -/
theorem readDocument_reaches_placed_broken :
    ∃ document root,
      (readDocument { onError := .recover } ({} : Hooks Unit) ()
        "\x7bé,,:[1 b: \"x\x7b\x7by\x7d\x7d".toList).1 = .ok document ∧
      document.root = some root ∧ (Node.value root).Reaches (.value root) ∧
      (Node.value root).Placed "\x7bé,,:[1 b: \"x\x7b\x7by\x7d\x7d".toList := by
  have hdocument : ∃ document, (readDocument { onError := .recover } ({} : Hooks Unit) ()
      "\x7bé,,:[1 b: \"x\x7b\x7by\x7d\x7d".toList).1 = .ok document ∧
      document.root.isSome = true := ⟨_, rfl, by decide +kernel⟩
  obtain ⟨document, hdocument, hsome⟩ := hdocument
  obtain ⟨root, hroot⟩ := Option.isSome_iff_exists.mp hsome
  exact ⟨document, root, hdocument, hroot, .refl _,
    readDocument_reaches_placed hdocument hroot (.refl _)⟩

end DataTemplate
