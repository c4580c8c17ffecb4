/-
The order in which an observer is told of leaves.  They come in the order of the text, but for an
expression of a string, which is told of before the segment in front of it.  So the order of the
text is kept just by the documents in which no string holds an expression.  Main statements:
`Node.leavesSorted` and `readDocument_leaves_ordered`.
-/
import DataTemplate.Proofs.Observation
import DataTemplate.Proofs.TextContent

namespace DataTemplate

variable {σ : Type} {n : Nat}

/-! ### Nodes that take up room -/

/-- A node that takes up room in the source.  The parts of a string end before the string does, so
that there is room for its closing quote. -/
def Node.Solid : Node → Prop
  | identifier i => i.span.start < i.span.stop
  | value (.text t) => ∃ stop, Span.Row t.span.start stop t.partSpans ∧ stop < t.span.stop
  | value v => v.span.start < v.span.stop
  | _ => True

/-- Nodes that all take up room. -/
def AllSolid (nodes : List Node) : Prop := ∀ node ∈ nodes, node.Solid

theorem Span.Abut.row {start stop : Nat} {spans : List Span} (h : Span.Abut start stop spans) :
    Span.Row start stop spans := by
  induction spans generalizing start with
  | nil => exact Nat.le_of_eq h
  | cons span spans ih => exact ⟨Nat.le_of_eq h.1.symm, h.2.1, ih h.2.2⟩

theorem Laid.expression_lt {quote : Option Quote} {c stop : Cursor} {first : Segment}
    {more : List (Expression × Segment)} (h : Laid quote c stop first more) :
    ∀ part ∈ more, part.1.span.start < part.1.span.stop := by
  induction h with
  | last => simp
  | cons _ hlt he _ ih =>
    refine List.forall_mem_cons.mpr ⟨?_, ih⟩
    rw [he]
    exact Cursor.position_lt_of_lt hlt

/-- A string that was read without a problem was closed. -/
theorem finishText_closed_of_unbroken {quote : Option Quote} {c d : Cursor} {content : Content}
    {s : Session σ} (h : (finishText quote c d content s).2.Unbroken) : content.closed = true := by
  cases hclosed : content.closed with
  | true => rfl
  | false =>
    have hcommitted : (s.commit .unclosedString c.sourceLength).Unbroken := by
      unfold finishText at h
      simp only [hclosed] at h
      exact h.of_grows (.observe _ _)
    exact absurd hcommitted (Session.Unbroken.not_commit _ _ _)

section Leaves

variable {c : Cursor} {s t : Session σ}

theorem readText_solid {text : Text} {d : c.After} (h : readText c s = (some (text, d), t))
    (ht : t.Unbroken) : AllSolid text.nodes := by
  obtain ⟨quote, hquote⟩ := readText_some_quote h
  obtain ⟨inner, content, u, e, he, hinner, hcontent, hread⟩ := readText_eq_content hquote s
  obtain ⟨stop, hlaid, hend, hclosed⟩ := readContent_laid (some quote) ⟨[], .refl inner⟩ s
  rw [hcontent] at hlaid hend hclosed
  obtain ⟨hfound, rfl⟩ := Prod.mk.inj (h.symm.trans hread)
  obtain ⟨rfl, rfl⟩ := Prod.mk.inj (Option.some.inj hfound)
  have hrest : stop.rest ≠ [] := by
    simpa using hclosed.mp (finishText_closed_of_unbroken ht)
  refine List.forall_mem_cons.mpr ⟨⟨stop.position, ?_, ?_⟩, ?_⟩
  · rw [Text.partSpans_eq]
    exact hlaid.abut.row.mono_left (Cursor.position_le_of_le hinner.le)
  · rcases hend with ⟨hnone, -⟩ | ⟨mark, -, hmark⟩
    · exact absurd hnone hrest
    · exact Cursor.position_lt_of_lt (hmark.lt (by simp))
  · intro node hnode
    obtain ⟨part, hpart, rfl⟩ := List.mem_map.mp hnode
    rcases List.mem_cons.mp hpart with rfl | hpart
    · trivial
    · obtain ⟨pair, hpair, hpart⟩ := List.mem_flatMap.mp hpart
      simp only [List.mem_cons, List.not_mem_nil, or_false] at hpart
      rcases hpart with rfl | rfl
      · exact hlaid.expression_lt pair hpair
      · trivial

theorem readKey_solid {key : Key} {d : c.After} (h : readKey c s = (some (key, d), t))
    (ht : t.Unbroken) : AllSolid key.nodes := by
  have hlt : key.span.start < key.span.stop := by
    rw [readKey_span h]
    exact Cursor.position_lt_of_lt d.2
  have hread := readKey_read c s
  rw [h] at hread
  cases hread with
  | text h => exact readText_solid h ht
  | expression | identifier => exact List.forall_mem_singleton.mpr hlt

end Leaves

theorem Property.solid_nodes_iff (p : Property Value) : AllSolid p.nodes ↔
    AllSolid p.key.nodes ∧ ∀ value, p.value = some value → AllSolid value.nodes := by
  have hproperty : (Node.property p).Solid := trivial
  cases hvalue : p.value <;> simp [nodes, hvalue, hproperty, AllSolid, or_imp, forall_and]

section Rounds

variable {rule : ValueRule σ n} {c : Cursor} {hc : c.rest.length < n} {s : Session σ}

/-- All nodes of the values that a rule reads without a problem take up room. -/
def ValueRule.Solid (rule : ValueRule σ n) : Prop :=
  ∀ ⦃c hc s value d t⦄, rule c hc s = (some (value, d), t) → t.Unbroken → AllSolid value.nodes

/-- While no problem is met, all nodes in an array take up room. -/
def SlotDraft.SolidIn (draft : SlotDraft) (s : Session σ) : Prop :=
  s.Unbroken → ∀ value ∈ slotValues draft.slots, AllSolid value.nodes

theorem SlotRound.solid (hgrows : rule.Grows) (hsolid : rule.Solid) {draft : SlotDraft}
    {round : Round σ SlotDraft c} (hround : SlotRound rule c hc draft s round)
    (h : draft.SolidIn s) : round.outcome.2.SolidIn round.session := by
  intro ht
  have hbefore := h (ht.of_grows (Session.Grows.law.slotRound hgrows hround))
  cases hround with
  | ended | closed | comment => exact hbefore
  | comma => rwa [Round.outcome_again, SlotDraft.values_comma]
  | value _ hopen hvalue =>
    rw [Round.outcome_again, SlotDraft.values_fill hopen]
    exact List.forall_mem_append.mpr ⟨hbefore, List.forall_mem_singleton.mpr (hsolid hvalue ht)⟩
  | halt | recover => exact absurd ht (Session.Unbroken.not_commit _ _ _)

theorem readSlots_solid (hquiet : rule.Quiet) (hgrows : rule.Grows) (hsolid : rule.Solid)
    (hc : c.rest.length < n) (s : Session σ) (ht : (readSlots rule c hc {} s).2.2.2.Unbroken) :
    ∀ value ∈ slotValues (readSlots rule c hc {} s).2.1.finish, AllSolid value.nodes := by
  have hopened := readSlots_opened hquiet hc {} s fun _ => rfl
  rw [SlotDraft.values_finish hopened]
  rw [readSlots_eq_rounds] at ht ⊢
  refine rounds_invariant (slotStep rule) (fun _ draft t => draft.SolidIn t) (fun _ _ _ h => h) ?_
    hc {} s (fun _ => by simp [slotValues, SlotDraft.slots]) ht
  intro c hc draft s h
  exact (slotStep_round hquiet c hc draft s).solid hgrows hsolid h

/-- While no problem is met, all nodes in an object take up room. -/
def PropertyDraft.SolidIn (draft : PropertyDraft) (s : Session σ) : Prop :=
  s.Unbroken → ∀ p ∈ draft.properties, AllSolid p.nodes

theorem PropertyRound.solid (hgrows : rule.Grows) (hsolid : rule.Solid) {draft : PropertyDraft}
    {round : Round σ PropertyDraft c} (hround : PropertyRound rule c hc draft s round)
    (h : draft.SolidIn s) : round.outcome.2.SolidIn round.session := by
  intro ht
  have hbefore := h (ht.of_grows (Session.Grows.law.propertyRound hgrows hround))
  cases hround with
  | ended | comment | closed => exact hbefore
  | @key key d t _ hkey =>
    have hflushed : t.Unbroken := ht.of_grows (Session.Grows.law.flush c draft t)
    have hnodes : AllSolid (Property.mk (α := Value) key none none none).nodes := by
      simpa [Property.solid_nodes_iff] using readKey_solid hkey hflushed
    rw [Round.outcome_again, PropertyDraft.properties_begin]
    exact List.forall_mem_append.mpr ⟨hbefore, List.forall_mem_singleton.mpr hnodes⟩
  | colon | comma =>
    refine PropertyDraft.forall_modify hbefore fun p _ hp => ?_
    rw [Property.solid_nodes_iff] at hp ⊢
    exact hp
  | value _ _ hvalue =>
    refine PropertyDraft.forall_modify hbefore fun p _ hp => ?_
    rw [Property.solid_nodes_iff] at hp ⊢
    exact ⟨hp.1, by simpa using hsolid hvalue ht⟩
  | halt => exact absurd ht (Session.Unbroken.not_commit _ _ _)
  | recover _ hgo hround =>
    exact absurd (ht.of_grows (hround.grows (Session.commit_recovering hgo)))
      (Session.Unbroken.not_commit _ _ _)

theorem readProperties_solid (hquiet : rule.Quiet) (hgrows : rule.Grows) (hsolid : rule.Solid)
    (hc : c.rest.length < n) (s : Session σ)
    (ht : (readProperties rule c hc {} s).2.2.2.Unbroken) :
    ∀ p ∈ (readProperties rule c hc {} s).2.1.properties, AllSolid p.nodes := by
  rw [readProperties_eq_rounds] at ht ⊢
  refine rounds_invariant (propertyStep rule) (fun _ draft t => draft.SolidIn t)
    (fun _ _ _ h => h) ?_ hc {} s (fun _ => by simp [PropertyDraft.properties]) ht
  intro c hc draft s h
  exact (propertyStep_round hquiet c hc draft s).solid hgrows hsolid h

end Rounds

/-- All nodes of a value that is read without a problem take up room. -/
theorem readValue_solid {c : Cursor} {s t : Session σ} {value : Value} {d : c.After}
    (h : readValue c s = (some (value, d), t)) (ht : t.Unbroken) : AllSolid value.nodes := by
  have hlt : value.span.start < value.span.stop := by
    rw [(readValue_placed h).1]
    exact Cursor.position_lt_of_lt d.2
  have hread := readValue_read c s
  rw [h] at hread
  cases hread with
  | text htext => exact readText_solid htext ht
  | expression | scalar => exact List.forall_mem_singleton.mpr hlt
  | @array inner hcut e draft closed u _ hinner hslots hvalue hd =>
    subst hvalue
    obtain ⟨hu, -⟩ := (ht.of_grows (.observe _ _)).of_commitUnclosed
    have hvalues := readSlots_solid readValue_quiet (fun _ _ _ _ _ h => readValue_grows h)
      (fun _ _ _ _ _ _ h ht => readValue_solid h ht) hcut s
    rw [hslots] at hvalues
    rw [Value.nodes, slotNodes_eq]
    refine List.forall_mem_cons.mpr ⟨hlt, ?_⟩
    exact List.forall_mem_flatMap.mpr (hvalues hu)
  | @object inner hcut e draft closed u v _ hinner hbrace hproperties hv hvalue hd =>
    subst hvalue
    have hflush := Session.Grows.law.flush c draft v
    obtain ⟨hu, -⟩ := (hv ▸ (ht.of_grows (.observe _ _)).of_grows hflush).of_commitUnclosed
    have hall := readProperties_solid readValue_quiet (fun _ _ _ _ _ h => readValue_grows h)
      (fun _ _ _ _ _ _ h ht => readValue_solid h ht) hcut s
    rw [hproperties] at hall
    rw [Value.nodes, propertyNodes_eq, draft.finished_flush v]
    exact List.forall_mem_cons.mpr ⟨hlt, List.forall_mem_flatMap.mpr (hall hu)⟩
termination_by c.rest.length

/-! ### The leaves that are reported -/

namespace Node

/-- Whether a node is a leaf: an identifier, a keyword or number, an expression, or a segment. -/
def isLeaf : Node → Bool
  | identifier _ | segment _ | value (.scalar _) | value (.expression _) => true
  | _ => false

/-- The leaves of a node in the order in which they are reported. -/
def leafReports : Node → List Node
  | property p => (p.key.reports ++ p.valueReports).filter isLeaf
  | value v => v.reports.filter isLeaf
  | node => [node].filter isLeaf

theorem children_of_isLeaf {node : Node} (h : node.isLeaf = true) : node.children = [] := by
  cases node with
  | value v =>
    cases v with
    | scalar | expression => rfl
    | text | array | object => simp [isLeaf] at h
  | comment | property => simp [isLeaf] at h
  | identifier | segment => rfl

theorem leafReports_of_isLeaf {node : Node} (h : node.isLeaf = true) :
    node.leafReports = [node] := by
  cases node with
  | value v =>
    cases v with
    | scalar | expression => simp [leafReports, Value.reports, isLeaf]
    | text | array | object => simp [isLeaf] at h
  | comment | property => simp [isLeaf] at h
  | identifier | segment => rfl

end Node

theorem Key.leafReports_node (key : Key) :
    key.node.leafReports = key.reports.filter Node.isLeaf := by
  cases key with
  | text => simp [node, Node.leafReports, Value.reports, reports]
  | expression => simp [node, Node.leafReports, Value.reports, reports]
  | identifier => rfl

theorem Text.leafReports_node (t : Text) :
    (Node.value (.text t)).leafReports = contentReports t.first t.more := by
  have hleaves : ∀ node ∈ contentReports t.first t.more, node.isLeaf = true := by
    intro node hnode
    obtain ⟨part, -, rfl⟩ := List.mem_map.mp (t.contentReports_perm.mem_iff.mp hnode)
    cases part <;> rfl
  rw [Node.leafReports, Value.reports, reports, List.filter_append,
    List.filter_eq_self.mpr hleaves]
  exact List.append_nil _

/-- Properties themselves are no leaves. -/
theorem filter_propertyReports (before : Option (Property Value))
    (properties : List (Property Value)) :
    (propertyReports before properties).filter Node.isLeaf =
      properties.flatMap fun p => (Node.property p).leafReports := by
  have hnode (p : Option (Property Value)) : (propertyNode p).filter Node.isLeaf = [] := by
    cases p <;> rfl
  induction properties generalizing before with
  | nil => rfl
  | cons p properties ih =>
    rw [propertyReports_cons, List.flatMap_cons, ← ih (some p)]
    simp [Node.leafReports, hnode]

/-- The leaves of an array, an object or a property are those of its children, one child after the
other. -/
theorem Node.leafReports_eq {node : Node} (hleaf : node.isLeaf = false)
    (htext : ∀ t, node ≠ .value (.text t)) :
    node.leafReports = node.children.flatMap leafReports := by
  cases node with
  | comment => rfl
  | identifier | segment => simp [isLeaf] at hleaf
  | property p =>
    rw [leafReports, children, List.filter_append, List.flatMap_cons, Key.leafReports_node]
    cases hvalue : p.value <;> simp [Property.valueReports, hvalue, leafReports]
  | value v =>
    cases v with
    | scalar | expression => simp [isLeaf] at hleaf
    | text t => exact absurd rfl (htext t)
    | array span slots =>
      have hchildren : (Node.value (.array span slots)).children =
          (slotValues slots).map Node.value := by
        simp [children, slotValues, List.map_filterMap]
      rw [leafReports, Value.reports, hchildren, slotReports_eq, List.filter_append,
        List.filter_flatMap, List.flatMap_map]
      exact List.append_nil _
    | object span properties =>
      have hlast : (propertyNode properties.getLast?).filter isLeaf = [] := by
        cases properties.getLast? <;> rfl
      rw [leafReports, Value.reports, List.filter_append, List.filter_append, hlast,
        filter_propertyReports, children, List.flatMap_map]
      simp [isLeaf]

/-! ### In the order of the text -/

/-- In a string, the expression `x` comes right behind the segment `y`. -/
def Text.Overtakes (t : Text) (x y : Node) : Prop :=
  ∃ before s e after, t.parts = before ++ .segment s :: .expression e :: after ∧
    x = .value (.expression e) ∧ y = .segment s

/-- What may be told before what: `x` stands in front of `y`, or it is an expression of a string
below `root` and `y` is the segment in front of it. -/
def Node.ToldBefore (root x y : Node) : Prop :=
  x.span.start < y.span.start ∨ ∃ t, root.Reaches (.value (.text t)) ∧ t.Overtakes x y

/-- The leaves of a node stand in it, and they are told in order. -/
structure Node.LeavesSorted (node : Node) : Prop where
  within : ∀ x ∈ node.leafReports, node.span.start ≤ x.span.start ∧ x.span.start < node.span.stop
  sorted : node.leafReports.Pairwise node.ToldBefore

section Content

variable {first next : Segment} {e : Expression} {more : List (Expression × Segment)}
  {start stop : Nat}

/-- A row of parts by its first two: the rest is the row behind the expression. -/
theorem rowAfter_cons
    (h : Span.Row start stop (first.span :: partSpansAfter ((e, next) :: more))) :
    start ≤ first.span.start ∧ first.span.start ≤ e.span.start ∧ e.span.start ≤ stop ∧
      Span.Row e.span.stop stop (next.span :: partSpansAfter more) := by
  obtain ⟨hstart, hfirst, hexpression, hroom, hrest⟩ := h
  exact ⟨hstart, Nat.le_trans hfirst hexpression, Nat.le_trans hroom (Span.Row.le hrest), hrest⟩

theorem contentReports_within (h : Span.Row start stop (first.span :: partSpansAfter more)) :
    ∀ x ∈ contentReports first more, start ≤ x.span.start ∧ x.span.start ≤ stop := by
  induction more generalizing first start with
  | nil =>
    obtain ⟨hstart, hle, hstop⟩ := h
    exact List.forall_mem_singleton.mpr ⟨hstart, Nat.le_trans hle hstop⟩
  | cons part more ih =>
    obtain ⟨e, next⟩ := part
    obtain ⟨hstart, hfirst, hstop, hrest⟩ := rowAfter_cons h
    have hbehind : start ≤ e.span.stop :=
      Nat.le_trans (Nat.le_trans hstart hfirst) h.2.2.2.1
    refine List.forall_mem_cons.mpr ⟨⟨Nat.le_trans hstart hfirst, hstop⟩, ?_⟩
    refine List.forall_mem_cons.mpr ⟨⟨hstart, Nat.le_trans hfirst hstop⟩, ?_⟩
    exact ih (hrest.mono_left hbehind)

/-- What is told of the content of a string is in order, if `R` allows what comes later in the text
to be told later, and an expression to be told before the segment in front of it. -/
theorem contentReports_sorted {R : Node → Node → Prop}
    (hrow : Span.Row start stop (first.span :: partSpansAfter more))
    (hsolid : ∀ part ∈ more, part.1.span.start < part.1.span.stop)
    (hlt : ∀ x y : Node, x.span.start < y.span.start → R x y)
    (hpair : ∀ before s e after,
      partsOf first more = before ++ .segment s :: .expression e :: after →
      R (.value (.expression e)) (.segment s)) :
    (contentReports first more).Pairwise R := by
  induction more generalizing first start with
  | nil => exact List.pairwise_singleton _ _
  | cons part more ih =>
    obtain ⟨e, next⟩ := part
    obtain ⟨-, hfirst, -, hrest⟩ := rowAfter_cons hrow
    obtain ⟨hroom, hsolid⟩ := List.forall_mem_cons.mp hsolid
    have hsorted : (contentReports next more).Pairwise R := by
      refine ih hrest hsolid fun before s e' after hsplit => ?_
      refine hpair (.segment first :: .expression e :: before) s e' after ?_
      rw [partsOf_cons, hsplit]
      rfl
    have hlater : ∀ y ∈ contentReports next more, e.span.start < y.span.start :=
      fun y hy => Nat.lt_of_lt_of_le hroom (contentReports_within hrest y hy).1
    refine .cons (List.forall_mem_cons.mpr ⟨?_, ?_⟩) (.cons ?_ hsorted)
    · exact hpair [] first e (partsOf next more) rfl
    · exact fun y hy => hlt _ _ (hlater y hy)
    · exact fun y hy => hlt _ _ (Nat.lt_of_le_of_lt hfirst (hlater y hy))

end Content

theorem Text.expressions_solid {t : Text} (h : AllSolid t.nodes) :
    ∀ part ∈ t.more, part.1.span.start < part.1.span.stop := by
  intro part hpart
  have hmem : TextPart.expression part.1 ∈ t.parts :=
    List.mem_cons_of_mem _ (List.mem_flatMap.mpr ⟨part, hpart, List.mem_cons_self⟩)
  exact h _ (List.mem_cons_of_mem _ (List.mem_map_of_mem hmem))

theorem Text.leavesSorted {t : Text} (h : AllSolid t.nodes) :
    (Node.value (.text t)).LeavesSorted := by
  obtain ⟨stop, hrow, hclosed⟩ : (Node.value (.text t)).Solid := h _ List.mem_cons_self
  rw [t.partSpans_eq] at hrow
  refine ⟨?_, ?_⟩
  · intro x hx
    rw [t.leafReports_node] at hx
    obtain ⟨hfrom, hto⟩ := contentReports_within hrow x hx
    exact ⟨hfrom, Nat.lt_of_le_of_lt hto hclosed⟩
  · rw [t.leafReports_node]
    refine contentReports_sorted hrow (t.expressions_solid h) (fun _ _ hlt => .inl hlt) ?_
    exact fun before s e after hsplit =>
      .inr ⟨t, .refl _, before, s, e, after, hsplit, rfl, rfl⟩

namespace Node

variable {node child : Node}

theorem ToldBefore.of_child {x y : Node} (hchild : child ∈ node.children)
    (h : child.ToldBefore x y) : node.ToldBefore x y :=
  h.imp_right fun ⟨t, hreach, hovertakes⟩ => ⟨t, .child hchild hreach, hovertakes⟩

theorem LeavesSorted.of_leaf (hleaf : node.isLeaf = true) (hlt : node.span.start < node.span.stop) :
    node.LeavesSorted := by
  have hreports := leafReports_of_isLeaf hleaf
  constructor
  · rw [hreports]
    exact List.forall_mem_singleton.mpr ⟨Nat.le_refl _, hlt⟩
  · rw [hreports]
    exact List.pairwise_singleton _ _

/-- Children that are in order, one after the other in their parent, make it so. -/
theorem LeavesSorted.of_children {source : List Char} (hplaced : node.Placed source)
    (hreports : node.leafReports = node.children.flatMap leafReports)
    (h : ∀ child ∈ node.children, child.LeavesSorted) : node.LeavesSorted := by
  refine ⟨?_, ?_⟩
  · intro x hx
    rw [hreports] at hx
    obtain ⟨child, hchild, hx⟩ := List.mem_flatMap.mp hx
    obtain ⟨hfrom, hto⟩ := (h child hchild).within x hx
    have hinside : node.span.start ≤ child.span.start ∧ child.span.stop ≤ node.span.stop := by
      simpa [Span.contains] using hplaced.inside child hchild
    omega
  · rw [hreports, List.pairwise_flatMap]
    refine ⟨?_, ?_⟩
    · intro child hchild
      exact (h child hchild).sorted.imp fun hxy => hxy.of_child hchild
    · refine hplaced.ordered.imp_of_mem fun {first second} hfirst hsecond hle x hx y hy => .inl ?_
      have hend := ((h first hfirst).within x hx).2
      have hbegin := ((h second hsecond).within y hy).1
      omega

/-- Segments are children of strings only. -/
theorem children_ne_segment (htext : ∀ t, node ≠ .value (.text t)) (hchild : child ∈ node.children)
    (s : Segment) : child ≠ .segment s := by
  rintro rfl
  cases node with
  | comment | identifier | segment => simp [children] at hchild
  | property p => cases hkey : p.key <;> simp [children, Key.node, hkey] at hchild
  | value v =>
    cases v with
    | text t => exact htext t rfl
    | scalar | expression | array | object => simp [children] at hchild

/-- The leaves of a tree whose nodes stand in order and take up room are told in order. -/
theorem leavesSorted {source : List Char} {node : Node} (hplaced : AllPlaced source node.preorder)
    (hsolid : AllSolid node.preorder) (hsegment : ∀ s, node ≠ .segment s) :
    node.LeavesSorted := by
  induction node using Node.induction with
  | node node ih =>
    have hmem : node ∈ node.preorder := mem_preorder_iff.mpr (.inl rfl)
    by_cases htext : ∃ t, node = .value (.text t)
    · obtain ⟨t, rfl⟩ := htext
      rw [preorder, Value.nodes] at hsolid
      exact t.leavesSorted hsolid
    · have hnot : ∀ t, node ≠ .value (.text t) := not_exists.mp htext
      by_cases hleaf : node.isLeaf = true
      · refine .of_leaf hleaf ?_
        have hroom := hsolid node hmem
        cases node with
        | identifier => exact hroom
        | segment s => exact absurd rfl (hsegment s)
        | comment | property => simp [isLeaf] at hleaf
        | value v =>
          cases v with
          | scalar | expression => exact hroom
          | text | array | object => simp [isLeaf] at hleaf
      · rw [Bool.not_eq_true] at hleaf
        refine .of_children (hplaced node hmem) (leafReports_eq hleaf hnot) ?_
        intro child hchild
        have hbelow : child.preorder ⊆ node.preorder := fun below hin =>
          mem_preorder_iff.mpr (.inr ⟨child, hchild, hin⟩)
        exact ih child hchild (fun below hin => hplaced below (hbelow hin))
          (fun below hin => hsolid below (hbelow hin)) (children_ne_segment hnot hchild)

/-! ### Where the order of the text is kept -/

/-- `x` stands in front of `y`, or it is an empty segment at the place where `y` starts. -/
def InFront (x y : Node) : Prop :=
  x.span.start < y.span.start ∨ x.span.start = y.span.start ∧
    ∃ s : Segment, x = .segment s ∧ s.span.start = s.span.stop

theorem InFront.start_le {x y : Node} (h : x.InFront y) : x.span.start ≤ y.span.start := by
  rcases h with hlt | ⟨heq, -⟩
  · exact Nat.le_of_lt hlt
  · exact Nat.le_of_eq heq

theorem leafReports_sublist (hchild : child ∈ node.children) :
    child.leafReports.Sublist node.leafReports := by
  by_cases hleaf : node.isLeaf = true
  · simp [children_of_isLeaf hleaf] at hchild
  · by_cases htext : ∃ t, node = .value (.text t)
    · obtain ⟨t, rfl⟩ := htext
      obtain ⟨part, hpart, rfl⟩ := List.mem_map.mp hchild
      have hpartLeaf : part.node.isLeaf = true := by cases part <;> rfl
      rw [leafReports_of_isLeaf hpartLeaf, t.leafReports_node, List.singleton_sublist]
      exact t.contentReports_perm.mem_iff.mpr hchild
    · rw [Bool.not_eq_true] at hleaf
      rw [leafReports_eq hleaf (not_exists.mp htext)]
      exact List.sublist_flatten_of_mem (List.mem_map_of_mem hchild)

theorem Reaches.leafReports_sublist {below : Node} (h : node.Reaches below) :
    below.leafReports.Sublist node.leafReports := by
  induction h with
  | refl => exact .refl _
  | child hchild _ ih => exact ih.trans (Node.leafReports_sublist hchild)

end Node

theorem Text.Overtakes.isDynamic {t : Text} {x y : Node} (h : t.Overtakes x y) :
    t.isDynamic = true := by
  obtain ⟨before, s, e, after, hparts, -, -⟩ := h
  exact t.isDynamic_iff.mpr ⟨e, by simp [hparts]⟩

/-- A string with an expression breaks the order of the text. -/
theorem Text.not_inFront {t : Text} (hsolid : (Node.value (.text t)).Solid)
    (hdynamic : t.isDynamic = true) :
    ¬ (Node.value (.text t)).leafReports.Pairwise Node.InFront := by
  intro hsorted
  obtain ⟨stop, hrow, -⟩ := hsolid
  obtain ⟨span, quote, first, more⟩ := t
  cases more with
  | nil => simp [isDynamic] at hdynamic
  | cons part more =>
    obtain ⟨e, next⟩ := part
    rw [Text.partSpans_eq] at hrow
    obtain ⟨-, hordered, -⟩ := rowAfter_cons hrow
    rw [Text.leafReports_node] at hsorted
    have hpair : Node.InFront (.value (.expression e)) (.segment first) :=
      List.rel_of_pairwise_cons hsorted List.mem_cons_self
    rcases hpair with hlt | ⟨-, s, hsegment, -⟩
    · exact absurd hordered (Nat.not_le_of_lt hlt)
    · simp at hsegment

/-- The order of the text is kept just if no string holds an expression. -/
theorem Node.LeavesSorted.inFront_iff {node : Node} (h : node.LeavesSorted)
    (hsolid : AllSolid node.preorder) : node.leafReports.Pairwise Node.InFront ↔
      ∀ t, node.Reaches (.value (.text t)) → t.isDynamic = false := by
  constructor
  · intro hsorted t hreach
    rw [← Bool.not_eq_true]
    intro hdynamic
    exact Text.not_inFront (hsolid _ hreach.mem_preorder) hdynamic
      (hsorted.sublist hreach.leafReports_sublist)
  · intro hstatic
    refine h.sorted.imp fun {x y} htold => ?_
    rcases htold with hlt | ⟨t, hreach, hovertakes⟩
    · exact .inl hlt
    · exact absurd hovertakes.isDynamic (by simp [hstatic t hreach])

/-! ### Documents -/

theorem filter_withoutComments (log : List Node) :
    (withoutComments log).filter Node.isLeaf = log.filter Node.isLeaf := by
  rw [withoutComments, List.filter_filter]
  refine List.filter_congr fun node _ => ?_
  cases node with
  | comment => rfl
  | value v => simp [Node.kind, v.kind_ne_comment]
  | identifier | segment | property => simp [Node.kind]

theorem EmptyInput.isDynamic_value {emptyInput : EmptyInput} {position : Nat} {t : Text}
    (h : (Node.value (emptyInput.value position)).Reaches (.value (.text t))) :
    t.isDynamic = false := by
  have hmem := h.mem_preorder
  cases emptyInput with
  | asUndefined => simp [EmptyInput.value, Node.preorder, Value.nodes] at hmem
  | asEmptyString =>
    obtain rfl : t = _ := by
      simpa [EmptyInput.value, Node.preorder, Value.nodes, Text.nodes, Text.parts,
        TextPart.node] using hmem
    rfl

section Document

variable {options : ReadOptions} {hooks : Hooks σ} {state : σ} {source : List Char}

/-- What a reading without problems tells of its value, but for comments: the nodes of the value as
they are completed, or the value that stands for one in an empty document. -/
theorem readDocument_tells {document : Document}
    (hdocument : (readDocument options hooks.observing (state, []) source).1 = .ok document)
    (hproblems : document.problems = []) (hkept : document.readAsString = false) :
    ∃ root log, document.root = some root ∧
      withoutComments (readDocument options hooks.observing (state, []) source).2.2 = log ∧
      ((∃ position, root = options.emptyInput.value position ∧ log = [.value root]) ∨
        (log = root.reports ∧ AllPlaced source root.nodes ∧ AllSolid root.nodes)) := by
  have hread := readDocument_read options hooks.observing (state, []) source
  generalize readDocument options hooks.observing (state, []) source = outcome at hread hdocument ⊢
  cases hread with
  | asString =>
    obtain rfl := Except.ok.inj hdocument
    simp at hkept
  | failed => simp at hdocument
  | asValue hkeeps =>
    obtain rfl := Except.ok.inj hdocument
    have hnone : (notedSession options hooks.observing (state, []) source).problems = #[] := by
      simpa using hproblems
    obtain ⟨hnoted, -⟩ := notedSession_of_no_problems hnone
    rw [hnoted] at hnone ⊢
    obtain ⟨hwatched, hempty⟩ := openDocument_watched options hooks state source
    have hroot := firstRoot_read options hooks.observing (state, []) source
    have hunbroken := @firstRoot_unbroken _ source options hooks.observing (state, [])
    generalize firstRoot options hooks.observing (state, []) source = outcome
      at hroot hnone hunbroken ⊢
    cases hroot with
    | none => simp [Session.push] at hnone
    | @empty value _ hvalue =>
      have htold := hwatched.observe_value value
      rw [Session.Tells, hempty, List.nil_append] at htold
      exact ⟨value, _, rfl, htold, .inl ⟨_, hvalue, rfl⟩⟩
    | @value value d t hvalue =>
      have ht := hunbroken hvalue hnone
      have htold := readValue_tells hvalue hwatched ht
      rw [Session.Tells, hempty, List.nil_append] at htold
      have hplaced := (readValue_placed hvalue).2
      rw [documentStart_source] at hplaced
      exact ⟨value, _, rfl, htold, .inr ⟨rfl, hplaced, readValue_solid hvalue ht⟩⟩

/-- The order in which an observer is told of leaves.  If no problem is met and the text is not read
as a string, the leaves come in the order of the text, but for an expression of a string, which
comes before the segment in front of it.  So they are all in order just if no string holds an
expression. -/
theorem readDocument_leaves_ordered {document : Document}
    (hdocument : (readDocument options hooks.observing (state, []) source).1 = .ok document)
    (hproblems : document.problems = []) (hkept : document.readAsString = false) :
    ∃ root, document.root = some root ∧
      let leaves :=
        (readDocument options hooks.observing (state, []) source).2.2.filter Node.isLeaf
      leaves.Pairwise (Node.value root).ToldBefore ∧
      (leaves.Pairwise Node.InFront ↔
        ∀ t, (Node.value root).Reaches (.value (.text t)) → t.isDynamic = false) := by
  obtain ⟨root, log, hroot, hlog, htold⟩ := readDocument_tells hdocument hproblems hkept
  refine ⟨root, hroot, ?_⟩
  rw [← filter_withoutComments, hlog]
  rcases htold with ⟨position, rfl, rfl⟩ | ⟨rfl, hplaced, hsolid⟩
  · have hpairwise (R : Node → Node → Prop) :
        ([Node.value (options.emptyInput.value position)].filter Node.isLeaf).Pairwise R :=
      (List.pairwise_singleton R _).sublist List.filter_sublist
    exact ⟨hpairwise _, fun _ t hreach => EmptyInput.isDynamic_value hreach, fun _ => hpairwise _⟩
  · have hsorted : (Node.value root).LeavesSorted :=
      Node.leavesSorted hplaced hsolid (by simp)
    exact ⟨hsorted.sorted, hsorted.inFront_iff hsolid⟩

end Document

/-- A string around an expression, which is told first.  So the tree does hold such a string. -/
theorem readDocument_leaves_ordered_string :
    ∃ document root t, (readDocument { onError := .stop } ({} : Hooks Unit).observing ((), [])
        "\"a\x7b\x7bb\x7d\x7d\"".toList).1 = .ok document ∧
      document.problems = [] ∧ document.readAsString = false ∧
      ((readDocument { onError := .stop } ({} : Hooks Unit).observing ((), [])
        "\"a\x7b\x7bb\x7d\x7d\"".toList).2.2.filter Node.isLeaf).map
          (fun leaf => (leaf.kind, leaf.span)) =
        [(.expression, ⟨2, 7⟩), (.stringSegment, ⟨1, 2⟩), (.stringSegment, ⟨7, 7⟩)] ∧
      document.root = some root ∧ (Node.value root).Reaches (.value (.text t)) ∧
      t.isDynamic = true := by
  have hdocument : ∃ document, (readDocument { onError := .stop }
        ({} : Hooks Unit).observing ((), []) "\"a\x7b\x7bb\x7d\x7d\"".toList).1 =
          .ok document ∧
      document.problems = [] ∧ document.readAsString = false :=
    ⟨_, rfl, by decide +kernel, by decide +kernel⟩
  obtain ⟨document, hdocument, hproblems, hkept⟩ := hdocument
  obtain ⟨root, hroot, -, hordered⟩ := readDocument_leaves_ordered hdocument hproblems hkept
  have hbroken : ¬ ((readDocument { onError := .stop } ({} : Hooks Unit).observing ((), [])
      "\"a\x7b\x7bb\x7d\x7d\"".toList).2.2.filter Node.isLeaf).Pairwise Node.InFront := by
    intro hsorted
    have hstarts := List.pairwise_map.mpr (hsorted.imp Node.InFront.start_le)
    revert hstarts
    decide +kernel
  have hdynamic : ∃ t, (Node.value root).Reaches (.value (.text t)) ∧ t.isDynamic = true := by
    by_contra hnone
    refine hbroken (hordered.mpr fun t hreach => ?_)
    exact Bool.eq_false_iff.mpr fun hdynamic => hnone ⟨t, hreach, hdynamic⟩
  obtain ⟨t, hreach, hdynamic⟩ := hdynamic
  exact ⟨document, root, t, hdocument, hproblems, hkept, by decide +kernel, hroot, hreach, hdynamic⟩

end DataTemplate
