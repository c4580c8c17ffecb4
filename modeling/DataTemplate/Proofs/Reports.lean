/-
The order in which the nodes of a tree are complete.  A string is complete after its parts and an
array after its items; a property is complete once the next key has been read, or its object has
ended.  Main statements: `Value.reports_perm`, which says that these are the nodes of the tree, and
`Value.reports_childrenFirst`.
-/
import DataTemplate.Proofs.Preorder
import Mathlib.Data.List.Perm.Basic

namespace DataTemplate

/-! ### The order -/

/-- The nodes of string content.  An expression is complete before the text in front of it. -/
def contentReports (first : Segment) : List (Expression × Segment) → List Node
  | [] => [.segment first]
  | (e, s) :: more => .value (.expression e) :: .segment first :: contentReports s more

/-- The nodes of a string as they are completed. -/
def Text.reports (t : Text) : List Node := contentReports t.first t.more ++ [.value (.text t)]

/-- The nodes of a key as they are completed. -/
def Key.reports : Key → List Node
  | text t => t.reports
  | expression e => [.value (.expression e)]
  | identifier i => [.identifier i]

/-- The node of a property, if there is one. -/
def propertyNode (p : Option (Property Value)) : List Node := (p.map Node.property).toList

mutual

/-- The nodes of a value as they are completed. -/
def Value.reports : Value → List Node
  | .scalar s => [.value (.scalar s)]
  | .expression e => [.value (.expression e)]
  | .text t => t.reports
  | .array span slots => slotReports slots ++ [.value (.array span slots)]
  | .object span properties =>
    propertyReports none properties ++ propertyNode properties.getLast? ++
      [.value (.object span properties)]

/-- The nodes of some slots as they are completed. -/
def slotReports : List (Slot Value) → List Node
  | [] => []
  | ⟨some value, _, _⟩ :: slots => value.reports ++ slotReports slots
  | ⟨none, _, _⟩ :: slots => slotReports slots

/-- The nodes of some properties as they are completed, up to the last property, which is not.  So
is not the property `before` them until the first key has been read. -/
def propertyReports (before : Option (Property Value)) : List (Property Value) → List Node
  | [] => []
  | ⟨key, colon, some value, comma⟩ :: properties =>
    key.reports ++ (propertyNode before ++
      (value.reports ++ propertyReports (some ⟨key, colon, some value, comma⟩) properties))
  | ⟨key, colon, none, comma⟩ :: properties =>
    key.reports ++ (propertyNode before ++
      propertyReports (some ⟨key, colon, none, comma⟩) properties)

end

/-- The nodes of the value of a property as they are completed. -/
def Property.valueReports (p : Property Value) : List Node := p.value.toList.flatMap Value.reports

theorem slotReports_eq (slots : List (Slot Value)) :
    slotReports slots = (slotValues slots).flatMap Value.reports := by
  induction slots with
  | nil => simp [slotReports, slotValues]
  | cons slot slots ih =>
    obtain ⟨value, start, comma⟩ := slot
    cases value with
    | none => simpa [slotReports, slotValues] using ih
    | some value => simpa [slotReports, slotValues] using ih

theorem propertyReports_cons (before : Option (Property Value)) (p : Property Value)
    (properties : List (Property Value)) :
    propertyReports before (p :: properties) = p.key.reports ++ (propertyNode before ++
      (p.valueReports ++ propertyReports (some p) properties)) := by
  obtain ⟨key, colon, value, comma⟩ := p
  cases value with
  | none => simp [propertyReports, Property.valueReports]
  | some value => simp [propertyReports, Property.valueReports]

theorem getLast?_cons_or (p : Property Value) (properties : List (Property Value))
    (before : Option (Property Value)) :
    (p :: properties).getLast?.or before = properties.getLast?.or (some p) := by
  rw [List.getLast?_cons]
  cases properties.getLast? <;> rfl

/-- One more property at the end completes the one before it. -/
theorem propertyReports_concat (before : Option (Property Value))
    (properties : List (Property Value)) (p : Property Value) :
    propertyReports before (properties ++ [p]) = propertyReports before properties ++
      (p.key.reports ++ (propertyNode (properties.getLast?.or before) ++ p.valueReports)) := by
  induction properties generalizing before with
  | nil => simp [propertyReports_cons, propertyReports]
  | cons first properties ih =>
    rw [List.cons_append, propertyReports_cons, propertyReports_cons, ih, getLast?_cons_or]
    simp only [List.append_assoc]

/-! ### The nodes of the tree -/

theorem contentReports_perm (first : Segment) (more : List (Expression × Segment)) :
    (contentReports first more).Perm (.segment first ::
      (more.flatMap fun (e, s) => [TextPart.expression e, .segment s]).map TextPart.node) := by
  induction more generalizing first with
  | nil => exact .refl _
  | cons part more ih =>
    obtain ⟨e, s⟩ := part
    exact (List.Perm.swap _ _ _).trans (((ih s).cons _).cons _)

theorem Text.contentReports_perm (t : Text) :
    (contentReports t.first t.more).Perm (t.parts.map TextPart.node) :=
  DataTemplate.contentReports_perm t.first t.more

theorem Text.reports_perm (t : Text) : t.reports.Perm t.nodes :=
  (List.perm_append_singleton _ _).trans (t.contentReports_perm.cons _)

theorem Key.reports_perm (key : Key) : key.reports.Perm key.nodes := by
  cases key with
  | text t => exact t.reports_perm
  | expression | identifier => exact .refl _

theorem Property.valueReports_perm {p : Property Value}
    (h : ∀ v, p.value = some v → v.reports.Perm v.nodes) :
    p.valueReports.Perm (p.value.toList.flatMap Value.nodes) :=
  List.Perm.flatMap_left _ fun v hv => h v (by simpa using hv)

theorem propertyReports_perm {properties : List (Property Value)}
    (h : ∀ p ∈ properties, ∀ v, p.value = some v → v.reports.Perm v.nodes)
    (before : Option (Property Value)) :
    (propertyReports before properties ++ propertyNode (properties.getLast?.or before)).Perm
      (propertyNode before ++ properties.flatMap Property.nodes) := by
  induction properties generalizing before with
  | nil => simp [propertyReports]
  | cons p properties ih =>
    have hrest := ih (fun other hother => h other (List.mem_cons_of_mem _ hother)) (some p)
    have hvalue := Property.valueReports_perm (h p List.mem_cons_self)
    rw [propertyReports_cons, getLast?_cons_or, List.flatMap_cons, Property.nodes]
    simp only [List.append_assoc]
    calc p.key.reports ++ (propertyNode before ++ (p.valueReports ++
          (propertyReports (some p) properties ++ propertyNode (properties.getLast?.or (some p)))))
        |>.Perm (p.key.nodes ++ (propertyNode before ++ (p.value.toList.flatMap Value.nodes ++
          (.property p :: properties.flatMap Property.nodes)))) :=
        p.key.reports_perm.append ((List.Perm.refl _).append (hvalue.append hrest))
      _ |>.Perm (propertyNode before ++ (p.key.nodes ++ (p.value.toList.flatMap Value.nodes ++
          (.property p :: properties.flatMap Property.nodes)))) := List.perm_append_comm_assoc _ _ _
      _ |>.Perm _ := by
        refine (List.Perm.refl _).append ?_
        rw [← List.append_assoc]
        exact List.perm_middle

/-- The nodes that are completed are those of the tree, each once. -/
theorem Value.reports_perm (value : Value) : value.reports.Perm value.nodes := by
  induction value using Value.induction with
  | scalar | expression => simp [reports, nodes]
  | text t =>
    rw [reports, nodes]
    exact t.reports_perm
  | array span slots ih =>
    rw [reports, nodes, slotReports_eq, slotNodes_eq]
    refine (List.perm_append_singleton _ _).trans (.cons _ (List.Perm.flatMap_left _ ?_))
    intro value hvalue
    obtain ⟨slot, hslot, hvalue⟩ := List.mem_filterMap.mp hvalue
    exact ih slot hslot value hvalue
  | object span properties ih =>
    have hproperties := propertyReports_perm ih none
    rw [Option.or_none] at hproperties
    rw [reports, nodes, propertyNodes_eq]
    exact (List.perm_append_singleton _ _).trans (.cons _ hproperties)

/-! ### Children first -/

/-- Every node of a log stands behind all nodes below it. -/
def ChildrenFirst (log : List Node) : Prop :=
  ∀ before node after, log = before ++ node :: after →
    ∀ child ∈ node.children, child.preorder ⊆ before

namespace ChildrenFirst

variable {xs ys : List Node} {node : Node}

theorem append (h : ChildrenFirst xs) (k : ChildrenFirst ys) : ChildrenFirst (xs ++ ys) := by
  intro before node after hsplit child hchild
  rcases append_cons_eq_append_iff.mp hsplit.symm with ⟨middle, hxs, -⟩ | ⟨middle, rfl, hys⟩
  · exact h before node middle hxs child hchild
  · exact List.Subset.trans (k middle node after hys child hchild) (List.subset_append_right _ _)

theorem concat (h : ChildrenFirst xs) (hnode : ∀ child ∈ node.children, child.preorder ⊆ xs) :
    ChildrenFirst (xs ++ [node]) := by
  intro before other after hsplit child hchild
  rcases List.eq_nil_or_concat' after with rfl | ⟨after, last, rfl⟩
  · obtain ⟨rfl, hlast⟩ := List.append_inj' hsplit rfl
    obtain rfl := List.singleton_inj.mp hlast
    exact hnode child hchild
  · rw [← List.cons_append, ← List.append_assoc] at hsplit
    exact h before other after (List.append_inj' hsplit rfl).1 child hchild

theorem of_leaves (h : ∀ node ∈ xs, node.children = []) : ChildrenFirst xs := by
  rintro before node after rfl child hchild
  simp [h node (by simp)] at hchild

theorem leaf (h : node.children = []) : ChildrenFirst [node] :=
  of_leaves (List.forall_mem_singleton.mpr h)

theorem flatMap {α : Type} {f : α → List Node} {as : List α}
    (h : ∀ a ∈ as, ChildrenFirst (f a)) : ChildrenFirst (as.flatMap f) := by
  induction as with
  | nil => exact of_leaves (by simp)
  | cons a as ih =>
    exact (h a List.mem_cons_self).append (ih fun b hb => h b (List.mem_cons_of_mem _ hb))

end ChildrenFirst

theorem Text.reports_childrenFirst (t : Text) : ChildrenFirst t.reports := by
  refine ChildrenFirst.concat (.of_leaves ?_) ?_
  · intro node hnode
    obtain ⟨part, -, rfl⟩ := List.mem_map.mp (t.contentReports_perm.mem_iff.mp hnode)
    cases part <;> rfl
  · intro child hchild
    obtain ⟨part, -, rfl⟩ := List.mem_map.mp hchild
    rw [TextPart.preorder_node]
    exact List.cons_subset.mpr ⟨t.contentReports_perm.mem_iff.mpr hchild, List.nil_subset _⟩

theorem Key.reports_childrenFirst (key : Key) : ChildrenFirst key.reports := by
  cases key with
  | text t => exact t.reports_childrenFirst
  | expression | identifier => exact .leaf rfl

/-- What is below a property has been completed. -/
def Property.BelowIn (p : Property Value) (log : List Node) : Prop :=
  ∀ child ∈ (Node.property p).children, child.preorder ⊆ log

theorem Property.belowIn_of_parts {p : Property Value} {log : List Node}
    (hkey : p.key.nodes ⊆ log) (hvalue : p.value.toList.flatMap Value.nodes ⊆ log) :
    p.BelowIn log := by
  intro child hchild
  rcases List.mem_cons.mp hchild with rfl | hchild
  · rwa [Key.preorder_node]
  · obtain ⟨value, hvalue', rfl⟩ : ∃ value, p.value = some value ∧ Node.value value = child := by
      simpa using hchild
    rwa [hvalue', Option.toList_some, List.flatMap_singleton] at hvalue

/-- The step over one property: what was completed before stays in order, and the last property
waits for nothing below it. -/
theorem propertyReports_childrenFirst {properties : List (Property Value)}
    (h : ∀ p ∈ properties, ∀ v, p.value = some v → ChildrenFirst v.reports)
    {log : List Node} (before : Option (Property Value)) (hlog : ChildrenFirst log)
    (hbefore : ∀ p, before = some p → p.BelowIn log) :
    ChildrenFirst (log ++ propertyReports before properties) ∧
      ∀ p, properties.getLast?.or before = some p →
        p.BelowIn (log ++ propertyReports before properties) := by
  induction properties generalizing log before with
  | nil => simpa [propertyReports] using ⟨hlog, hbefore⟩
  | cons p properties ih =>
    have hkeyed : ChildrenFirst (log ++ p.key.reports ++ propertyNode before) := by
      have hkey := hlog.append p.key.reports_childrenFirst
      cases before with
      | none => simpa [propertyNode] using hkey
      | some q =>
        refine hkey.concat fun child hchild => ?_
        exact List.Subset.trans (hbefore q rfl child hchild) (List.subset_append_left _ _)
    have hvalue : ChildrenFirst p.valueReports :=
      .flatMap fun v hv => h p List.mem_cons_self v (by simpa using hv)
    have hbelow : p.BelowIn (log ++ p.key.reports ++ propertyNode before ++ p.valueReports) := by
      refine Property.belowIn_of_parts ?_ ?_
      · intro node hnode
        simp [p.key.reports_perm.mem_iff.mpr hnode]
      · intro node hnode
        have hperm := Property.valueReports_perm fun v (_ : p.value = some v) => v.reports_perm
        simp [hperm.mem_iff.mpr hnode]
    obtain ⟨hfirst, hlast⟩ := ih (fun other hother => h other (List.mem_cons_of_mem _ hother)) _
      (hkeyed.append hvalue) (fun q hq => Option.some.inj hq ▸ hbelow)
    rw [propertyReports_cons, getLast?_cons_or]
    simp only [List.append_assoc] at hfirst hlast ⊢
    exact ⟨hfirst, hlast⟩

/-- No node is completed before what is below it. -/
theorem Value.reports_childrenFirst (value : Value) : ChildrenFirst value.reports := by
  induction value using Value.induction with
  | scalar | expression =>
    rw [reports]
    exact .leaf rfl
  | text t =>
    rw [reports]
    exact t.reports_childrenFirst
  | array span slots ih =>
    rw [reports, slotReports_eq]
    refine ChildrenFirst.concat (.flatMap ?_) ?_
    · intro value hvalue
      obtain ⟨slot, hslot, hvalue⟩ := List.mem_filterMap.mp hvalue
      exact ih slot hslot value hvalue
    · intro child hchild node hnode
      obtain ⟨slot, hslot, hchild⟩ := List.mem_filterMap.mp hchild
      obtain ⟨value, hvalue, rfl⟩ := Option.map_eq_some_iff.mp hchild
      exact List.mem_flatMap.mpr ⟨value, List.mem_filterMap.mpr ⟨slot, hslot, hvalue⟩,
        value.reports_perm.mem_iff.mpr hnode⟩
  | object span properties ih =>
    obtain ⟨hfirst, hlast⟩ := propertyReports_childrenFirst ih none
      (.of_leaves fun node hnode => absurd hnode List.not_mem_nil) (by simp)
    rw [List.nil_append, Option.or_none] at hlast
    rw [List.nil_append] at hfirst
    rw [reports]
    refine ChildrenFirst.concat ?_ ?_
    · cases hp : properties.getLast? with
      | none => simpa [propertyNode] using hfirst
      | some p => exact hfirst.concat (hlast p hp)
    · intro child hchild node hnode
      obtain ⟨p, hp, rfl⟩ := List.mem_map.mp hchild
      have hperm := propertyReports_perm (fun p (_ : p ∈ properties) v _ => v.reports_perm) none
      rw [Option.or_none] at hperm
      exact hperm.mem_iff.mpr (List.mem_flatMap.mpr ⟨p, hp, hnode⟩)

end DataTemplate
