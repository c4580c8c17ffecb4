/-
The nodes of a tree in document order: a node comes before its children, and one child with all that
is below it before the next.  Main statements: `Node.preorder_eq`, which gives the order by
`Node.children` alone, and `Node.mem_preorder_iff`.
-/
import DataTemplate.Document.Node

namespace DataTemplate

/-- The nodes of a string. -/
def Text.nodes (t : Text) : List Node := .value (.text t) :: t.parts.map TextPart.node

/-- The nodes of a key. -/
def Key.nodes : Key → List Node
  | text t => t.nodes
  | expression e => [.value (.expression e)]
  | identifier i => [.identifier i]

mutual

/-- The nodes of a value in document order. -/
def Value.nodes : Value → List Node
  | .scalar s => [.value (.scalar s)]
  | .expression e => [.value (.expression e)]
  | .text t => t.nodes
  | .array span slots => .value (.array span slots) :: slotNodes slots
  | .object span properties => .value (.object span properties) :: propertyNodes properties

/-- The nodes of some slots in document order. -/
def slotNodes : List (Slot Value) → List Node
  | [] => []
  | ⟨some value, _, _⟩ :: slots => value.nodes ++ slotNodes slots
  | ⟨none, _, _⟩ :: slots => slotNodes slots

/-- The nodes of some properties in document order. -/
def propertyNodes : List (Property Value) → List Node
  | [] => []
  | ⟨key, colon, some value, comma⟩ :: properties =>
    .property ⟨key, colon, some value, comma⟩ ::
      (key.nodes ++ value.nodes ++ propertyNodes properties)
  | ⟨key, colon, none, comma⟩ :: properties =>
    .property ⟨key, colon, none, comma⟩ :: (key.nodes ++ propertyNodes properties)

end

/-- The nodes of a property in document order. -/
def Property.nodes (p : Property Value) : List Node :=
  .property p :: (p.key.nodes ++ p.value.toList.flatMap Value.nodes)

/-- A node and all nodes below it, in document order. -/
def Node.preorder : Node → List Node
  | .comment span => [.comment span]
  | .identifier i => [.identifier i]
  | .segment s => [.segment s]
  | .property p => p.nodes
  | .value v => v.nodes

/-- The values that stand in some slots. -/
def slotValues (slots : List (Slot Value)) : List Value := slots.filterMap (·.value)

theorem slotNodes_eq (slots : List (Slot Value)) :
    slotNodes slots = (slotValues slots).flatMap Value.nodes := by
  induction slots with
  | nil => simp [slotNodes, slotValues]
  | cons slot slots ih =>
    obtain ⟨value, start, comma⟩ := slot
    cases value with
    | none => simpa [slotNodes, slotValues] using ih
    | some value => simpa [slotNodes, slotValues] using ih

theorem propertyNodes_eq (properties : List (Property Value)) :
    propertyNodes properties = properties.flatMap Property.nodes := by
  induction properties with
  | nil => simp [propertyNodes]
  | cons property properties ih =>
    obtain ⟨key, colon, value, comma⟩ := property
    cases value with
    | none => simp [propertyNodes, Property.nodes, ih]
    | some value => simp [propertyNodes, Property.nodes, ih]

theorem TextPart.preorder_node (part : TextPart) : part.node.preorder = [part.node] := by
  cases part with
  | segment => rfl
  | expression => simp [node, Node.preorder, Value.nodes]

theorem Key.preorder_node (key : Key) : key.node.preorder = key.nodes := by
  cases key with
  | text => simp [node, Node.preorder, Value.nodes, nodes]
  | expression => simp [node, Node.preorder, Value.nodes, nodes]
  | identifier => rfl

/-- The children of a node and what is below them follow it, one child after the other. -/
theorem Node.preorder_eq (node : Node) :
    node.preorder = node :: node.children.flatMap preorder := by
  cases node with
  | comment => rfl
  | identifier => rfl
  | segment => rfl
  | property p =>
    have hvalue : (p.value.map Node.value).toList.flatMap preorder =
        p.value.toList.flatMap Value.nodes := by
      cases p.value <;> simp [preorder]
    rw [children, List.flatMap_cons, Key.preorder_node, hvalue]
    rfl
  | value v =>
    cases v with
    | scalar => simp [preorder, Value.nodes, children]
    | expression => simp [preorder, Value.nodes, children]
    | text t =>
      have hparts (parts : List TextPart) :
          (parts.map TextPart.node).flatMap preorder = parts.map TextPart.node := by
        induction parts with
        | nil => rfl
        | cons part parts ih => simp [TextPart.preorder_node, ih]
      simp [preorder, Value.nodes, children, Text.nodes, hparts]
    | array span slots =>
      have hchildren : slots.filterMap (fun slot => slot.value.map Node.value) =
          (slotValues slots).map Node.value := by
        simp [slotValues, List.map_filterMap]
      simp only [preorder, Value.nodes, children, slotNodes_eq, hchildren, List.flatMap_map]
    | object span properties =>
      simp only [preorder, Value.nodes, children, propertyNodes_eq, List.flatMap_map]

/-- Induction over a tree: what holds of an array or object may rest on the values in it. -/
@[elab_as_elim] theorem Value.induction {motive : Value → Prop}
    (scalar : ∀ s, motive (.scalar s)) (expression : ∀ e, motive (.expression e))
    (text : ∀ t, motive (.text t))
    (array : ∀ span slots, (∀ slot ∈ slots, ∀ v, slot.value = some v → motive v) →
      motive (.array span slots))
    (object : ∀ span properties, (∀ p ∈ properties, ∀ v, p.value = some v → motive v) →
      motive (.object span properties)) (value : Value) : motive value :=
  match value with
  | .scalar s => scalar s
  | .expression e => expression e
  | .text t => text t
  | .array span slots => array span slots fun slot hslot v hv => by
    have hless := List.sizeOf_lt_of_mem hslot
    exact Value.induction scalar expression text array object v
  | .object span properties => object span properties fun p hp v hv => by
    have hless := List.sizeOf_lt_of_mem hp
    exact Value.induction scalar expression text array object v
termination_by sizeOf value
decreasing_by
  · obtain ⟨value, start, comma⟩ := slot
    obtain rfl : value = some v := hv
    simp at hless ⊢
    omega
  · obtain ⟨key, colon, value, comma⟩ := p
    obtain rfl : value = some v := hv
    simp at hless ⊢
    omega

/-- The nodes of the preorder are the node itself and those below its children. -/
theorem Node.mem_preorder_iff {node below : Node} :
    below ∈ node.preorder ↔ below = node ∨ ∃ child ∈ node.children, below ∈ child.preorder := by
  rw [preorder_eq, List.mem_cons, List.mem_flatMap]

theorem Node.preorder_length_lt {node child : Node} (h : child ∈ node.children) :
    child.preorder.length < node.preorder.length := by
  have hpart : child.preorder.Sublist (node.children.flatMap preorder) :=
    List.sublist_flatten_of_mem (List.mem_map_of_mem h)
  rw [node.preorder_eq, List.length_cons]
  exact Nat.lt_succ_of_le hpart.length_le

/-- Induction over a tree by its nodes: what holds of a node may rest on its children. -/
@[elab_as_elim] theorem Node.induction {motive : Node → Prop}
    (node : ∀ node, (∀ child ∈ node.children, motive child) → motive node) (root : Node) :
    motive root :=
  node root fun child _ => Node.induction node child
termination_by root.preorder.length
decreasing_by exact Node.preorder_length_lt ‹_›

/-- `below` is reached from `node` by going from nodes to their children. -/
inductive Node.Reaches : Node → Node → Prop
  | refl (node : Node) : Reaches node node
  | child {node child below : Node} (hchild : child ∈ node.children) (h : Reaches child below) :
      Reaches node below

theorem Node.Reaches.mem_preorder {node below : Node} (h : node.Reaches below) :
    below ∈ node.preorder := by
  induction h with
  | refl => exact mem_preorder_iff.mpr (.inl rfl)
  | child hchild _ ih => exact mem_preorder_iff.mpr (.inr ⟨_, hchild, ih⟩)

/-! ### Expressions -/

/-- The expression that a node is. -/
def Node.expression? : Node → Option Expression
  | value (.expression e) => some e
  | _ => none

/-- The expressions of a list of nodes. -/
def expressionsOf (nodes : List Node) : List Expression := nodes.filterMap Node.expression?

/-- The expressions of a value in document order. -/
def Value.expressions (v : Value) : List Expression := expressionsOf (Node.value v).preorder

/-- The expressions of a key in document order. -/
def Key.expressions (key : Key) : List Expression := expressionsOf key.nodes

/-- The expressions of a property in document order. -/
def Property.expressions (p : Property Value) : List Expression :=
  p.key.expressions ++ p.value.toList.flatMap Value.expressions

theorem expressionsOf_cons {node : Node} (h : node.expression? = none) (nodes : List Node) :
    expressionsOf (node :: nodes) = expressionsOf nodes := List.filterMap_cons_none h

theorem expressionsOf_append (xs ys : List Node) :
    expressionsOf (xs ++ ys) = expressionsOf xs ++ expressionsOf ys := List.filterMap_append

theorem expressionsOf_flatMap {α : Type} (f : α → List Node) (xs : List α) :
    expressionsOf (xs.flatMap f) = xs.flatMap fun x => expressionsOf (f x) := List.filterMap_flatMap

theorem Text.expressionsOf_nodes (t : Text) : expressionsOf t.nodes = t.more.map Prod.fst := by
  have hmore (more : List (Expression × Segment)) :
      expressionsOf ((more.flatMap fun part => [.expression part.1, .segment part.2]).map
        TextPart.node) = more.map Prod.fst := by
    induction more with
    | nil => rfl
    | cons part more ih =>
      rw [List.flatMap_cons, List.map_append, expressionsOf_append, ih]
      rfl
  rw [nodes, parts, List.map_cons, expressionsOf_cons rfl, expressionsOf_cons rfl]
  exact hmore t.more

theorem Key.expressions_text (t : Text) : (Key.text t).expressions = t.more.map Prod.fst :=
  t.expressionsOf_nodes

theorem Property.expressionsOf_nodes (p : Property Value) :
    expressionsOf p.nodes = p.expressions := by
  rw [nodes, expressionsOf_cons rfl, expressionsOf_append, expressionsOf_flatMap]
  rfl

namespace Value

theorem expressions_text (t : Text) : (text t).expressions = t.more.map Prod.fst := by
  rw [expressions, Node.preorder, nodes, Text.expressionsOf_nodes]

theorem expressions_expression (e : Expression) : (expression e).expressions = [e] := by
  rw [expressions, Node.preorder, nodes]
  rfl

theorem expressions_scalar (s : Scalar) : (scalar s).expressions = [] := by
  rw [expressions, Node.preorder, nodes]
  rfl

theorem expressions_array (span : Span) (slots : List (Slot Value)) :
    (array span slots).expressions = (slotValues slots).flatMap expressions := by
  rw [expressions, Node.preorder, nodes, slotNodes_eq, expressionsOf_cons rfl,
    expressionsOf_flatMap]
  rfl

theorem expressions_object (span : Span) (properties : List (Property Value)) :
    (object span properties).expressions = properties.flatMap Property.expressions := by
  rw [expressions, Node.preorder, nodes, propertyNodes_eq, expressionsOf_cons rfl,
    expressionsOf_flatMap]
  simp only [Property.expressionsOf_nodes]

end Value

end DataTemplate
