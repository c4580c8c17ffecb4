/-
The tree of a document with every field spelled out.  What a `Value` leaves to be computed from the
other parts of a node is a field of its own here: whether a string holds an expression, where an item
of an array stands and whether a comma follows it, where a property ends.  An array holds its items
and their places in two lists.
-/
import DataTemplate.Document.Node

namespace DataTemplate

namespace Explicit

/-- A string: its parts in order, and whether an expression is among them. -/
structure Text where
  span : Span
  quote : Option Quote
  segments : List TextPart
  isDynamic : Bool
deriving DecidableEq, Repr

/-- The key of a property. -/
inductive Key where
  | text (text : Text)
  | expression (expression : Expression)
  | identifier (identifier : Identifier)
deriving DecidableEq, Repr

/-- Where a key stands. -/
def Key.span : Key → Span
  | text t => t.span
  | expression e => e.span
  | identifier i => i.span

/-- Where an item of an array and the comma after it stand. -/
structure ItemLocation where
  hasValue : Bool
  valueStart : Nat
  valueEnd : Nat
  hasTrailingComma : Bool
  trailingCommaStart : Option Nat
deriving DecidableEq, Repr

/-- Where an item stands that is not there yet. -/
def ItemLocation.empty (position : Nat) : ItemLocation := ⟨false, position, position, false, none⟩

/-- A property of an object. -/
structure Property (α : Type) where
  span : Span
  key : Key
  value : Option α
  hasColon : Bool
  colonStart : Option Nat
  hasTrailingComma : Bool
  trailingCommaStart : Option Nat
deriving DecidableEq, Repr

/-- A value of a document. -/
inductive Value where
  | scalar (scalar : Scalar)
  | expression (expression : Expression)
  | text (text : Text)
  | array (span : Span) (items : List (Option Value)) (locations : List ItemLocation)
  | object (span : Span) (properties : List (Property Value))

/-- Where a value stands. -/
def Value.span : Value → Span
  | scalar s => s.span
  | expression e => e.span
  | text t => t.span
  | array span _ _ => span
  | object span _ => span

/-- Any node. -/
inductive Node where
  | comment (span : Span)
  | identifier (identifier : Identifier)
  | segment (segment : Segment)
  | property (property : Property Value)
  | value (value : Value)

/-- The kind of a value. -/
def Value.kind : Value → NodeKind
  | scalar s => s.meaning.kind
  | expression _ => .expression
  | text _ => .string
  | array _ _ _ => .array
  | object _ _ => .object

/-- The kind of a node. -/
def Node.kind : Node → NodeKind
  | comment _ => .comment
  | identifier _ => .identifier
  | segment _ => .stringSegment
  | property _ => .property
  | value v => v.kind

/-- Where a node stands. -/
def Node.span : Node → Span
  | comment span => span
  | identifier i => i.span
  | segment s => s.span
  | property p => p.span
  | value v => v.span

/-- A part of a string as a node. -/
def partNode : TextPart → Node
  | .segment s => .segment s
  | .expression e => .value (.expression e)

/-- A key as a node. -/
def Key.node : Key → Node
  | text t => .value (.text t)
  | expression e => .value (.expression e)
  | identifier i => .identifier i

/-- The children of a node in source order; items that are not there are left out. -/
def Node.children : Node → List Node
  | value (.text t) => t.segments.map partNode
  | value (.array _ items _) => items.filterMap fun item => item.map value
  | value (.object _ properties) => properties.map property
  | property p => p.key.node :: (p.value.map value).toList
  | _ => []

end Explicit

/-! ### Spelling out a tree -/

/-- A string with its fields spelled out. -/
def Text.explicit (t : Text) : Explicit.Text := ⟨t.span, t.quote, t.parts, t.isDynamic⟩

/-- A key with its fields spelled out. -/
def Key.explicit : Key → Explicit.Key
  | text t => .text t.explicit
  | expression e => .expression e
  | identifier i => .identifier i

/-- Where a slot and its comma stand. -/
def Slot.location (slot : Slot Value) : Explicit.ItemLocation where
  hasValue := slot.value.isSome
  valueStart := slot.valueSpan.start
  valueEnd := slot.valueSpan.stop
  hasTrailingComma := slot.comma.isSome
  trailingCommaStart := slot.comma

/-- A property with its fields spelled out, given its value in that form. -/
def Property.explicitWith (property : Property Value) (value : Option Explicit.Value) :
    Explicit.Property Explicit.Value where
  span := property.span
  key := property.key.explicit
  value := value
  hasColon := property.colon.isSome
  colonStart := property.colon
  hasTrailingComma := property.comma.isSome
  trailingCommaStart := property.comma

mutual

/-- A value with its fields spelled out. -/
def Value.explicit : Value → Explicit.Value
  | .scalar s => .scalar s
  | .expression e => .expression e
  | .text t => .text t.explicit
  | .array span slots => .array span (explicitItems slots) (slots.map Slot.location)
  | .object span properties => .object span (explicitProperties properties)

/-- The items of some slots. -/
def explicitItems : List (Slot Value) → List (Option Explicit.Value)
  | [] => []
  | ⟨some value, _, _⟩ :: slots => some value.explicit :: explicitItems slots
  | ⟨none, _, _⟩ :: slots => none :: explicitItems slots

/-- Some properties with their fields spelled out. -/
def explicitProperties : List (Property Value) → List (Explicit.Property Explicit.Value)
  | [] => []
  | ⟨key, colon, some value, comma⟩ :: properties =>
    Property.explicitWith ⟨key, colon, some value, comma⟩ (some value.explicit) ::
      explicitProperties properties
  | ⟨key, colon, none, comma⟩ :: properties =>
    Property.explicitWith ⟨key, colon, none, comma⟩ none :: explicitProperties properties

end

/-- The item of a slot. -/
def Slot.item (slot : Slot Value) : Option Explicit.Value := slot.value.map Value.explicit

/-- A property with its fields spelled out. -/
def Property.explicit (property : Property Value) : Explicit.Property Explicit.Value :=
  property.explicitWith (property.value.map Value.explicit)

/-- A node with its fields spelled out. -/
def Node.explicit : Node → Explicit.Node
  | comment span => .comment span
  | identifier i => .identifier i
  | segment s => .segment s
  | property p => .property p.explicit
  | value v => .value v.explicit

theorem explicitItems_eq (slots : List (Slot Value)) : explicitItems slots = slots.map Slot.item := by
  induction slots with
  | nil => rfl
  | cons slot slots ih =>
    obtain ⟨value, start, comma⟩ := slot
    cases value <;> simp [explicitItems, Slot.item, ih]

theorem explicitProperties_eq (properties : List (Property Value)) :
    explicitProperties properties = properties.map Property.explicit := by
  induction properties with
  | nil => rfl
  | cons property properties ih =>
    obtain ⟨key, colon, value, comma⟩ := property
    cases value <;> simp [explicitProperties, Property.explicit, ih]

@[simp] theorem Key.span_explicit (key : Key) : key.explicit.span = key.span := by
  cases key <;> rfl

@[simp] theorem Value.span_explicit (value : Value) : value.explicit.span = value.span := by
  cases value <;> simp only [explicit] <;> rfl

theorem Value.explicit_array (span : Span) (slots : List (Slot Value)) :
    (Value.array span slots).explicit = .array span (slots.map Slot.item) (slots.map Slot.location) := by
  rw [explicit, explicitItems_eq]

theorem Value.explicit_object (span : Span) (properties : List (Property Value)) :
    (Value.object span properties).explicit = .object span (properties.map Property.explicit) := by
  rw [explicit, explicitProperties_eq]

end DataTemplate
