/-
One view on every kind of node, for walks over a tree and for hosts that watch a document being
read.
-/
import DataTemplate.Document.Value

namespace DataTemplate

/-- The kinds of node. -/
inductive NodeKind where
  | comment
  | identifier
  | number
  | boolean
  | nullish
  | expression
  | string
  | stringSegment
  | array
  | object
  | property
deriving DecidableEq, Repr

/-- The name of a kind. -/
def NodeKind.name : NodeKind → String
  | comment => "comment"
  | identifier => "identifier"
  | number => "number"
  | boolean => "boolean"
  | nullish => "nullish"
  | expression => "expression"
  | string => "string"
  | stringSegment => "string-segment"
  | array => "array"
  | object => "object"
  | property => "object-property"

/-- Any node. -/
inductive Node where
  | comment (span : Span)
  | identifier (identifier : Identifier)
  | segment (segment : Segment)
  | property (property : Property Value)
  | value (value : Value)

/-- The kind of a keyword or a number literal. -/
def Meaning.kind : Meaning → NodeKind
  | number _ => .number
  | boolean _ => .boolean
  | nullish => .nullish

/-- The kind of a value. -/
def Value.kind : Value → NodeKind
  | scalar s => s.meaning.kind
  | expression _ => .expression
  | text _ => .string
  | array _ _ => .array
  | object _ _ => .object

/-- A part of a string as a node. -/
def TextPart.node : TextPart → Node
  | segment s => .segment s
  | expression e => .value (.expression e)

/-- A key as a node. -/
def Key.node : Key → Node
  | text t => .value (.text t)
  | expression e => .value (.expression e)
  | identifier i => .identifier i

namespace Node

/-- The kind of a node. -/
def kind : Node → NodeKind
  | comment _ => .comment
  | identifier _ => .identifier
  | segment _ => .stringSegment
  | property _ => .property
  | value v => v.kind

/-- Where a node stands. -/
def span : Node → Span
  | comment span => span
  | identifier i => i.span
  | segment s => s.span
  | property p => p.span
  | value v => v.span

/-- The children of a node in source order; gaps of an array are left out. -/
def children : Node → List Node
  | value (.text t) => t.parts.map TextPart.node
  | value (.array _ slots) => slots.filterMap fun slot => slot.value.map value
  | value (.object _ properties) => properties.map property
  | property p => p.key.node :: (p.value.map value).toList
  | _ => []

end Node

end DataTemplate
