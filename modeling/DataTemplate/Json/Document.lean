/-
Documents as JSON, field by field as their trees are spelled out.  Every node gives its span and its
length, and the values of numbers are written as the caller asks.
-/
import DataTemplate.Json.Tree
import DataTemplate.Reading.Explicit

namespace DataTemplate

/-- How the value of a number is written. -/
abbrev NumberStyle := Binary64 → Json

/-- The members that give a span. -/
def Span.members (span : Span) : List (String × Json) := [
  ("start", .ofNat span.start), ("end", .ofNat span.stop),
  ("consumedLength", .ofNat span.length)]

/-- The member that gives the type of a node. -/
def typeMember (kind : NodeKind) : String × Json := ("type", .string kind.name)

/-- The name of a value type. -/
def ValueType.name : ValueType → String
  | unknown => "unknown"
  | array => "array"
  | number => "number"
  | string => "string"
  | boolean => "boolean"
  | object => "object"

/-- The members of an expression. -/
def Expression.members (e : Expression) : List (String × Json) :=
  e.span.members ++ [
    ("expression", .string e.text),
    ("rawExpression", .string e.raw),
    ("expressionSpan", .object e.bodySpan.members),
    ("leftBracket", .string e.opening),
    ("rightBracket", .string e.closing),
    ("valueType", .string e.valueType.name)]

/-- An expression among other kinds of node. -/
def Expression.toJson (e : Expression) : Json := .object (typeMember .expression :: e.members)

/-- A segment among other kinds of node. -/
def Segment.toJson (s : Segment) : Json :=
  .object (typeMember .stringSegment :: (s.span.members ++ [("raw", .string s.raw)]))

/-- A part of a string. -/
def TextPart.toJson : TextPart → Json
  | segment s => s.toJson
  | expression e => e.toJson

/-- A keyword or a number. -/
def Scalar.toJson (style : NumberStyle) (s : Scalar) : Json :=
  let value : List (String × Json) :=
    match s.meaning with
    | .number v => [("value", style v)]
    | .boolean b => [("value", .boolean b)]
    | .nullish => []
  .object (typeMember s.meaning.kind :: (s.span.members ++ ("raw", .string s.raw) :: value))

/-- An identifier. -/
def Identifier.toJson (i : Identifier) : Json :=
  .object (typeMember .identifier :: (i.span.members ++ [("raw", .string i.raw)]))

/-- Whether and where a punctuation mark was met. -/
def markMembers (has start : String) (met : Bool) (position : Option Nat) :
    List (String × Json) := [
  (has, .boolean met), (start, .ofOption .ofNat position)]

namespace Explicit

/-- A string. -/
def Text.toJson (t : Text) : Json :=
  .object (typeMember .string :: (t.span.members ++ [
    ("quote", .ofOption (fun q => .string (String.singleton q.char)) t.quote),
    ("segments", .array (t.segments.map TextPart.toJson)),
    ("isDynamic", .boolean t.isDynamic)]))

/-- A key. -/
def Key.toJson : Key → Json
  | text t => t.toJson
  | expression e => e.toJson
  | identifier i => i.toJson

/-- Where an item and its comma stand. -/
def ItemLocation.toJson (location : ItemLocation) : Json :=
  .object ([
    ("hasValue", .boolean location.hasValue),
    ("valueStart", .ofNat location.valueStart),
    ("valueEnd", .ofNat location.valueEnd)] ++
    markMembers "hasTrailingComma" "trailingCommaStart" location.hasTrailingComma
      location.trailingCommaStart)

/-- The members of a property, given that of its value. -/
def Property.membersWith (property : Property Value) (value : Json) : List (String × Json) :=
  property.span.members ++ [("key", property.key.toJson), ("value", value)] ++
    markMembers "hasColon" "colonStart" property.hasColon property.colonStart ++
    markMembers "hasTrailingComma" "trailingCommaStart" property.hasTrailingComma
      property.trailingCommaStart

mutual

/-- A value. -/
def Value.toJson (style : NumberStyle) : Value → Json
  | .scalar s => s.toJson style
  | .expression e => e.toJson
  | .text t => t.toJson
  | .array span items locations =>
    .object (typeMember .array :: (span.members ++ [
      ("items", .array (itemsToJson style items)),
      ("itemsLocation", .array (locations.map ItemLocation.toJson))]))
  | .object span properties =>
    .object (typeMember .object :: (span.members ++ [
      ("properties", .array (propertiesToJson style properties))]))

/-- Some items. -/
def itemsToJson (style : NumberStyle) : List (Option Value) → List Json
  | [] => []
  | some value :: items => value.toJson style :: itemsToJson style items
  | none :: items => .null :: itemsToJson style items

/-- Some properties. -/
def propertiesToJson (style : NumberStyle) : List (Property Value) → List Json
  | [] => []
  | ⟨span, key, some value, hasColon, colonStart, hasTrailingComma, trailingCommaStart⟩ ::
      properties =>
    let property : Property Value :=
      ⟨span, key, some value, hasColon, colonStart, hasTrailingComma, trailingCommaStart⟩
    .object (property.membersWith (value.toJson style)) :: propertiesToJson style properties
  | ⟨span, key, none, hasColon, colonStart, hasTrailingComma, trailingCommaStart⟩ ::
      properties =>
    let property : Property Value :=
      ⟨span, key, none, hasColon, colonStart, hasTrailingComma, trailingCommaStart⟩
    .object (property.membersWith .null) :: propertiesToJson style properties

end

end Explicit

/-- A key that leaves fields to be computed. -/
def Key.toJson (key : Key) : Json := key.explicit.toJson

/-- A value that leaves fields to be computed. -/
def Value.toJson (style : NumberStyle) (value : Value) : Json := value.explicit.toJson style

/-- A problem. -/
def Problem.toJson (problem : Problem) : Json :=
  .object [("message", .string problem.message), ("position", .ofNat problem.position)]

/-- The members of a document. -/
def Explicit.Document.members (style : NumberStyle) (document : Explicit.Document) :
    List (String × Json) := [
  ("ast", .ofOption (Explicit.Value.toJson style) document.root),
  ("expressions", .array (document.expressions.map fun e => .object e.members)),
  ("actualStart", .ofNat document.start),
  ("end", .ofNat document.stop),
  ("error", .ofOption Problem.toJson document.problems.head?),
  ("errors", .array (document.problems.map Problem.toJson)),
  ("looseModeEnabled", .boolean document.readAsString)]

/-- The members of a document whose tree leaves fields to be computed. -/
def Document.members (style : NumberStyle) (document : Document) : List (String × Json) :=
  document.explicit.members style

/-- A document, the values of its numbers as decimals. -/
def Document.toJson (document : Document) : Json := .object (document.members Binary64.toJson)

end DataTemplate
