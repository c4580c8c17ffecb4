/-
The tree of a document.  Leaves keep the text they were written with; whatever follows from other
parts of a node, such as the span of an expression or a property, is computed from them.
-/
import DataTemplate.Document.Span
import DataTemplate.Number.Binary64
import DataTemplate.Text.Quote

namespace DataTemplate

/-- What an expression yields, as far as a host can tell. -/
inductive ValueType where
  | unknown
  | array
  | number
  | string
  | boolean
  | object
deriving DecidableEq, Repr

/-- An embedded expression: its text `raw` between two runs of `braces` braces, the first of which
begins at `start`.  A host may replace `text`, which starts out as `raw`. -/
structure Expression where
  start : Nat
  braces : Nat
  raw : String
  text : String
  valueType : ValueType
deriving DecidableEq, Repr

namespace Expression

/-- Where the text between the braces stands. -/
def bodySpan (e : Expression) : Span :=
  ⟨e.start + e.braces, e.start + e.braces + e.raw.utf8ByteSize⟩

/-- Where the expression stands, braces included. -/
def span (e : Expression) : Span := ⟨e.start, e.bodySpan.stop + e.braces⟩

/-- The opening run of braces. -/
def opening (e : Expression) : String := String.ofList (List.replicate e.braces '{')

/-- The closing run of braces. -/
def closing (e : Expression) : String := String.ofList (List.replicate e.braces '}')

end Expression

/-- A static run of string content, with its escapes. -/
structure Segment where
  span : Span
  raw : String
deriving DecidableEq, Repr

/-- A string: static segments with an expression between each two.  A string that was read without
quotes has none. -/
structure Text where
  span : Span
  quote : Option Quote
  first : Segment
  more : List (Expression × Segment)
deriving DecidableEq, Repr

/-- A part of a string. -/
inductive TextPart where
  | segment (segment : Segment)
  | expression (expression : Expression)
deriving DecidableEq, Repr

/-- Where a part of a string stands. -/
def TextPart.span : TextPart → Span
  | segment s => s.span
  | expression e => e.span

namespace Text

/-- The parts of a string in order. -/
def parts (t : Text) : List TextPart :=
  .segment t.first :: t.more.flatMap fun (e, s) => [.expression e, .segment s]

/-- Whether a string holds an expression. -/
def isDynamic (t : Text) : Bool := !t.more.isEmpty

end Text

/-- What a keyword or a number literal means. -/
inductive Meaning where
  | number (value : Binary64)
  | boolean (value : Bool)
  | nullish
deriving DecidableEq, Repr

/-- A keyword or a number literal. -/
structure Scalar where
  span : Span
  raw : String
  meaning : Meaning
deriving DecidableEq, Repr

/-- A bare identifier. -/
structure Identifier where
  span : Span
  raw : String
deriving DecidableEq, Repr

/-- The key of a property. -/
inductive Key where
  | text (text : Text)
  | expression (expression : Expression)
  | identifier (identifier : Identifier)
deriving DecidableEq, Repr

/-- Where a key stands. -/
def Key.span : Key → Span
  | text t => t.span
  | expression e => e.span
  | identifier i => i.span

/-- A place in an array: a value or a gap, first seen at `start`, and the comma after it. -/
structure Slot (α : Type) where
  value : Option α
  start : Nat
  comma : Option Nat
deriving DecidableEq, Repr

/-- A property of an object: its key and, as far as they were met, the colon, the value and the
comma after it. -/
structure Property (α : Type) where
  key : Key
  colon : Option Nat
  value : Option α
  comma : Option Nat
deriving DecidableEq, Repr

/-- A value of a document. -/
inductive Value where
  | scalar (scalar : Scalar)
  | expression (expression : Expression)
  | text (text : Text)
  | array (span : Span) (slots : List (Slot Value))
  | object (span : Span) (properties : List (Property Value))

/-- Where a value stands. -/
def Value.span : Value → Span
  | scalar s => s.span
  | expression e => e.span
  | text t => t.span
  | array span _ => span
  | object span _ => span

/-- Where the value of a slot stands; a gap is an empty span. -/
def Slot.valueSpan (slot : Slot Value) : Span :=
  match slot.value with
  | some value => value.span
  | none => ⟨slot.start, slot.start⟩

/-- Where a property ends: after the last of its parts that is there. -/
def Property.stop (property : Property Value) : Nat :=
  match property.comma, property.value, property.colon with
  | some comma, _, _ => comma + 1
  | none, some value, _ => value.span.stop
  | none, none, some colon => colon + 1
  | none, none, none => property.key.span.stop

/-- Where a property stands. -/
def Property.span (property : Property Value) : Span :=
  ⟨property.key.span.start, property.stop⟩

end DataTemplate
