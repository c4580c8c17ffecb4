/-
JavaScript code of a document's value.  Arrays and objects put each entry on a line of its own, a
gap of an array becomes a comment, a missing value `undefined`, and a string with expressions a
concatenation.  Main function: `Value.render`.
-/
import DataTemplate.Document.Value
import DataTemplate.Rendering.Layout
import DataTemplate.Text.Quoted

namespace DataTemplate

/-- The code of an expression. -/
def Expression.code (e : Expression) : String := "(" ++ e.text ++ ")"

/-- The code of an expression inside a string. -/
def Expression.codeInText (e : Expression) (stringFunction : String) : String :=
  stringFunction ++ "(" ++ e.code ++ ")"

/-- The operands that a segment adds to a concatenation: none if it is empty. -/
def Segment.operands (segment : Segment) : List String :=
  if segment.raw.isEmpty then [] else [quoteText (unescape segment.raw.toList)]

/-- The operands that a part of a string adds to a concatenation. -/
def TextPart.operands (stringFunction : String) : TextPart → List String
  | segment s => s.operands
  | expression e => [e.codeInText stringFunction]

/-- The code of a string. -/
def Text.code (t : Text) (stringFunction : String) : String :=
  match t.parts.flatMap (TextPart.operands stringFunction) with
  | [] => quoteText []
  | operands => String.intercalate " + " operands

/-- The code of a key; one that is computed stands in brackets. -/
def Key.code (key : Key) (stringFunction : String) : String :=
  match key with
  | identifier i => i.raw
  | expression e => "[" ++ e.code ++ "]"
  | text t =>
    if t.isDynamic then "[" ++ t.code stringFunction ++ "]" else t.code stringFunction

mutual

/-- The code of a value that begins on a line of the given depth. -/
def Value.pieces (stringFunction : String) (depth : Nat) : Value → List Piece
  | .scalar s => [.text s.raw]
  | .expression e => [.text e.code]
  | .text t => [.text (t.code stringFunction)]
  | .array _ slots =>
    if slots.isEmpty then [.text "[]"]
    else .text "[" :: slotPieces stringFunction depth slots
  | .object _ properties =>
    if properties.isEmpty then [.text "\x7b\x7d"]
    else .text "\x7b" :: propertyPieces stringFunction depth properties

/-- The code of the slots that are left of an array, and its closing bracket. -/
def slotPieces (stringFunction : String) (depth : Nat) : List (Slot Value) → List Piece
  | [] => [.line depth, .text "]"]
  | ⟨some value, _, _⟩ :: slots =>
    .line (depth + 1) ::
      (value.pieces stringFunction (depth + 1) ++
        .text "," :: slotPieces stringFunction depth slots)
  | ⟨none, _, _⟩ :: slots =>
    .line (depth + 1) :: .text "/* empty */" :: .text "," ::
      slotPieces stringFunction depth slots

/-- The code of the properties that are left of an object, and its closing brace. -/
def propertyPieces (stringFunction : String) (depth : Nat) : List (Property Value) → List Piece
  | [] => [.line depth, .text "\x7d"]
  | ⟨key, _, some value, _⟩ :: properties =>
    .line (depth + 1) :: .text (key.code stringFunction ++ ": ") ::
      (value.pieces stringFunction (depth + 1) ++
        .text "," :: propertyPieces stringFunction depth properties)
  | ⟨key, _, none, _⟩ :: properties =>
    .line (depth + 1) :: .text (key.code stringFunction ++ ": ") :: .text "undefined" ::
      .text "," :: propertyPieces stringFunction depth properties

end

/-- The code of a value. -/
def Value.render (options : RenderOptions) (value : Value) : String :=
  options.layout.writeAll (value.pieces options.stringFunction 0)

end DataTemplate
