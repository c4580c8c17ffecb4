/-
Layout of generated code.  Code is made as text and line breaks that know their nesting depth, and a
layout decides how each line break is written.
-/

namespace DataTemplate

/-- A bit of generated code: text, or a line break with the depth of the line after it. -/
inductive Piece where
  | text (text : String)
  | line (depth : Nat)
deriving DecidableEq, Repr

/-- How lines are set: the text of a line break, and of one level of indentation. -/
structure Layout where
  lineBreak : String
  indentUnit : String
deriving DecidableEq, Repr

/-- A text repeated. -/
def repeatText (text : String) : Nat → String
  | 0 => ""
  | n + 1 => text ++ repeatText text n

namespace Layout

/-- A piece as text. -/
def write (layout : Layout) : Piece → String
  | .text text => text
  | .line depth => layout.lineBreak ++ repeatText layout.indentUnit depth

/-- Pieces as text. -/
def writeAll (layout : Layout) (pieces : List Piece) : String :=
  String.join (pieces.map layout.write)

end Layout

/-- How code is rendered: the function that turns an expression in a string into text, and the
layout, which `compact` chooses where `indent` and `lineBreak` do not. -/
structure RenderOptions where
  stringFunction : String := "toString"
  compact : Bool := false
  indent : Option String := none
  lineBreak : Option String := none
deriving DecidableEq, Repr

namespace RenderOptions

/-- The options that put everything on one line. -/
def onOneLine : RenderOptions := { compact := true }

/-- One level of indentation. -/
def indentUnit (options : RenderOptions) : String :=
  options.indent.getD (if options.compact then "" else "  ")

/-- What separates the lines of an array or object. -/
def lineBreakText (options : RenderOptions) : String :=
  options.lineBreak.getD (if options.compact then " " else "\n")

/-- The layout that the options ask for. -/
def layout (options : RenderOptions) : Layout := ⟨options.lineBreakText, options.indentUnit⟩

end RenderOptions

end DataTemplate
