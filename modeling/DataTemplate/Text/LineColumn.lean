/-
Lines and columns, both counted from one.  Lines end at line feeds only, and columns count
characters.
-/
import DataTemplate.Text.Utf8

namespace DataTemplate

/-- A place in a text as an editor shows it. -/
structure LineColumn where
  line : Nat
  column : Nat
deriving DecidableEq, Repr

/-- The place right after a text that starts at the first line. -/
def LineColumn.after (text : List Char) : LineColumn :=
  ⟨text.count '\n' + 1, (text.reverse.takeWhile (· != '\n')).length + 1⟩

/-- The text in front of a byte position; all of it if the position is past the end or inside a
character. -/
def textBefore (source : List Char) (position : Nat) : List Char :=
  let before := (cutBytes position source).1
  if byteLength before = position then before else source

/-- The place of a byte position. -/
def LineColumn.at (source : List Char) (position : Nat) : LineColumn :=
  .after (textBefore source position)

theorem textBefore_byteLength (xs ys : List Char) :
    textBefore (xs ++ ys) (byteLength xs) = xs := by
  simp [textBefore, cutBytes_byteLength]

example : LineColumn.at ['a', '\n', 'é', 'b'] 4 = ⟨2, 2⟩ := by decide
example : LineColumn.at ['a', '\n', 'é', 'b'] 3 = ⟨2, 3⟩ := by decide

end DataTemplate
