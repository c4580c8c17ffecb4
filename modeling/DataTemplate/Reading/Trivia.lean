/-
White space and comments between tokens.  A line comment takes its line break along; a block comment
runs to its closing mark; either runs to the end of the text if that is missing.
-/
import DataTemplate.Reading.Session
import DataTemplate.Text.Cursor

namespace DataTemplate

variable {σ : Type}

/-- What ends the comment that a text starts with. -/
def commentEnds? : List Char → Option (List (List Char))
  | '/' :: '/' :: _ => some [['\n'], ['\r']]
  | '/' :: '*' :: _ => some [['*', '/']]
  | _ => none

theorem ne_nil_of_commentEnds? {text : List Char} {ends : List (List Char)}
    (h : commentEnds? text = some ends) : text ≠ [] := by
  rintro rfl
  simp [commentEnds?] at h

namespace Cursor

/-- The place after the comment here. -/
def comment? (c : Cursor) : Option c.After :=
  match h : commentEnds? c.rest with
  | none => none
  | some ends =>
    have hlt := lt_advance (ne_nil_of_commentEnds? h) (by decide : 0 < 2)
    match (c.advance 2).find ends none with
    | some hit => some ⟨hit.stop, lt_trans hlt hit.lt_stop⟩
    | none => some ⟨(c.advance 2).toEnd, lt_of_lt_of_le hlt (le_toEnd _)⟩

end Cursor

/-- Report the comment between two places. -/
def Session.observeComment (s : Session σ) (c d : Cursor) : Session σ :=
  s.observe (.comment ⟨c.position, d.position⟩)

/-- The place after all white space and comments. -/
def skipTrivia (c : Cursor) (s : Session σ) : c.From × Session σ :=
  match c.skipBlanks.comment? with
  | none => (⟨c.skipBlanks, c.le_skipBlanks⟩, s)
  | some d =>
    have hlt := Cursor.lt_of_le_of_lt c.le_skipBlanks d.2
    let (e, s) := skipTrivia d.1 (s.observeComment c.skipBlanks d)
    (⟨e.1, Cursor.le_trans (Cursor.le_of_lt hlt) e.2⟩, s)
termination_by c.rest.length
decreasing_by exact Cursor.length_lt_of_lt hlt

end DataTemplate
