/-
Embedded expressions, and strings that hold them.  An expression stands between runs of at least
two braces, as long as each other.  String content ends at its quote, or at the end of the text for
a string without quotes; a brace that opens no expression is content.
-/
import DataTemplate.Reading.Session
import DataTemplate.Text.Quote

namespace DataTemplate

variable {σ : Type}

/-- What a rule of the grammar gives at a place: a node and the place after it, or nothing. -/
abbrev Reading (σ : Type) (α : Type) (c : Cursor) := Option (α × c.After) × Session σ

/-! ### Expressions -/

/-- The expression here.  It opens with all the braces there are, and closes at the first run of as
many closing braces. -/
def Expression.scan (c : Cursor) : Option (Expression × c.After) :=
  if c.startsWith ['{', '{'] then
    let opening := c.runOf (· == '{')
    let body := c.matchWhile (· == '{')
    have hbody : c ≤ body := (c.moves_matchWhile _).le
    match body.find [List.replicate opening.length '}'] none with
    | none => none
    | some hit =>
      let raw := String.ofList hit.before
      some (⟨c.position, opening.length, raw, raw, .unknown⟩,
        ⟨hit.stop, Cursor.lt_of_le_of_lt hbody hit.lt_stop⟩)
  else none

/-- Read the expression here. -/
def readExpression (c : Cursor) (s : Session σ) : Reading σ Expression c :=
  match Expression.scan c with
  | none => (none, s)
  | some (e, d) =>
    let (e, s) := s.finishExpression e
    (some (e, d), s)

/-! ### String content -/

/-- The content of a string: its parts, and whether it ended where it should. -/
structure Content where
  first : Segment
  more : List (Expression × Segment)
  closed : Bool
deriving DecidableEq, Repr

/-- The static text between two places. -/
def segmentBetween (c d : Cursor) : Segment :=
  ⟨⟨c.position, d.position⟩, String.ofList (c.textTo d)⟩

/-- What interrupts the static text of a string. -/
def contentNeedles (quote : Option Quote) : List (List Char) :=
  (quote.map fun quote => [quote.char]).toList ++ [['{']]

/-- Read string content.  The static text began at `segment`, and has been searched up to `c`. -/
def readContent (quote : Option Quote) (segment c : Cursor) (s : Session σ) :
    Content × c.From × Session σ :=
  match c.find (contentNeedles quote) (some '\\') with
  | none =>
    let last := segmentBetween segment c.toEnd
    (⟨last, [], quote.isNone⟩, ⟨c.toEnd, c.le_toEnd⟩, s.observe (.segment last))
  | some hit =>
    if hit.needle == ['{'] then
      match readExpression hit.start s with
      | (none, s) =>
        have hlt := hit.lt_stop
        let (content, d, s) := readContent quote segment hit.stop s
        (content, ⟨d.1, Cursor.le_trans (Cursor.le_of_lt hlt) d.2⟩, s)
      | (some (e, after), s) =>
        have hlt := Cursor.lt_of_le_of_lt hit.le_start after.2
        let first := segmentBetween segment hit.start
        let (content, d, s) := readContent quote after.1 after.1 (s.observe (.segment first))
        (⟨first, (e, content.first) :: content.more, content.closed⟩,
          ⟨d.1, Cursor.le_trans (Cursor.le_of_lt hlt) d.2⟩, s)
    else
      let last := segmentBetween segment hit.start
      (⟨last, [], true⟩, ⟨hit.stop, Cursor.le_of_lt hit.lt_stop⟩, s.observe (.segment last))
termination_by c.rest.length
decreasing_by all_goals exact Cursor.length_lt_of_lt hlt

/-- Complete the string from `c` to `d`; one that misses its end is a problem at the end of the
text. -/
def finishText (quote : Option Quote) (c d : Cursor) (content : Content) (s : Session σ) :
    Text × Session σ :=
  let s := if content.closed then s else s.commit .unclosedString c.sourceLength
  let text := ⟨⟨c.position, d.position⟩, quote, content.first, content.more⟩
  (text, s.observe (.value (.text text)))

/-- Read a string by its content.  `inner` is the place after its quote, or the start of a string
without quotes. -/
def readTextContent (quote : Option Quote) (c inner : Cursor) (s : Session σ) :
    Text × inner.From × Session σ :=
  let (content, d, s) := readContent quote inner inner s
  let (text, s) := finishText quote c d content s
  (text, d, s)

/-- The one segment of a quoted string between `c` and `d`. -/
def staticContent (c d : Cursor) (raw : List Char) : Content :=
  ⟨⟨⟨c.position + 1, d.position - 1⟩, String.ofList raw⟩, [], true⟩

/-- Read the quoted string here.  A closed literal without a brace is one static segment; any other
is read by its content. -/
def readText (c : Cursor) (s : Session σ) : Reading σ Text c :=
  match h : c.quote? with
  | none => (none, s)
  | some quote =>
    let byContent : Reading σ Text c :=
      let inner := c.next (Cursor.ne_nil_of_quote? h)
      let (text, d, s) := readTextContent quote c inner s
      (some (text, ⟨d.1, Cursor.lt_of_lt_of_le inner.2 d.2⟩), s)
    match c.matchQuoted with
    | .ok (some (raw, d)) =>
      if raw.contains '{' then byContent
      else
        let content := staticContent c d raw
        let (text, s) := finishText quote c d content (s.observe (.segment content.first))
        (some (text, d), s)
    | _ => byContent

end DataTemplate
