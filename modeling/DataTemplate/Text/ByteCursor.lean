/-
A place in a text by nothing but its byte position.  Its operations add bytes to that position and cut
the text at what comes out; only those that take a count from outside widen it to whole characters
first.  A cut inside a character, behind the end or backwards is a fault.
-/
import DataTemplate.Text.Quote

namespace DataTemplate

/-! ### Cuts and boundaries -/

/-- Two byte positions between which a text cannot be cut. -/
structure BadSlice where
  start : Nat
  stop : Nat
deriving DecidableEq, Repr

/-- The text between two byte positions. -/
def sliceText (source : List Char) (start stop : Nat) : Except BadSlice (List Char) :=
  match textFrom? source start, textFrom? source stop with
  | some rest, some _ =>
    if start ≤ stop then .ok (cutBytes (stop - start) rest).1 else .error ⟨start, stop⟩
  | _, _ => .error ⟨start, stop⟩

/-- Whether a byte may begin a character.  The bytes that go on with one lie from 0x80 to 0xbf. -/
def isFirstByte (byte : UInt8) : Bool := byte < 0x80 || 0xc0 ≤ byte

/-- Whether a byte position stands between two characters, told by the byte behind it. -/
def isCharBoundary (source : List Char) (position : Nat) : Bool :=
  position == byteLength source || (utf8Bytes source)[position]?.any isFirstByte

/-- The first boundary from a position on, one byte after the other. -/
def widenFrom (source : List Char) (position : Nat) (h : position ≤ byteLength source) : Nat :=
  if hboundary : isCharBoundary source position = true then position
  else
    have hlt : position < byteLength source :=
      Nat.lt_of_le_of_ne h fun heq => hboundary (by simp [isCharBoundary, heq])
    widenFrom source (position + 1) hlt
termination_by byteLength source - position

/-- A position clamped to the end of the text and widened to a boundary. -/
def boundaryAt (source : List Char) (target : Nat) : Nat :=
  widenFrom source (min target (byteLength source)) (Nat.min_le_right _ _)

/-- The byte position of the first character of a class. -/
def findChar? (p : Char → Bool) : List Char → Option Nat
  | [] => none
  | c :: cs => if p c then some 0 else (findChar? p cs).map (c.utf8Size + ·)

/-- The characters of a text and their byte positions, the first of which is `position`. -/
def charIndices (position : Nat) : List Char → List (Nat × Char)
  | [] => []
  | c :: cs => (position, c) :: charIndices (position + c.utf8Size) cs

/-- The byte position behind the closer that empties the stack of expected closers. -/
def closeEnd? (pairs : List (Char × Char)) (escapes : List Char) :
    List Char → List (Nat × Char) → Option Nat
  | _, [] => none
  | expected, (position, c) :: chars =>
    if escapes.contains c then
      match chars with
      | [] => none
      | _ :: chars => closeEnd? pairs escapes expected chars
    else
      match closerOf? pairs c with
      | some closer => closeEnd? pairs escapes (closer :: expected) chars
      | none =>
        if isCloser pairs c then
          match expected with
          | [] => none
          | closer :: outer =>
            if closer = c then
              if outer.isEmpty then some (position + c.utf8Size)
              else closeEnd? pairs escapes outer chars
            else none
        else closeEnd? pairs escapes expected chars

/-- The byte position behind the balanced run that a text begins with. -/
def balancedEnd? (pairs : List (Char × Char)) (escapes : List Char) (text : List Char) :
    Option Nat :=
  match charIndices 0 text with
  | [] => none
  | (_, c) :: chars =>
    (closerOf? pairs c).bind fun closer => closeEnd? pairs escapes [closer] chars

/-! ### Places -/

/-- A place in `source`, `position` bytes behind its start. -/
structure ByteCursor where
  source : List Char
  position : Nat
deriving DecidableEq, Repr

namespace ByteCursor

/-- The start of a text. -/
def ofText (source : List Char) : ByteCursor := ⟨source, 0⟩

section

variable (b : ByteCursor)

/-- The text from here on. -/
def remaining : Except BadSlice (List Char) :=
  sliceText b.source b.position (byteLength b.source)

/-- The number of bytes from here on. -/
def remainingLength : Nat := byteLength b.source - b.position

/-- The text of the next `n` bytes, widened to whole characters. -/
def peek (n : Nat) : Except BadSlice (List Char) :=
  sliceText b.source b.position (boundaryAt b.source (b.position + n))

/-- Move over the next `n` bytes, widened to whole characters. -/
def advance (n : Nat) : Except BadSlice (List Char × ByteCursor) := do
  let stop := boundaryAt b.source (b.position + n)
  let text ← sliceText b.source b.position stop
  return (text, { b with position := stop })

/-- Move to an absolute position, widened to a boundary. -/
def jumpTo (position : Nat) : ByteCursor :=
  { b with position := boundaryAt b.source position }

/-- A copy that stands `offset` bytes further on. -/
def cloneAt (offset : Nat) : Except BadSlice ByteCursor := do
  let (_, copy) ← b.advance offset
  return copy

/-- Move over white space, and count its bytes. -/
def skipBlanks : Except BadSlice (Nat × ByteCursor) := do
  let rest ← b.remaining
  let skipped := (findChar? (fun c => !isBlank c) rest).getD b.remainingLength
  return (skipped, { b with position := b.position + skipped })

/-- Move over a text if it starts here. -/
def matchLiteral (text : List Char) : Except BadSlice (Bool × ByteCursor) := do
  let rest ← b.remaining
  if text.isPrefixOf rest then return (true, { b with position := b.position + byteLength text })
  else return (false, b)

/-- Move over the longest run of characters of a class. -/
def matchWhile (p : Char → Bool) : Except BadSlice (List Char × ByteCursor) := do
  let rest ← b.remaining
  b.advance ((findChar? (fun c => !p c) rest).getD b.remainingLength)

/-- Move over the balanced bracket run here, if there is one. -/
def matchBalanced (pairs : List (Char × Char)) (escapes : List Char) :
    Except BadSlice (Option (List Char) × ByteCursor) := do
  let rest ← b.remaining
  match balancedEnd? pairs escapes rest with
  | none => return (none, b)
  | some stop =>
    let (run, d) ← b.advance stop
    return (some run, d)

end

/-- The leftmost occurrence of a needle at least `since` bytes further on, by lead bytes. -/
def findFrom (finder : ByteFinder) (b : ByteCursor) (since : Nat) (needles : List (List Char))
    (escape : Option Char) : Except BadSlice (Option Cursor.Found) :=
  let lead := LeadBytes.ofList (leadBytesOf needles escape)
  if lead.count = 0 then .ok none
  else
    let found := findLead finder lead needles escape b.source (utf8Bytes b.source)
      (boundaryAt b.source (b.position + since))
    match found with
    | .error fault => .error ⟨fault.position, byteLength b.source⟩
    | .ok none => .ok none
    | .ok (some (needle, start)) =>
      .ok (some ⟨needle, start - b.position, start - b.position + byteLength needle⟩)

/-- Move over the quoted literal here, if there is one.  Its content is decoded unless it is asked for
as it stands. -/
def matchQuoted (finder : ByteFinder) (b : ByteCursor) (raw : Bool) :
    Except BadSlice (Except UnclosedQuote (Option (List Char)) × ByteCursor) := do
  let rest ← b.remaining
  match rest.head?.bind Quote.ofChar? with
  | none => return (.ok none, b)
  | some quote =>
    match ← b.findFrom finder 1 [[quote.char]] (some '\\') with
    | none => return (.error ⟨quote, byteLength b.source⟩, b)
    | some found =>
      let content ← sliceText rest 1 found.offset
      let (_, d) ← b.advance found.endOffset
      return (.ok (some (if raw then content else unescape content)), d)

end ByteCursor

example : (ByteCursor.mk ['é', 'a'] 1).remaining = .error ⟨1, 3⟩ := rfl
example : boundaryAt ['é', 'a'] 1 = 2 := by decide +kernel

end DataTemplate
