/-
Printed documents.  A form is a document tree together with one of its layouts: which white space and
which comments stand between the tokens, and how each leaf is spelled.  It has the text that it is
printed as, and the tree that it stands for, whose positions are erased.
-/
import DataTemplate.Reading.Document

namespace DataTemplate

/-! ### Trees without positions -/

/-- The span that every node has once positions are erased. -/
def Span.erased : Span := ⟨0, 0⟩

/-- A token that is there or not, without its position. -/
def eraseMark (mark : Option Nat) : Option Nat := mark.map fun _ => 0

/-- A scalar without its position. -/
def Scalar.erase (s : Scalar) : Scalar := { s with span := .erased }

/-- An identifier without its position. -/
def Identifier.erase (i : Identifier) : Identifier := { i with span := .erased }

/-- An expression without its position. -/
def Expression.erase (e : Expression) : Expression := { e with start := 0 }

/-- A segment without its position. -/
def Segment.erase (s : Segment) : Segment := { s with span := .erased }

/-- A string without positions. -/
def Text.erase (t : Text) : Text where
  span := .erased
  quote := t.quote
  first := t.first.erase
  more := t.more.map fun (e, s) => (e.erase, s.erase)

/-- A key without positions. -/
def Key.erase : Key → Key
  | text t => .text t.erase
  | expression e => .expression e.erase
  | identifier i => .identifier i.erase

mutual

/-- A value without positions. -/
def Value.erase : Value → Value
  | .scalar s => .scalar s.erase
  | .expression e => .expression e.erase
  | .text t => .text t.erase
  | .array _ slots => .array .erased (eraseSlots slots)
  | .object _ properties => .object .erased (eraseProperties properties)

/-- Some slots without positions. -/
def eraseSlots : List (Slot Value) → List (Slot Value)
  | [] => []
  | ⟨some value, _, comma⟩ :: slots => ⟨some value.erase, 0, eraseMark comma⟩ :: eraseSlots slots
  | ⟨none, _, comma⟩ :: slots => ⟨none, 0, eraseMark comma⟩ :: eraseSlots slots

/-- Some properties without positions. -/
def eraseProperties : List (Property Value) → List (Property Value)
  | [] => []
  | ⟨key, colon, some value, comma⟩ :: properties =>
    ⟨key.erase, eraseMark colon, some value.erase, eraseMark comma⟩ :: eraseProperties properties
  | ⟨key, colon, none, comma⟩ :: properties =>
    ⟨key.erase, eraseMark colon, none, eraseMark comma⟩ :: eraseProperties properties

end

/-- A slot without positions. -/
def Slot.erase (slot : Slot Value) : Slot Value :=
  ⟨slot.value.map Value.erase, 0, eraseMark slot.comma⟩

/-- A property without positions. -/
def Property.erase (p : Property Value) : Property Value :=
  ⟨p.key.erase, eraseMark p.colon, p.value.map Value.erase, eraseMark p.comma⟩

theorem eraseSlots_eq (slots : List (Slot Value)) : eraseSlots slots = slots.map Slot.erase := by
  induction slots with
  | nil => simp [eraseSlots]
  | cons slot slots ih =>
    obtain ⟨value, start, comma⟩ := slot
    cases value with
    | none => simp [eraseSlots, Slot.erase, ih]
    | some value => simp [eraseSlots, Slot.erase, ih]

theorem eraseProperties_eq (properties : List (Property Value)) :
    eraseProperties properties = properties.map Property.erase := by
  induction properties with
  | nil => simp [eraseProperties]
  | cons property properties ih =>
    obtain ⟨key, colon, value, comma⟩ := property
    cases value with
    | none => simp [eraseProperties, Property.erase, ih]
    | some value => simp [eraseProperties, Property.erase, ih]

/-! ### Between tokens -/

/-- White space, or a comment that is closed.  The break after a line comment belongs to it. -/
inductive Filler where
  | blank (c : Char) (hblank : isBlank c = true)
  | line (body : List Char) (stop : Char) (hbody : ∀ c ∈ body, c ≠ '\n' ∧ c ≠ '\r')
      (hstop : stop = '\n' ∨ stop = '\r')
  | block (body : List Char) (hbody : ¬ ['*', '/'] <:+: body)

/-- The spelling of a filler. -/
def Filler.text : Filler → List Char
  | blank c _ => [c]
  | line body stop _ _ => '/' :: '/' :: (body ++ [stop])
  | block body _ => '/' :: '*' :: (body ++ ['*', '/'])

/-- What may stand between two tokens. -/
abbrev Gap := List Filler

/-- The spelling of a gap. -/
def Gap.text (gap : Gap) : List Char := gap.flatMap Filler.text

/-! ### Leaves -/

/-- The parts of an exponent that make a spelling. -/
structure Exponent.Proper (exponent : Exponent) : Prop where
  mark : exponent.mark = 'e' ∨ exponent.mark = 'E'
  ne_nil : exponent.digits ≠ []
  digits : ∀ c ∈ exponent.digits, isDecimalDigit c = true

/-- The parts of a number that make a spelling: digits of the radix, and at least one of them. -/
def Magnitude.Proper : Magnitude → Prop
  | inRadix radix digits => digits ≠ [] ∧ ∀ c ∈ digits, radix.isDigit c = true
  | decimal whole fraction exponent =>
    whole ++ fraction.getD [] ≠ [] ∧ (∀ c ∈ whole ++ fraction.getD [], isDecimalDigit c = true) ∧
      ∀ e, exponent = some e → e.Proper

/-- A keyword or a number literal. -/
inductive ScalarForm where
  | keyword (word : List Char) (meaning : Meaning) (hword : (word, meaning) ∈ keywords)
  | number (numeral : Numeral) (hproper : numeral.magnitude.Proper)

namespace ScalarForm

/-- The spelling of a keyword or a number literal. -/
def text : ScalarForm → List Char
  | keyword word _ _ => word
  | number numeral _ => numeral.text

/-- What a keyword or a number literal means. -/
def meaning : ScalarForm → Meaning
  | keyword _ meaning _ => meaning
  | number numeral _ => .number numeral.value

/-- The node of a keyword or a number literal. -/
def node (form : ScalarForm) : Scalar := ⟨.erased, String.ofList form.text, form.meaning⟩

end ScalarForm

/-- An expression: a body between runs of at least two braces, such that its braces can be told
from those of the body. -/
structure Braced where
  braces : Nat
  body : List Char
  two_le : 2 ≤ braces
  head_ne : body.head? ≠ some '{'
  last_ne : body.getLast? ≠ some '}'
  no_close : ¬ List.replicate braces '}' <:+: body

namespace Braced

/-- The spelling of an expression. -/
def text (form : Braced) : List Char :=
  List.replicate form.braces '{' ++ (form.body ++ List.replicate form.braces '}')

/-- The node of an expression. -/
def node (form : Braced) : Expression :=
  ⟨0, form.braces, String.ofList form.body, String.ofList form.body, .unknown⟩

end Braced

/-- Whether a text has none of the characters `stops` but behind a backslash, and does not end in a
backslash that hides nothing. -/
def isStatic (stops : List Char) : List Char → Bool
  | [] => true
  | c :: cs =>
    if c = '\\' then
      match cs with
      | [] => false
      | _ :: ds => isStatic stops ds
    else !stops.contains c && isStatic stops cs

/-- The static text between the expressions of a string. -/
abbrev StaticText (quote : Quote) := { cs : List Char // isStatic [quote.char, '{'] cs = true }

/-- The node of some static text. -/
def StaticText.node {quote : Quote} (form : StaticText quote) : Segment :=
  ⟨.erased, String.ofList form.1⟩

/-- A quoted string: static text with an expression between each two. -/
structure TextForm where
  quote : Quote
  first : StaticText quote
  more : List (Braced × StaticText quote)

namespace TextForm

/-- The spelling of the parts of a string after its first segment. -/
def moreText {quote : Quote} (more : List (Braced × StaticText quote)) : List Char :=
  more.flatMap fun (e, s) => e.text ++ s.1

/-- The spelling of a string. -/
def text (form : TextForm) : List Char :=
  form.quote.char :: (form.first.1 ++ (moreText form.more ++ [form.quote.char]))

/-- The node of a string. -/
def node (form : TextForm) : Text :=
  ⟨.erased, some form.quote, form.first.node, form.more.map fun (e, s) => (e.node, s.node)⟩

end TextForm

/-- A bare identifier. -/
structure IdentifierForm where
  first : Char
  more : List Char
  hfirst : isIdentifierStart first = true
  hmore : ∀ c ∈ more, isIdentifierContinue c = true

/-- The spelling of an identifier. -/
def IdentifierForm.text (form : IdentifierForm) : List Char := form.first :: form.more

/-- The key of a property. -/
inductive KeyForm where
  | text (form : TextForm)
  | expression (form : Braced)
  | identifier (form : IdentifierForm)

namespace KeyForm

/-- The spelling of a key. -/
def spelling : KeyForm → List Char
  | text form => form.text
  | expression form => form.text
  | identifier form => form.text

/-- The node of a key. -/
def node : KeyForm → Key
  | text form => .text form.node
  | expression form => .expression form.node
  | identifier form => .identifier ⟨.erased, String.ofList form.text⟩

/-- Whether a key starts with a brace. -/
def isExpression : KeyForm → Bool
  | expression _ => true
  | _ => false

end KeyForm

/-- The front of a property: its key and its colon, with what stands before, between and after. -/
structure KeyPart where
  before : Gap
  key : KeyForm
  after : Gap
  beforeValue : Gap

/-- The spelling of the front of a property. -/
def KeyPart.text (part : KeyPart) : List Char :=
  part.before.text ++ (part.key.spelling ++ (part.after.text ++ ':' :: part.beforeValue.text))

/-! ### Documents -/

mutual

/-- A value with its layout.  The brace of an object stands apart from a first key that is an
expression. -/
inductive Form where
  | scalar (form : ScalarForm)
  | expression (form : Braced)
  | text (form : TextForm)
  | array (slots : SlotForms)
  | emptyObject (gap : Gap)
  | object (front : KeyPart) (apart : front.key.isExpression = true → front.before ≠ [])
      (value : Form) (after : Gap) (more : MoreProperties)

/-- A place in an array, with the layout around its value if there is one. -/
inductive SlotForm where
  | gap (gap : Gap)
  | value (before : Gap) (value : Form) (after : Gap)

/-- The slots of an array, up to its closing bracket. -/
inductive SlotForms where
  | last (slot : SlotForm)
  | cons (slot : SlotForm) (more : SlotForms)

/-- The rest of an object after a property, up to its closing brace. -/
inductive MoreProperties where
  | close
  | finalComma (gap : Gap)
  | cons (front : KeyPart) (value : Form) (after : Gap) (more : MoreProperties)

end

mutual

/-- The text that a form is printed as. -/
def Form.spelling : Form → List Char
  | .scalar form => form.text
  | .expression form => form.text
  | .text form => form.text
  | .array slots => '[' :: slots.spelling
  | .emptyObject gap => '{' :: (gap.text ++ ['}'])
  | .object front _ value after more =>
    '{' :: (front.text ++ (value.spelling ++ (after.text ++ more.spelling)))

/-- The spelling of a slot. -/
def SlotForm.spelling : SlotForm → List Char
  | .gap gap => gap.text
  | .value before value after => before.text ++ (value.spelling ++ after.text)

/-- The spelling of the slots of an array, with its closing bracket. -/
def SlotForms.spelling : SlotForms → List Char
  | .last slot => slot.spelling ++ [']']
  | .cons slot more => slot.spelling ++ ',' :: more.spelling

/-- The spelling of the rest of an object, with its closing brace. -/
def MoreProperties.spelling : MoreProperties → List Char
  | .close => ['}']
  | .finalComma gap => ',' :: (gap.text ++ ['}'])
  | .cons front value after more =>
    ',' :: (front.text ++ (value.spelling ++ (after.text ++ more.spelling)))

end

/-- The items of an array by its printed slots.  A lone empty slot gives none, and an empty last
slot is dropped from more than two. -/
def itemsOf (slots : List (Slot Value)) : List (Slot Value) :=
  if (slots.length = 1 ∨ 2 < slots.length) ∧ slots.getLast?.any (·.value.isNone) = true then
    slots.dropLast
  else slots

/-- The comma of a property, by what comes after it. -/
def MoreProperties.comma : MoreProperties → Option Nat
  | close => none
  | _ => some 0

mutual

/-- The tree that a form stands for. -/
def Form.tree : Form → Value
  | .scalar form => .scalar form.node
  | .expression form => .expression form.node
  | .text form => .text form.node
  | .array slots => .array .erased (itemsOf slots.printed)
  | .emptyObject _ => .object .erased []
  | .object front _ value _ more =>
    .object .erased (⟨front.key.node, some 0, some value.tree, more.comma⟩ :: more.properties)

/-- The value of a slot. -/
def SlotForm.item : SlotForm → Option Value
  | .gap _ => none
  | .value _ value _ => some value.tree

/-- All slots that are printed. -/
def SlotForms.printed : SlotForms → List (Slot Value)
  | .last slot => [⟨slot.item, 0, none⟩]
  | .cons slot more => ⟨slot.item, 0, some 0⟩ :: more.printed

/-- The properties in the rest of an object. -/
def MoreProperties.properties : MoreProperties → List (Property Value)
  | .close => []
  | .finalComma _ => []
  | .cons front value _ more =>
    ⟨front.key.node, some 0, some value.tree, more.comma⟩ :: more.properties

end

example : (Form.array (.cons (.gap []) (.last (.gap [.block ['x'] (by decide)])))).spelling =
    ['[', ',', '/', '*', 'x', '*', '/', ']'] := by decide
example : (Form.array (.last (.gap []))).tree = .array .erased [] := by rfl

/-- A document: a value after any gap, with white space behind it. -/
structure DocumentForm where
  before : Gap
  root : Form
  after : List Char
  hafter : ∀ c ∈ after, isBlank c = true

/-- The text that a document is printed as. -/
def DocumentForm.text (form : DocumentForm) : List Char :=
  form.before.text ++ (form.root.spelling ++ form.after)

end DataTemplate
