/-
Whole documents.  A document is one value after white space and comments, with nothing but white
space after it.  The options say what becomes of an empty document, of text after the value, and of
problems; the common way out is to read the whole text as a string without quotes.
-/
import DataTemplate.Reading.Value

namespace DataTemplate

variable {σ : Type}

/-- What a document without a value stands for. -/
inductive EmptyInput where
  | asUndefined
  | asEmptyString
deriving DecidableEq, Repr

/-- What becomes of text after the value. -/
inductive Remainder where
  | asError
  | ignore
deriving DecidableEq, Repr

/-- What becomes of problems: the first one is the outcome (`fail`), reading stops at the first one
(`stop`), all are collected (`recover`), or the text is read as a string (`asString`). -/
inductive ErrorPolicy where
  | fail
  | stop
  | recover
  | asString
deriving DecidableEq, Repr

/-- Whether the first problem of the grammar halts the reading. -/
def ErrorPolicy.halts (policy : ErrorPolicy) : Bool := policy != .recover

/-- How documents are read.  A loose reading takes the text as a string when there is no value, or
when anything follows a value that is no quoted string, array or object. -/
structure ReadOptions where
  loose : Bool := false
  emptyInput : EmptyInput := .asUndefined
  remainder : Remainder := .asError
  onError : ErrorPolicy := .fail
deriving DecidableEq, Repr

/-- A document that was read: its value, the expressions in it, where the value starts and stops,
the problems, and whether the text was read as a string. -/
structure Document where
  root : Option Value
  expressions : List Expression
  start : Nat
  stop : Nat
  problems : List Problem
  readAsString : Bool

namespace Document

/-- Whether a document holds an expression. -/
def isDynamic (document : Document) : Bool := !document.expressions.isEmpty

end Document

/-- The value of a document without one, at its end. -/
def EmptyInput.value (position : Nat) : EmptyInput → Value
  | asUndefined => .scalar ⟨⟨position, position⟩, "undefined", .nullish⟩
  | asEmptyString =>
    let nothing : Span := ⟨position, position⟩
    .text ⟨nothing, some .double, ⟨nothing, ""⟩, []⟩

/-- What was read of a document before the policies are applied: the value, the place after it and
the white space that follows it. -/
structure Root (c : Cursor) where
  value : Option Value
  after : c.From

/-- Read the value of a document after its leading trivia. -/
def readRoot (emptyInput : EmptyInput) (c : Cursor) (s : Session σ) : Root c × Session σ :=
  if c.atEnd then
    let value := emptyInput.value c.position
    (⟨some value, c, c.le_refl⟩, s.observe (.value value))
  else
    match readValue c s with
    | (some (value, d), s) =>
      (⟨some value, d.1.skipBlanks,
        Cursor.le_trans (Cursor.le_of_lt d.2) d.1.le_skipBlanks⟩, s)
    | (none, s) => (⟨none, c, c.le_refl⟩, s.push .noValue c.position)

/-- Whether a loose reading may take the text of a document with this value as a string. -/
def mayBeLoose : Option Value → Bool
  | some (.text _) | some (.array _ _) | some (.object _ _) => false
  | _ => true

/-- Whether a value is an expression. -/
def isExpression : Option Value → Bool
  | some (.expression _) => true
  | _ => false

/-- Note text after the value as a problem, where the options ask for it.  Text after an expression
is none: the two make a string. -/
def noteRemainder (options : ReadOptions) {c : Cursor} (root : Root c) (s : Session σ) :
    Session σ :=
  let loose := options.loose && mayBeLoose root.value
  if !s.hasProblems && !root.after.1.atEnd && !isExpression root.value
      && (loose || options.remainder == .asError) then
    s.push .trailingText root.after.1.position
  else s

/-- Whether the text is to be read as a string: an expression is followed by text, or there are
problems and the options ask for it. -/
def wantsString (options : ReadOptions) {c : Cursor} (root : Root c) (s : Session σ) : Bool :=
  let loose := options.loose && mayBeLoose root.value
  if s.hasProblems then loose || options.onError == .asString
  else isExpression root.value && !root.after.1.atEnd

/-- Read a document and apply the policies.  The answer is a document, or the first problem under
the policy that fails. -/
def readDocument (options : ReadOptions) (hooks : Hooks σ) (state : σ) (source : List Char) :
    Except Problem Document × σ :=
  let s := Session.start hooks state options.onError.halts
  let (start, s) := skipTrivia (.ofText source) s
  let (root, s) := readRoot options.emptyInput start.1 s
  let s := noteRemainder options root s
  let asString := wantsString options root s
  let (value, s) :=
    if asString then
      let (text, _, s) :=
        readTextContent none start.1 start.1 s.clearProblems.restartExpressions
      (some (.text text), s)
    else (root.value, s)
  let failure := if options.onError = .fail then s.problems[0]? else none
  match failure with
  | some problem => (.error problem, s.state)
  | none =>
    (.ok {
      root := value
      expressions := s.expressions.toList
      start := start.1.position
      stop := (value.map (·.span.stop)).getD start.1.position
      problems := s.problems.toList
      readAsString := asString }, s.state)

/-- Read a document without hooks. -/
def parse (options : ReadOptions) (source : String) : Except Problem Document :=
  (readDocument options ({} : Hooks Unit) () source.toList).1

/-! ### The stages of a reading -/

section Stages

variable (options : ReadOptions) (hooks : Hooks σ) (state : σ) (source : List Char)

/-- The place after the leading trivia, and the session there. -/
def openDocument : Cursor × Session σ :=
  let (start, s) :=
    skipTrivia (.ofText source) (Session.start hooks state options.onError.halts)
  (start.1, s)

/-- The place where the value of a document starts. -/
def documentStart : Cursor := (openDocument options hooks state source).1

/-- What is read first at the start of a document. -/
def firstRoot : Root (documentStart options hooks state source) × Session σ :=
  readRoot options.emptyInput (documentStart options hooks state source)
    (openDocument options hooks state source).2

/-- The session after the first reading, with a note about text after the value. -/
def notedSession : Session σ :=
  let (root, s) := firstRoot options hooks state source
  noteRemainder options root s

/-- Whether the text is read again as a string. -/
def rereads : Bool :=
  wantsString options (firstRoot options hooks state source).1
    (notedSession options hooks state source)

end Stages

end DataTemplate
