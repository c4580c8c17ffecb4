/-
Reading into a tree with every field spelled out, field by field as the text is met.  An array keeps
its items and their places in two lists that grow together, and an item that comes changes the last
entry of each; a string pushes its parts on one list; a property moves its end with every part.
Expressions, keywords, numbers, identifiers and comments have no field to spell out, and are read as
elsewhere.
-/
import DataTemplate.Document.Explicit
import DataTemplate.Reading.Document

namespace DataTemplate

/-! ### Places further on -/

namespace Cursor.After

variable {c : Cursor}

/-- A place after `c`, as one that is not in front of `c`. -/
def toFrom : c.After → c.From
  | ⟨d, h⟩ => ⟨d, Cursor.le_of_lt h⟩

/-- A place from a later one on is a later one. -/
def onward : (d : c.After) → d.1.From → c.After
  | ⟨_, h⟩, ⟨e, hle⟩ => ⟨e, Cursor.lt_of_lt_of_le h hle⟩

theorem length_lt (d : c.After) : d.1.rest.length < c.rest.length :=
  Cursor.length_lt_of_lt d.2

end Cursor.After

theorem not_mem_slotDelimiters {x : Char} (hclose : ¬ x = ']') (hcomma : ¬ x = ',') :
    x ∉ slotDelimiters := by
  simp [slotDelimiters, hclose, hcomma]

namespace Explicit

variable {σ : Type}

/-- What a host does while a document is read into a tree with every field spelled out. -/
structure Hooks (σ : Type) where
  revise : σ → Expression → Revision × σ := fun state e => (⟨e.text, e.valueType⟩, state)
  observe : σ → Node → σ := fun state _ => state

/-- The same host, told of nodes that leave fields to be computed. -/
def Hooks.onNodes (hooks : Hooks σ) : DataTemplate.Hooks σ where
  revise := hooks.revise
  observe := fun state node => hooks.observe state node.explicit

/-- Tell the host of a complete node. -/
def tell (hooks : Hooks σ) (s : Session σ) (node : Node) : Session σ :=
  { s with state := hooks.observe s.state node }

/-! ### Strings and keys -/

/-- Add the static text between two places to the parts of a string. -/
def pushSegment (hooks : Hooks σ) (parts : Array TextPart) (c d : Cursor) (s : Session σ) :
    Array TextPart × Session σ :=
  let segment := segmentBetween c d
  (parts.push (.segment segment), tell hooks s (.segment segment))

/-- Add the parts of string content.  The static text began at `segment`, and has been searched up
to `c`.  The answer also says whether the content ended where it should. -/
def readParts (hooks : Hooks σ) (quote : Option Quote) (parts : Array TextPart)
    (segment c : Cursor) (s : Session σ) : Array TextPart × Bool × c.From × Session σ :=
  match c.find (contentNeedles quote) (some '\\') with
  | none =>
    let (parts, s) := pushSegment hooks parts segment c.toEnd s
    (parts, quote.isNone, ⟨c.toEnd, c.le_toEnd⟩, s)
  | some hit =>
    if hit.needle == ['{'] then
      match readExpression hit.start s with
      | (none, s) =>
        have hlt := hit.lt_stop
        let (parts, closed, d, s) := readParts hooks quote parts segment hit.stop s
        (parts, closed, ⟨d.1, Cursor.le_trans (Cursor.le_of_lt hlt) d.2⟩, s)
      | (some (e, after), s) =>
        have hlt := Cursor.lt_of_le_of_lt hit.le_start after.2
        let (parts, s) := pushSegment hooks parts segment hit.start s
        let (parts, closed, d, s) :=
          readParts hooks quote (parts.push (.expression e)) after.1 after.1 s
        (parts, closed, ⟨d.1, Cursor.le_trans (Cursor.le_of_lt hlt) d.2⟩, s)
    else
      let (parts, s) := pushSegment hooks parts segment hit.start s
      (parts, true, ⟨hit.stop, Cursor.le_of_lt hit.lt_stop⟩, s)
termination_by c.rest.length
decreasing_by all_goals exact Cursor.length_lt_of_lt hlt

/-- Read a string by its content.  `inner` is the place after its quote, or the start of a string
without quotes. -/
def readTextContent (hooks : Hooks σ) (quote : Option Quote) (c inner : Cursor) (s : Session σ) :
    Text × inner.From × Session σ :=
  let (parts, closed, d, s) := readParts hooks quote #[] inner inner s
  let s := if closed then s else s.commit .unclosedString c.sourceLength
  let text : Text := ⟨⟨c.position, d.1.position⟩, quote, parts.toList, 1 < parts.size⟩
  (text, d, tell hooks s (.value (.text text)))

/-- A closed literal without a brace is one static segment. -/
def readStaticText (hooks : Hooks σ) (quote : Quote) (c d : Cursor) (raw : List Char)
    (s : Session σ) : Text × Session σ :=
  let segment : Segment := ⟨⟨c.position + 1, d.position - 1⟩, String.ofList raw⟩
  let s := tell hooks s (.segment segment)
  let text : Text := ⟨⟨c.position, d.position⟩, some quote, [.segment segment], false⟩
  (text, tell hooks s (.value (.text text)))

/-- Read the quoted string here. -/
def readText (hooks : Hooks σ) (c : Cursor) (s : Session σ) : Reading σ Text c :=
  match h : c.quote? with
  | none => (none, s)
  | some quote =>
    let byContent : Reading σ Text c :=
      let inner := c.next (Cursor.ne_nil_of_quote? h)
      let (text, d, s) := readTextContent hooks quote c inner s
      (some (text, inner.onward d), s)
    match c.matchQuoted with
    | .ok (some (raw, d)) =>
      if raw.contains '{' then byContent
      else
        let (text, s) := readStaticText hooks quote c d raw s
        (some (text, d), s)
    | _ => byContent

/-- Read the key of a property here. -/
def readKey (hooks : Hooks σ) (c : Cursor) (s : Session σ) : Reading σ Key c :=
  match readText hooks c s with
  | (some (text, d), s) => (some (.text text, d), s)
  | (none, s) =>
    match readExpression c s with
    | (some (e, d), s) => (some (.expression e, d), s)
    | (none, s) =>
      match readIdentifier c s with
      | (some (identifier, d), s) => (some (.identifier identifier, d), s)
      | (none, s) => (none, s)

/-! ### Arrays -/

/-- A rule that reads a value at any place with fewer than `n` characters left. -/
abbrev Rule (σ : Type) (n : Nat) :=
  (c : Cursor) → c.rest.length < n → (s : Session σ) → Reading σ Value c

/-- An array being read: its items, where they stand, and whether the last one is still to come. -/
structure ArrayBuilder where
  items : Array (Option Value) := #[]
  locations : Array ItemLocation := #[]
  slotEmpty : Bool := true

namespace ArrayBuilder

/-- Open a slot at a position, if there is none yet. -/
def opened (array : ArrayBuilder) (position : Nat) : ArrayBuilder :=
  if array.locations.isEmpty then
    { array with
      items := array.items.push none
      locations := array.locations.push (.empty position) }
  else array

/-- Change where the last item stands. -/
def relocate (array : ArrayBuilder) (f : ItemLocation → ItemLocation) : ArrayBuilder :=
  { array with locations := array.locations.modify (array.locations.size - 1) f }

/-- Close the open slot with a comma, and open the next one. -/
def comma (array : ArrayBuilder) (position : Nat) : ArrayBuilder :=
  let array := (array.opened position).relocate fun location =>
    { location with hasTrailingComma := true, trailingCommaStart := some position }
  { items := array.items.push none
    locations := array.locations.push (.empty (position + 1))
    slotEmpty := true }

/-- Fill the open slot. -/
def fill (array : ArrayBuilder) (value : Value) : ArrayBuilder :=
  let array := (array.opened value.span.start).relocate fun location =>
    { location with hasValue := true, valueStart := value.span.start, valueEnd := value.span.stop }
  { array with
    items := array.items.modify (array.items.size - 1) fun _ => some value
    slotEmpty := false }

/-- What is wrong if neither a comma nor a closing bracket comes next, nor a value that the open
slot has room for. -/
def missing (array : ArrayBuilder) : Cause :=
  if array.slotEmpty then .missingItem else .missingItemSeparator

/-- The lists of the finished array.  An empty last slot is dropped, but not from two slots. -/
def finish (array : ArrayBuilder) : List (Option Value) × List ItemLocation :=
  if 2 < array.locations.size && array.locations.back?.any fun last => !last.hasValue then
    (array.items.pop.toList, array.locations.pop.toList)
  else (array.items.toList, array.locations.toList)

end ArrayBuilder

/-- One step of an array at a place without white space. -/
def arrayStep {n : Nat} (readValue : Rule σ n) (c : Cursor) (hc : c.rest.length < n)
    (array : ArrayBuilder) (s : Session σ) : Round σ ArrayBuilder c :=
  match h : c.rest with
  | [] => .stop ⟨c, c.le_refl⟩ array false s
  | x :: rest =>
    let next := c.next (Cursor.rest_ne_nil h)
    if hclose : x = ']' then .stop next.toFrom array true s
    else if hcomma : x = ',' then .again next (array.comma c.position) s
    else
      match c.comment? with
      | some d => .again d array (s.observeComment c d)
      | none =>
        let (found, s) := if array.slotEmpty then readValue c hc s else (none, s)
        match found with
        | some (value, d) => .again d (array.fill value) s
        | none =>
          let s := s.commit array.missing c.position
          if s.halted then .stop ⟨c, c.le_refl⟩ array false s
          else .again (recoverSlot c x rest h (not_mem_slotDelimiters hclose hcomma)) array s

/-- Complete the array from `c` to `d`. -/
def finishArray (hooks : Hooks σ) (c d : Cursor) (array : ArrayBuilder) (closed : Bool)
    (s : Session σ) : Value × Session σ :=
  let s := s.commitUnclosed closed .unclosedArray d.position
  let (items, locations) := array.finish
  let value := Value.array ⟨c.position, d.position⟩ items locations
  (value, tell hooks s (.value value))

/-- Read the array here, given a rule for the values in it. -/
def readArray (hooks : Hooks σ) (c : Cursor) (readValue : Rule σ c.rest.length) (s : Session σ) :
    Reading σ Value c :=
  match h : c.rest with
  | [] => (none, s)
  | x :: _ =>
    if x = '[' then
      let inner := c.next (Cursor.rest_ne_nil h)
      let (d, array, closed, s) := rounds (arrayStep readValue) inner.1 inner.length_lt {} s
      let (value, s) := finishArray hooks c d array closed s
      (some (value, inner.onward d), s)
    else (none, s)

/-! ### Objects -/

/-- A property being read; `stop` is where it ends so far. -/
structure PropertyBuilder where
  key : Key
  value : Option Value
  stop : Nat
  colonStart : Option Nat
  trailingCommaStart : Option Nat

namespace PropertyBuilder

/-- A property of which only the key is known. -/
def ofKey (key : Key) : PropertyBuilder := ⟨key, none, key.span.stop, none, none⟩

/-- The complete property. -/
def finish (property : PropertyBuilder) : Property Value where
  span := ⟨property.key.span.start, property.stop⟩
  key := property.key
  value := property.value
  hasColon := property.colonStart.isSome
  colonStart := property.colonStart
  hasTrailingComma := property.trailingCommaStart.isSome
  trailingCommaStart := property.trailingCommaStart

end PropertyBuilder

/-- An object being read: the complete properties, the one being read, and what comes next. -/
structure ObjectBuilder where
  properties : Array (Property Value) := #[]
  current : Option PropertyBuilder := none
  awaited : Awaited := .keyOrEnd

namespace ObjectBuilder

/-- Complete the property being read, if there is one. -/
def flush (hooks : Hooks σ) (object : ObjectBuilder) (s : Session σ) :
    ObjectBuilder × Session σ :=
  match object.current with
  | none => (object, s)
  | some property =>
    let property := property.finish
    ({ object with properties := object.properties.push property, current := none },
      tell hooks s (.property property))

/-- Begin a property. -/
def begin (hooks : Hooks σ) (object : ObjectBuilder) (key : Key) (s : Session σ) :
    ObjectBuilder × Session σ :=
  let (object, s) := object.flush hooks s
  ({ object with current := some (.ofKey key), awaited := .colon }, s)

/-- Take a colon. -/
def colon (object : ObjectBuilder) (position : Nat) : ObjectBuilder :=
  { object with
    current := object.current.map fun p =>
      { p with colonStart := some position, stop := position + 1 }
    awaited := .value }

/-- Take a value. -/
def fill (object : ObjectBuilder) (value : Value) : ObjectBuilder :=
  { object with
    current := object.current.map fun p => { p with value := some value, stop := value.span.stop }
    awaited := .commaOrEnd }

/-- Take a comma. -/
def comma (object : ObjectBuilder) (position : Nat) : ObjectBuilder :=
  { object with
    current := object.current.map fun p =>
      { p with trailingCommaStart := some position, stop := position + 1 }
    awaited := .keyOrEnd }

/-- Where to go on after a problem. -/
def delimiters (object : ObjectBuilder) : List Char :=
  if object.awaited = .colon then [',', '}'] else [',', ':', '}']

end ObjectBuilder

/-- Begin the property whose colon was met after a problem at `c`, or forget the attempt if there is
no key in front of the colon. -/
def beginBeforeColon (hooks : Hooks σ) (c colon : Cursor) (object : ObjectBuilder)
    (s : Session σ) : ObjectBuilder × Session σ :=
  match readKey hooks c s with
  | (some (key, d), tried) =>
    if d.1.position ≤ colon.position then object.begin hooks key tried
    else object.flush hooks (tried.rollback s.checkpoint)
  | (none, tried) => object.flush hooks (tried.rollback s.checkpoint)

/-- Read on in an object after a problem with what stands at `c`. -/
def recoverProperty (hooks : Hooks σ) (c : Cursor) (hc : c.rest ≠ []) (object : ObjectBuilder)
    (s : Session σ) : Round σ ObjectBuilder c :=
  match nextDelimiter? object.delimiters c with
  | none => .again ⟨c.toEnd, Cursor.lt_toEnd hc⟩ object s
  | some landing =>
    let position := landing.here.position
    let after : c.After := ⟨landing.after, landing.lt_after⟩
    if landing.delimiter = '}' then .stop after.toFrom object true s
    else if landing.delimiter = ',' then .again after (object.comma position) s
    else
      let (object, s) := beginBeforeColon hooks c landing.here object s
      .again after (object.colon position) s

/-- What an object makes of the token at `c`, or the session after finding that the token is not
what it waits for. -/
def acceptToken {n : Nat} (hooks : Hooks σ) (readValue : Rule σ n) (c : Cursor)
    (hc : c.rest.length < n) (hne : c.rest ≠ []) (object : ObjectBuilder) (s : Session σ) :
    Except (Session σ) (Round σ ObjectBuilder c) :=
  let x := c.rest.head hne
  let next := c.next hne
  let closed := Round.stop next.toFrom object true s
  match object.awaited with
  | .keyOrEnd =>
    if x = '}' then .ok closed
    else
      match readKey hooks c s with
      | (none, s) => .error s
      | (some (key, d), s) =>
        let (object, s) := object.begin hooks key s
        .ok (.again d object s)
  | .colon => if x = ':' then .ok (.again next (object.colon c.position) s) else .error s
  | .value =>
    match readValue c hc s with
    | (none, s) => .error s
    | (some (value, d), s) => .ok (.again d (object.fill value) s)
  | .commaOrEnd =>
    if x = '}' then .ok closed
    else if x = ',' then .ok (.again next (object.comma c.position) s)
    else .error s

/-- One step of an object at a place without white space. -/
def objectStep {n : Nat} (hooks : Hooks σ) (readValue : Rule σ n) (c : Cursor)
    (hc : c.rest.length < n) (object : ObjectBuilder) (s : Session σ) :
    Round σ ObjectBuilder c :=
  if h : c.rest = [] then .stop ⟨c, c.le_refl⟩ object false s
  else
    match c.comment? with
    | some d => .again d object (s.observeComment c d)
    | none =>
      match acceptToken hooks readValue c hc h object s with
      | .ok round => round
      | .error s =>
        let s := s.commit object.awaited.missing c.position
        if s.halted then .stop ⟨c, c.le_refl⟩ object false s
        else recoverProperty hooks c h object s

/-- Complete the object from `c` to `d`. -/
def finishObject (hooks : Hooks σ) (c d : Cursor) (object : ObjectBuilder) (closed : Bool)
    (s : Session σ) : Value × Session σ :=
  let s := s.commitUnclosed closed object.awaited.missing d.position
  let (object, s) := object.flush hooks s
  let value := Value.object ⟨c.position, d.position⟩ object.properties.toList
  (value, tell hooks s (.value value))

/-- Read the object here, given a rule for the values in it.  Two braces open no object. -/
def readObject (hooks : Hooks σ) (c : Cursor) (readValue : Rule σ c.rest.length) (s : Session σ) :
    Reading σ Value c :=
  match h : c.rest with
  | [] => (none, s)
  | x :: rest =>
    if x = '{' ∧ rest.head? ≠ some '{' then
      let inner := c.next (Cursor.rest_ne_nil h)
      let (d, object, closed, s) :=
        rounds (objectStep hooks readValue) inner.1 inner.length_lt {} s
      let (value, s) := finishObject hooks c d object closed s
      (some (value, inner.onward d), s)
    else (none, s)

/-! ### Values and documents -/

/-- Read the value here. -/
def readValue (hooks : Hooks σ) (c : Cursor) (s : Session σ) : Reading σ Value c :=
  match readText hooks c s with
  | (some (text, d), s) => (some (.text text, d), s)
  | (none, s) =>
    match readExpression c s with
    | (some (e, d), s) => (some (.expression e, d), s)
    | (none, s) =>
      match readArray hooks c (fun d _ s => readValue hooks d s) s with
      | (some found, s) => (some found, s)
      | (none, s) =>
        match readObject hooks c (fun d _ s => readValue hooks d s) s with
        | (some found, s) => (some found, s)
        | (none, s) =>
          match readScalar c s with
          | (some (scalar, d), s) => (some (.scalar scalar, d), s)
          | (none, s) => (none, s)
termination_by c.rest.length

/-- A document that was read, with the fields of its value spelled out. -/
structure Document where
  root : Option Value
  expressions : List Expression
  start : Nat
  stop : Nat
  problems : List Problem
  readAsString : Bool

/-- The value of a document without one, at its end. -/
def emptyValue : EmptyInput → Nat → Value
  | .asUndefined, position => .scalar ⟨⟨position, position⟩, "undefined", .nullish⟩
  | .asEmptyString, position =>
    let nothing : Span := ⟨position, position⟩
    .text ⟨nothing, some .double, [.segment ⟨nothing, ""⟩], false⟩

/-- What was read of a document before the policies are applied. -/
structure Root (c : Cursor) where
  value : Option Value
  after : c.From

/-- Read the value of a document after its leading trivia. -/
def readRoot (hooks : Hooks σ) (emptyInput : EmptyInput) (c : Cursor) (s : Session σ) :
    Root c × Session σ :=
  if c.atEnd then
    let value := emptyValue emptyInput c.position
    (⟨some value, c, c.le_refl⟩, tell hooks s (.value value))
  else
    match readValue hooks c s with
    | (some (value, d), s) =>
      (⟨some value, (d.onward ⟨d.1.skipBlanks, d.1.le_skipBlanks⟩).toFrom⟩, s)
    | (none, s) => (⟨none, c, c.le_refl⟩, s.push .noValue c.position)

/-- Whether a loose reading may take the text of a document with this value as a string. -/
def mayBeLoose : Option Value → Bool
  | some (.text _) | some (.array _ _ _) | some (.object _ _) => false
  | _ => true

/-- Whether a value is an expression. -/
def isExpression : Option Value → Bool
  | some (.expression _) => true
  | _ => false

/-- Note text after the value as a problem, where the options ask for it. -/
def noteRemainder (options : ReadOptions) {c : Cursor} (root : Root c) (s : Session σ) :
    Session σ :=
  let loose := options.loose && mayBeLoose root.value
  if !s.hasProblems && !root.after.1.atEnd && !isExpression root.value
      && (loose || options.remainder == .asError) then
    s.push .trailingText root.after.1.position
  else s

/-- Whether the text is to be read as a string. -/
def wantsString (options : ReadOptions) {c : Cursor} (root : Root c) (s : Session σ) : Bool :=
  let loose := options.loose && mayBeLoose root.value
  if s.hasProblems then loose || options.onError == .asString
  else isExpression root.value && !root.after.1.atEnd

/-- The value and the session that are left, after a second reading as a string if there is one. -/
def readAgain (hooks : Hooks σ) (asString : Bool) {c : Cursor} (root : Root c) (s : Session σ) :
    Option Value × Session σ :=
  if asString then
    let (text, _, s) := readTextContent hooks none c c s.clearProblems.restartExpressions
    (some (.text text), s)
  else (root.value, s)

/-- The outcome: a document, or the first problem under the policy that fails. -/
def conclude (options : ReadOptions) (start : Nat) (asString : Bool) (value : Option Value)
    (s : Session σ) : Except Problem Document × σ :=
  match if options.onError = .fail then s.problems[0]? else none with
  | some problem => (.error problem, s.state)
  | none =>
    (.ok {
      root := value
      expressions := s.expressions.toList
      start := start
      stop := (value.map (·.span.stop)).getD start
      problems := s.problems.toList
      readAsString := asString }, s.state)

/-- Read a document into a tree with every field spelled out, and apply the policies. -/
def readDocument (options : ReadOptions) (hooks : Hooks σ) (state : σ) (source : List Char) :
    Except Problem Document × σ :=
  let s := Session.start hooks.onNodes state options.onError.halts
  let (start, s) := skipTrivia (.ofText source) s
  let (root, s) := readRoot hooks options.emptyInput start.1 s
  let s := noteRemainder options root s
  let asString := wantsString options root s
  let (value, s) := readAgain hooks asString root s
  conclude options start.1.position asString value s

end Explicit

/-- A document with the fields of its value spelled out. -/
def Document.explicit (document : Document) : Explicit.Document where
  root := document.root.map Value.explicit
  expressions := document.expressions
  start := document.start
  stop := document.stop
  problems := document.problems
  readAsString := document.readAsString

end DataTemplate
