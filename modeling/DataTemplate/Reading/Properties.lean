/-
Objects.  An object is read part by part: key, colon, value, comma.  After a problem the reading
goes on at the next comma, colon or closing brace; a colon begins a property whose key is what can
be read in front of it.
-/
import DataTemplate.Reading.Leaf
import DataTemplate.Reading.Slots

namespace DataTemplate

variable {σ : Type}

/-- What an object waits for. -/
inductive Awaited where
  | keyOrEnd
  | colon
  | value
  | commaOrEnd
deriving DecidableEq, Repr

/-- What is wrong if it does not come. -/
def Awaited.missing : Awaited → Cause
  | keyOrEnd => .missingKey
  | colon => .missingColon
  | value => .missingValue
  | commaOrEnd => .missingPropertySeparator

/-- An object being read: the finished properties, the one being built, and what comes next.  While
no property is being built, what is read belongs to none. -/
structure PropertyDraft where
  finished : Array (Property Value) := #[]
  current : Option (Property Value) := none
  awaited : Awaited := .keyOrEnd

namespace PropertyDraft

/-- Change the property being built, if there is one. -/
def modify (draft : PropertyDraft) (f : Property Value → Property Value) : PropertyDraft :=
  { draft with current := draft.current.map f }

/-- Finish the property being built, if there is one. -/
def flush (draft : PropertyDraft) (s : Session σ) : PropertyDraft × Session σ :=
  match draft.current with
  | none => (draft, s)
  | some property =>
    ({ draft with finished := draft.finished.push property, current := none },
      s.observe (.property property))

/-- Begin a property. -/
def begin (draft : PropertyDraft) (key : Key) (s : Session σ) : PropertyDraft × Session σ :=
  let (draft, s) := draft.flush s
  ({ draft with current := some ⟨key, none, none, none⟩, awaited := .colon }, s)

/-- Take a colon. -/
def colon (draft : PropertyDraft) (position : Nat) : PropertyDraft :=
  { draft.modify fun p => { p with colon := some position } with awaited := .value }

/-- Take a value. -/
def fill (draft : PropertyDraft) (value : Value) : PropertyDraft :=
  { draft.modify fun p => { p with value := some value } with awaited := .commaOrEnd }

/-- Take a comma. -/
def comma (draft : PropertyDraft) (position : Nat) : PropertyDraft :=
  { draft.modify fun p => { p with comma := some position } with awaited := .keyOrEnd }

/-- Where to go on after a problem.  An object that waits for a colon has no use for a later one. -/
def delimiters (draft : PropertyDraft) : List Char :=
  if draft.awaited = .colon then [',', '}'] else [',', ':', '}']

end PropertyDraft

/-- Begin the property whose colon was met after a problem at `c`.  Its key is what can be read at
`c`, if that ends in front of the colon; else the colon belongs to no property, and the attempt is
forgotten. -/
def beginBeforeColon (c colon : Cursor) (draft : PropertyDraft) (s : Session σ) :
    PropertyDraft × Session σ :=
  match readKey c s with
  | (some (key, d), tried) =>
    if d.1.position ≤ colon.position then draft.begin key tried
    else draft.flush (tried.rollback s.checkpoint)
  | (none, tried) => draft.flush (tried.rollback s.checkpoint)

/-- Read on in an object after a problem with what stands at `c`. -/
def recoverProperty (c : Cursor) (hc : c.rest ≠ []) (draft : PropertyDraft) (s : Session σ) :
    Round σ PropertyDraft c :=
  match nextDelimiter? draft.delimiters c with
  | none => .again ⟨c.toEnd, Cursor.lt_toEnd hc⟩ draft s
  | some landing =>
    let position := landing.here.position
    if landing.delimiter = '}' then
      .stop ⟨landing.after, Cursor.le_of_lt landing.lt_after⟩ draft true s
    else if landing.delimiter = ',' then
      .again ⟨landing.after, landing.lt_after⟩ (draft.comma position) s
    else
      let (draft, s) := beginBeforeColon c landing.here draft s
      .again ⟨landing.after, landing.lt_after⟩ (draft.colon position) s

/-- What an object makes of the token at `c`, or the session after finding that the token is not
what it waits for. -/
def acceptToken {n : Nat} (readValue : ValueRule σ n) (c : Cursor) (hc : c.rest.length < n)
    (hne : c.rest ≠ []) (draft : PropertyDraft) (s : Session σ) :
    Except (Session σ) (Round σ PropertyDraft c) :=
  let x := c.rest.head hne
  let next := c.next hne
  let closed := Round.stop ⟨next.1, Cursor.le_of_lt next.2⟩ draft true s
  match draft.awaited with
  | .keyOrEnd =>
    if x = '}' then .ok closed
    else
      match readKey c s with
      | (none, s) => .error s
      | (some (key, d), s) =>
        let (draft, s) := draft.begin key s
        .ok (.again d draft s)
  | .colon => if x = ':' then .ok (.again next (draft.colon c.position) s) else .error s
  | .value =>
    match readValue c hc s with
    | (none, s) => .error s
    | (some (value, d), s) => .ok (.again d (draft.fill value) s)
  | .commaOrEnd =>
    if x = '}' then .ok closed
    else if x = ',' then .ok (.again next (draft.comma c.position) s)
    else .error s

/-- One step of an object at a place without white space. -/
def propertyStep {n : Nat} (readValue : ValueRule σ n) (c : Cursor) (hc : c.rest.length < n)
    (draft : PropertyDraft) (s : Session σ) : Round σ PropertyDraft c :=
  if h : c.rest = [] then .stop ⟨c, c.le_refl⟩ draft false s
  else
    match c.comment? with
    | some d => .again d draft (s.observeComment c d)
    | none =>
      match acceptToken readValue c hc h draft s with
      | .ok round => round
      | .error s =>
        let s := s.commit draft.awaited.missing c.position
        if s.halted then .stop ⟨c, c.le_refl⟩ draft false s
        else recoverProperty c h draft s

/-- Read an object from the place after its opening brace. -/
def readProperties {n : Nat} (readValue : ValueRule σ n) (c : Cursor) (hc : c.rest.length < n)
    (draft : PropertyDraft) (s : Session σ) : c.From × PropertyDraft × Bool × Session σ :=
  rounds (propertyStep readValue) c hc draft s

/-- Read the object here, given a rule for the values in it.  Two braces open no object. -/
def readObject (c : Cursor) (readValue : ValueRule σ c.rest.length) (s : Session σ) :
    Reading σ Value c :=
  match h : c.rest with
  | '{' :: rest =>
    if rest.head? = some '{' then (none, s)
    else
      let inner := c.next (Cursor.rest_ne_nil h)
      let (d, draft, closed, s) :=
        readProperties readValue inner.1 (Cursor.length_lt_of_lt inner.2) {} s
      let s := s.commitUnclosed closed draft.awaited.missing d.1.position
      let (draft, s) := draft.flush s
      let value := Value.object ⟨c.position, d.1.position⟩ draft.finished.toList
      (some (value, ⟨d.1, Cursor.lt_of_lt_of_le inner.2 d.2⟩), s.observe (.value value))
  | _ => (none, s)

end DataTemplate
