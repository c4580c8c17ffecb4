/-
Arrays.  An array is read slot by slot: a comma closes the open slot and opens the next one, a value
fills the open slot.  After a problem the reading goes on at the next comma or closing bracket.
-/
import DataTemplate.Reading.Interpolation
import DataTemplate.Reading.Resync
import DataTemplate.Reading.Trivia

namespace DataTemplate

variable {σ : Type}

/-- A rule that reads a value at any place with fewer than `n` characters left. -/
abbrev ValueRule (σ : Type) (n : Nat) :=
  (c : Cursor) → c.rest.length < n → (s : Session σ) → Reading σ Value c

/-- What one round of reading a composite leaves: either there is more to read, or the reading has
stopped, at the closing bracket if `closed`. -/
inductive Round (σ δ : Type) (c : Cursor) where
  | again (next : c.After) (draft : δ) (s : Session σ)
  | stop (last : c.From) (draft : δ) (closed : Bool) (s : Session σ)

/-- A step of an array or an object. -/
abbrev RoundStep (σ δ : Type) (n : Nat) :=
  (c : Cursor) → c.rest.length < n → δ → Session σ → Round σ δ c

/-- Take steps until one stops or the session halts.  Arrays and objects differ in their steps
only. -/
def rounds {δ : Type} {n : Nat} (step : RoundStep σ δ n) (c : Cursor) (hc : c.rest.length < n)
    (draft : δ) (s : Session σ) : c.From × δ × Bool × Session σ :=
  if s.halted then (⟨c, c.le_refl⟩, draft, false, s)
  else
    have hblank := c.le_skipBlanks
    have hn := Nat.lt_of_le_of_lt (Cursor.length_le_of_le hblank) hc
    match step c.skipBlanks hn draft s with
    | .stop last draft closed s => (⟨last.1, Cursor.le_trans hblank last.2⟩, draft, closed, s)
    | .again next draft s =>
      have hlt := Cursor.lt_of_le_of_lt hblank next.2
      have hn := Nat.lt_trans (Cursor.length_lt_of_lt hlt) hc
      let (last, result) := rounds step next.1 hn draft s
      (⟨last.1, Cursor.le_trans (Cursor.le_of_lt hlt) last.2⟩, result)
termination_by c.rest.length
decreasing_by exact Cursor.length_lt_of_lt hlt

/-- An array being read: the slots closed by a comma, and the open one.  No slot is open before the
first value or comma. -/
structure SlotDraft where
  closed : Array (Slot Value) := #[]
  current : Option (Slot Value) := none

namespace SlotDraft

/-- The open slot, which begins at `position` if none was open. -/
def currentAt (draft : SlotDraft) (position : Nat) : Slot Value :=
  draft.current.getD ⟨none, position, none⟩

/-- Close the open slot with a comma, and open the next one. -/
def comma (draft : SlotDraft) (position : Nat) : SlotDraft where
  closed := draft.closed.push { draft.currentAt position with comma := some position }
  current := some ⟨none, position + 1, none⟩

/-- Fill the open slot. -/
def fill (draft : SlotDraft) (value : Value) : SlotDraft :=
  { draft with current := some { draft.currentAt value.span.start with value := some value } }

/-- Whether the open slot has no value yet. -/
def awaitsValue (draft : SlotDraft) : Bool :=
  match draft.current with
  | none => true
  | some slot => slot.value.isNone

/-- What is wrong if neither a comma nor a closing bracket comes next, nor a value that the open
slot has room for. -/
def missing (draft : SlotDraft) : Cause :=
  if draft.awaitsValue then .missingItem else .missingItemSeparator

/-- The slots read so far. -/
def slots (draft : SlotDraft) : List (Slot Value) :=
  draft.closed.toList ++ draft.current.toList

/-- The slots of the finished array.  An empty last slot is dropped, but not from two slots. -/
def finish (draft : SlotDraft) : List (Slot Value) :=
  if 2 < draft.slots.length && draft.awaitsValue then draft.slots.dropLast else draft.slots

end SlotDraft

/-- The delimiters of an array. -/
def slotDelimiters : List Char := [',', ']']

/-- Read on in an array after a problem with what stands at `c`. -/
def recoverSlot (c : Cursor) (x : Char) (rest : List Char) (hrest : c.rest = x :: rest)
    (hx : x ∉ slotDelimiters) : c.After :=
  match h : nextDelimiter? slotDelimiters c with
  | some landing => ⟨landing.here, lt_here_of_nextDelimiter? hrest hx h⟩
  | none => ⟨c.toEnd, Cursor.lt_toEnd (by simp [hrest])⟩

/-- One step of an array at a place without white space. -/
def slotStep {n : Nat} (readValue : ValueRule σ n) (c : Cursor) (hc : c.rest.length < n)
    (draft : SlotDraft) (s : Session σ) : Round σ SlotDraft c :=
  match h : c.rest with
  | [] => .stop ⟨c, c.le_refl⟩ draft false s
  | x :: rest =>
    let next := c.next (Cursor.rest_ne_nil h)
    if hclose : x = ']' then .stop ⟨next.1, Cursor.le_of_lt next.2⟩ draft true s
    else if hcomma : x = ',' then .again next (draft.comma c.position) s
    else
      match c.comment? with
      | some d => .again d draft (s.observeComment c d)
      | none =>
        let (found, s) := if draft.awaitsValue then readValue c hc s else (none, s)
        match found with
        | some (value, d) => .again d (draft.fill value) s
        | none =>
          let s := s.commit draft.missing c.position
          if s.halted then .stop ⟨c, c.le_refl⟩ draft false s
          else .again (recoverSlot c x rest h (by simp [slotDelimiters, hclose, hcomma])) draft s

/-- Read an array from the place after its opening bracket. -/
def readSlots {n : Nat} (readValue : ValueRule σ n) (c : Cursor) (hc : c.rest.length < n)
    (draft : SlotDraft) (s : Session σ) : c.From × SlotDraft × Bool × Session σ :=
  rounds (slotStep readValue) c hc draft s

/-- Add the problem of a missing closing bracket, unless the reading was halted. -/
def Session.commitUnclosed (s : Session σ) (closed : Bool) (cause : Cause) (position : Nat) :
    Session σ :=
  if s.halted || closed then s else s.commit cause position

/-- Read the array here, given a rule for the values in it. -/
def readArray (c : Cursor) (readValue : ValueRule σ c.rest.length) (s : Session σ) :
    Reading σ Value c :=
  match h : c.rest with
  | '[' :: _ =>
    let inner := c.next (Cursor.rest_ne_nil h)
    let (d, draft, closed, s) :=
      readSlots readValue inner.1 (Cursor.length_lt_of_lt inner.2) {} s
    let s := s.commitUnclosed closed .unclosedArray d.1.position
    let value := Value.array ⟨c.position, d.1.position⟩ draft.finish
    (some (value, ⟨d.1, Cursor.lt_of_lt_of_le inner.2 d.2⟩), s.observe (.value value))
  | _ => (none, s)

end DataTemplate
