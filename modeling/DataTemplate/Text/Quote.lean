/-
Quoted literals: a quote, content in which a backslash hides the character after it, and the same
quote again.
-/
import DataTemplate.Text.Cursor
import DataTemplate.Text.Escape

namespace DataTemplate

/-- The two kinds of quote. -/
inductive Quote where
  | double
  | single
deriving DecidableEq, Repr

/-- The character of a quote. -/
def Quote.char : Quote → Char
  | .double => '\x22'
  | .single => '\x27'

/-- The quote that a character is. -/
def Quote.ofChar? (c : Char) : Option Quote :=
  if c = '\x22' then some .double else if c = '\x27' then some .single else none

/-- A quoted literal that is not closed before the text ends at `position`. -/
structure UnclosedQuote where
  quote : Quote
  position : Nat
deriving DecidableEq, Repr

/-- The wording of the fault. -/
def UnclosedQuote.message (fault : UnclosedQuote) : String :=
  "unterminated string literal, expected " ++ String.singleton fault.quote.char

namespace Cursor

/-- The quote that a cursor stands on. -/
def quote? (c : Cursor) : Option Quote := c.rest.head?.bind Quote.ofChar?

theorem ne_nil_of_quote? {c : Cursor} {quote : Quote} (h : c.quote? = some quote) :
    c.rest ≠ [] := by
  intro hnil
  simp [quote?, hnil] at h

/-- The raw content of the quoted literal here, and the place after its closing quote.  There is
no answer away from a quote. -/
def matchQuoted (c : Cursor) : Except UnclosedQuote (Option (List Char × c.After)) :=
  match h : c.rest with
  | [] => .ok none
  | opening :: _ =>
    match Quote.ofChar? opening with
    | none => .ok none
    | some quote =>
      let inner := c.next (rest_ne_nil h)
      match inner.1.find [[quote.char]] (some '\\') with
      | none => .error ⟨quote, c.sourceLength⟩
      | some hit => .ok (some (hit.before, ⟨hit.stop, lt_trans inner.2 hit.lt_stop⟩))

end Cursor

theorem Quote.ofChar?_char (quote : Quote) : Quote.ofChar? quote.char = some quote := by
  cases quote <;> decide

theorem Quote.char_of_ofChar? {c : Char} {quote : Quote} (h : Quote.ofChar? c = some quote) :
    quote.char = c := by
  simp only [ofChar?] at h
  split at h
  · simp_all [Quote.char, ← Option.some.inj h]
  · split at h
    · simp_all [Quote.char, ← Option.some.inj h]
    · simp at h

end DataTemplate
