/-
Spans: half-open ranges of byte positions in a source text.
-/

namespace DataTemplate

/-- The bytes from `start` up to, but not including, `stop`. -/
structure Span where
  start : Nat
  stop : Nat
deriving DecidableEq, Repr

namespace Span

/-- The number of bytes covered. -/
def length (span : Span) : Nat := span.stop - span.start

/-- Whether no byte is covered. -/
def isEmpty (span : Span) : Bool := span.start == span.stop

/-- Whether all of `inner` lies in `outer`. -/
def contains (outer inner : Span) : Bool :=
  outer.start ≤ inner.start && inner.stop ≤ outer.stop

theorem contains_refl (span : Span) : span.contains span = true := by
  simp [contains]

theorem contains_trans {a b c : Span} (h : a.contains b = true) (k : b.contains c = true) :
    a.contains c = true := by
  simp_all [contains]
  omega

end Span

end DataTemplate
