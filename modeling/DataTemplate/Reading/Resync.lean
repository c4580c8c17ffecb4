/-
Getting back in step after a problem: the walk to the next delimiter that lies outside any balanced
bracket group, and the same as a search that goes from bracket to bracket.  Main statement: away
from a delimiter the walk moves on.
-/
import DataTemplate.Text.Cursor

namespace DataTemplate

/-- The brackets that the walk steps over as a whole. -/
def bracketGroups : List (Char × Char) := [('(', ')'), ('[', ']'), ('{', '}')]

/-- A delimiter at or after `c`: `here` stands on it, `after` behind it. -/
structure Landing (c : Cursor) where
  delimiter : Char
  here : Cursor
  after : Cursor
  reach : c ≤ here
  pass : here.Moves [delimiter] after

namespace Landing

variable {c d : Cursor}

/-- The same landing, seen from an earlier place. -/
def ofLE (h : c ≤ d) (landing : Landing d) : Landing c :=
  { landing with reach := Cursor.le_trans h landing.reach }

theorem here_lt_after (landing : Landing c) : landing.here < landing.after :=
  landing.pass.lt (by simp)

theorem lt_after (landing : Landing c) : c < landing.after :=
  Cursor.lt_of_le_of_lt landing.reach landing.here_lt_after

end Landing

/-- Walk to the next of the delimiters.  The walk stops on a delimiter, jumps over a balanced group,
and otherwise takes one character; an opener that never balances is one such character. -/
def nextDelimiter? (delimiters : List Char) (c : Cursor) : Option (Landing c) :=
  match h : c.rest with
  | [] => none
  | x :: rest =>
    if delimiters.contains x then
      some ⟨x, c, c.past [x] rest h.symm, c.le_refl, c.moves_past h.symm⟩
    else
      let d : c.After :=
        match c.matchBalanced bracketGroups ['\\'] with
        | some (_, d) => d
        | none => c.next (Cursor.rest_ne_nil h)
      (nextDelimiter? delimiters d.1).map (Landing.ofLE (Cursor.le_of_lt d.2))
termination_by c.rest.length
decreasing_by exact Cursor.length_lt_of_lt d.2

theorem nextDelimiter?_delimiter_mem {delimiters : List Char} {c : Cursor} {landing : Landing c}
    (h : nextDelimiter? delimiters c = some landing) : landing.delimiter ∈ delimiters := by
  fun_induction nextDelimiter? delimiters c with
  | case1 => simp at h
  | case2 c x rest hrest hmem =>
    obtain rfl := Option.some.inj h
    simpa using hmem
  | case3 =>
    rename_i ih
    obtain ⟨inner, hinner, rfl⟩ := Option.map_eq_some_iff.mp h
    exact ih hinner

/-- Away from a delimiter the walk moves on. -/
theorem lt_here_of_nextDelimiter? {delimiters : List Char} {c : Cursor} {landing : Landing c}
    {x : Char} {rest : List Char} (hrest : c.rest = x :: rest) (hx : x ∉ delimiters)
    (h : nextDelimiter? delimiters c = some landing) : c < landing.here := by
  rw [nextDelimiter?] at h
  split at h
  · simp at h
  · rename_i y _ hy
    obtain ⟨rfl, rfl⟩ := List.cons.inj (hrest.symm.trans hy)
    rw [if_neg (by simpa using hx)] at h
    obtain ⟨inner, _, rfl⟩ := Option.map_eq_some_iff.mp h
    exact Cursor.lt_of_lt_of_le (Subtype.property _) inner.reach

/-! ### The same as a search -/

namespace Cursor

/-- Search from `scan` on for the next of the delimiters, and say how far behind `c` it stands.  The
search stops at delimiters and at opening brackets; from a bracket it goes on behind the balanced
group, or behind the bracket if there is none. -/
def findDelimiterFrom (c : Cursor) (delimiters : List Char) (scan : Cursor) : Option Found :=
  match scan.find ((delimiters ++ ['(', '[', '{']).map fun stop => [stop]) none with
  | none => none
  | some hit =>
    if (delimiters.map fun delimiter => [delimiter]).contains hit.needle then
      let offset := scan.position - c.position + (hit.start.position - scan.position)
      some ⟨hit.needle, offset, offset + byteLength hit.needle⟩
    else
      match hit.start.matchBalanced bracketGroups ['\\'] with
      | some (_, d) => c.findDelimiterFrom delimiters d.1
      | none => c.findDelimiterFrom delimiters (hit.start.advance (byteLength hit.needle))
termination_by scan.rest.length
decreasing_by
  · exact length_lt_of_lt (lt_of_le_of_lt hit.le_start d.2)
  · have hne : hit.start.rest ≠ [] := by simp [hit.spell.rest_eq, hit.ne_nil]
    exact length_lt_of_lt (lt_of_le_of_lt hit.le_start
      (lt_advance hne (byteLength_pos_iff.mpr hit.ne_nil)))

/-- The next of up to three delimiters that lies outside any balanced group. -/
def findDelimiter (c : Cursor) (delimiters : List Char) : Option Found :=
  c.findDelimiterFrom (delimiters.take 3) c

end Cursor

end DataTemplate
