/-
Balanced bracket runs such as `(a[b])`, matched against a stack of the closers still expected.
Main statement: a run and the text after it make up the text that it was read from.
-/

namespace DataTemplate

/-- The closer that belongs to an opener, by the first pair that names it. -/
def closerOf? (pairs : List (Char × Char)) (c : Char) : Option Char :=
  (pairs.find? fun pair => pair.1 == c).map (·.2)

/-- Whether a character closes one of the pairs. -/
def isCloser (pairs : List (Char × Char)) (c : Char) : Bool :=
  pairs.any fun pair => pair.2 == c

/-- Put characters in front of the first part of a cut. -/
def behindCut (chars : List Char) (cut : List Char × List Char) : List Char × List Char :=
  (chars ++ cut.1, cut.2)

/-- Read up to the closer that empties the stack of expected closers, innermost first.  There is no
answer when a closer is met that is not the innermost one, or when the text ends. -/
def closeRun (pairs : List (Char × Char)) (escapes : List Char) :
    List Char → List Char → Option (List Char × List Char)
  | _, [] => none
  | expected, c :: cs =>
    if escapes.contains c then
      match cs with
      | [] => none
      | d :: ds => (closeRun pairs escapes expected ds).map (behindCut [c, d])
    else
      match closerOf? pairs c with
      | some closer => (closeRun pairs escapes (closer :: expected) cs).map (behindCut [c])
      | none =>
        if isCloser pairs c then
          match expected with
          | [] => none
          | closer :: outer =>
            if closer = c then
              if outer.isEmpty then some ([c], cs)
              else (closeRun pairs escapes outer cs).map (behindCut [c])
            else none
        else (closeRun pairs escapes expected cs).map (behindCut [c])

/-- The balanced run at the start of a text, and the text after it.  The run starts with an opener;
an escape hides the character after it. -/
def balancedRun (pairs : List (Char × Char)) (escapes : List Char) :
    List Char → Option (List Char × List Char)
  | [] => none
  | c :: cs =>
    match closerOf? pairs c with
    | none => none
    | some closer => (closeRun pairs escapes [closer] cs).map (behindCut [c])

theorem map_behindCut_eq_some {chars run rest : List Char} {cut : Option (List Char × List Char)} :
    cut.map (behindCut chars) = some (run, rest) ↔
      ∃ tail, cut = some (tail, rest) ∧ run = chars ++ tail := by
  cases cut with
  | none => simp
  | some cut => simp [behindCut, Prod.ext_iff]; grind

theorem closeRun_append {pairs : List (Char × Char)} {escapes expected text run rest : List Char}
    (h : closeRun pairs escapes expected text = some (run, rest)) : run ++ rest = text := by
  fun_induction closeRun pairs escapes expected text generalizing run rest <;>
    simp only [map_behindCut_eq_some, Option.some.injEq, Prod.mk.injEq, reduceCtorEq] at h <;>
    grind

theorem balancedRun_eq_some {pairs : List (Char × Char)} {escapes text run rest : List Char}
    (h : balancedRun pairs escapes text = some (run, rest)) :
    ∃ c closer tail, closerOf? pairs c = some closer ∧ run = c :: tail ∧
      text = c :: (tail ++ rest) := by
  cases text with
  | nil => simp [balancedRun] at h
  | cons c cs =>
    rw [balancedRun] at h
    split at h
    · simp at h
    · obtain ⟨tail, htail, hrun⟩ := map_behindCut_eq_some.mp h
      exact ⟨c, _, tail, ‹_›, hrun, by rw [closeRun_append htail]⟩

theorem balancedRun_append {pairs : List (Char × Char)} {escapes text run rest : List Char}
    (h : balancedRun pairs escapes text = some (run, rest)) : run ++ rest = text := by
  obtain ⟨c, _, tail, _, rfl, rfl⟩ := balancedRun_eq_some h
  rfl

theorem balancedRun_ne_nil {pairs : List (Char × Char)} {escapes text run rest : List Char}
    (h : balancedRun pairs escapes text = some (run, rest)) : run ≠ [] := by
  obtain ⟨c, _, tail, _, rfl, _⟩ := balancedRun_eq_some h
  simp

example : balancedRun [('(', ')'), ('[', ']')] ['\\'] ['(', '[', '\\', ')', ']', ')', 'c']
    = some (['(', '[', '\\', ')', ']', ')'], ['c']) := by decide
example : balancedRun [('(', ')'), ('[', ']')] [] ['(', 'a', ']'] = none := by decide

end DataTemplate
