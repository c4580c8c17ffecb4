/-
Searching a text for the first of several needles, with an optional escape character that hides
the character after it.  Main statement: the text before an occurrence, the needle and the text
after it make up the text that was searched.
-/

namespace DataTemplate

/-- What stands in a list of two parts stands in the first part or in the second. -/
theorem append_cons_eq_append_iff {α : Type} {x : α} {before after xs ys : List α} :
    before ++ x :: after = xs ++ ys ↔
      (∃ more, xs = before ++ x :: more ∧ after = more ++ ys) ∨
        ∃ between, before = xs ++ between ∧ ys = between ++ x :: after := by
  constructor
  · intro h
    rcases List.append_eq_append_iff.mp h with ⟨more, hxs, hmore⟩ | ⟨between, hbefore, hys⟩
    · cases more with
      | nil => exact .inr ⟨[], by simp [hxs], hmore.symm⟩
      | cons y more =>
        obtain ⟨rfl, rfl⟩ := List.cons.inj hmore
        exact .inl ⟨more, hxs, rfl⟩
    · exact .inr ⟨between, hbefore, hys⟩
  · rintro (⟨more, rfl, rfl⟩ | ⟨between, rfl, rfl⟩)
    · simp
    · simp

/-- A needle met in a text, with the text on either side of it. -/
structure Occurrence where
  before : List Char
  needle : List Char
  after : List Char
deriving DecidableEq, Repr

/-- The same occurrence in a text that has `chars` in front. -/
def Occurrence.behind (chars : List Char) (found : Occurrence) : Occurrence :=
  { found with before := chars ++ found.before }

/-- The first needle of the list that the text starts with; empty needles are ignored. -/
def needleAt? (needles : List (List Char)) (text : List Char) : Option (List Char) :=
  needles.find? fun needle => !needle.isEmpty && needle.isPrefixOf text

/-- The leftmost occurrence of a needle.  At each character an escape hides itself and the next
character; otherwise the first needle of the list that starts there is the answer. -/
def search (needles : List (List Char)) (escape : Option Char) : List Char → Option Occurrence
  | [] => none
  | c :: cs =>
    if escape == some c then
      match cs with
      | [] => none
      | d :: ds => (search needles escape ds).map (Occurrence.behind [c, d])
    else
      match needleAt? needles (c :: cs) with
      | some needle => some ⟨[], needle, (c :: cs).drop needle.length⟩
      | none => (search needles escape cs).map (Occurrence.behind [c])

theorem needleAt?_mem {needles : List (List Char)} {text needle : List Char}
    (h : needleAt? needles text = some needle) : needle ∈ needles :=
  List.mem_of_find?_eq_some h

theorem needleAt?_ne_nil {needles : List (List Char)} {text needle : List Char}
    (h : needleAt? needles text = some needle) : needle ≠ [] := by
  have := List.find?_some h
  simp_all

theorem needleAt?_append {needles : List (List Char)} {text needle : List Char}
    (h : needleAt? needles text = some needle) :
    needle ++ text.drop needle.length = text := by
  have := List.find?_some h
  simp only [Bool.and_eq_true, List.isPrefixOf_iff_prefix] at this
  exact List.prefix_iff_eq_append.mp this.2

/-- What every answer of a search satisfies. -/
structure Occurrence.In (needles : List (List Char)) (text : List Char) (found : Occurrence) :
    Prop where
  spelled : found.before ++ found.needle ++ found.after = text
  mem : found.needle ∈ needles
  ne_nil : found.needle ≠ []

theorem Occurrence.In.behind {needles : List (List Char)} {text : List Char} {found : Occurrence}
    (h : found.In needles text) (chars : List Char) :
    (found.behind chars).In needles (chars ++ text) :=
  ⟨by simp [Occurrence.behind, ← h.spelled], h.mem, h.ne_nil⟩

theorem search_in {needles : List (List Char)} {escape : Option Char} {text : List Char}
    {found : Occurrence} (h : search needles escape text = some found) :
    found.In needles text := by
  fun_induction search needles escape text generalizing found with
  | case1 => simp at h
  | case2 => simp at h
  | case3 c _ d ds ih =>
    obtain ⟨inner, hinner, rfl⟩ := Option.map_eq_some_iff.mp h
    exact (ih hinner).behind [c, d]
  | case4 c cs _ needle hneedle =>
    obtain rfl := Option.some.inj h
    exact ⟨needleAt?_append hneedle, needleAt?_mem hneedle, needleAt?_ne_nil hneedle⟩
  | case5 c cs _ _ ih =>
    obtain ⟨inner, hinner, rfl⟩ := Option.map_eq_some_iff.mp h
    exact (ih hinner).behind [c]

example : search [[','], ['}']] none ['a', '}', 'b', ','] = some ⟨['a'], ['}'], ['b', ',']⟩ := by
  decide
example : search [['b']] (some '\\') ['a', '\\', 'b'] = none := by decide

end DataTemplate
