/-
Keywords, numbers and bare identifiers.
-/
import DataTemplate.Number.Numeral
import DataTemplate.Reading.Interpolation

namespace DataTemplate

variable {σ : Type}

/-- The keywords and what they mean, in the order in which they are tried. -/
def keywords : List (List Char × Meaning) := [
  (['t', 'r', 'u', 'e'], .boolean true),
  (['f', 'a', 'l', 's', 'e'], .boolean false),
  (['n', 'u', 'l', 'l'], .nullish),
  (['u', 'n', 'd', 'e', 'f', 'i', 'n', 'e', 'd'], .nullish),
  (['I', 'n', 'f', 'i', 'n', 'i', 't', 'y'], .number (.infinity false)),
  (['N', 'a', 'N'], .number .nan),
  (['-', 'I', 'n', 'f', 'i', 'n', 'i', 't', 'y'], .number (.infinity true)),
  (['+', 'I', 'n', 'f', 'i', 'n', 'i', 't', 'y'], .number (.infinity false))]

/-- Whether a word starts a text and is not the start of a longer word there. -/
def wordAt (word text : List Char) : Bool :=
  word.isPrefixOf text && !((text.drop word.length).head?.any isIdentifierContinue)

/-- The keyword at the start of a text, and its meaning. -/
def keywordAt? (text : List Char) : Option (List Char × Meaning) :=
  keywords.find? fun (word, _) => wordAt word text

theorem keywordAt?_append {text word : List Char} {meaning : Meaning}
    (h : keywordAt? text = some (word, meaning)) :
    word ++ text.drop word.length = text ∧ word ≠ [] := by
  have hmem := List.mem_of_find?_eq_some h
  have hword := List.find?_some h
  simp only [wordAt, Bool.and_eq_true, List.isPrefixOf_iff_prefix] at hword
  refine ⟨List.prefix_iff_eq_append.mp hword.1, ?_⟩
  rintro rfl
  simp [keywords] at hmem

/-- The words of a literal at the start of a text, its meaning, and the text after it. -/
def literalAt? (text : List Char) : Option (List Char × Meaning × List Char) :=
  match keywordAt? text with
  | some (word, meaning) => some (word, meaning, text.drop word.length)
  | none =>
    (Numeral.scan text).map fun (numeral, rest) =>
      (numeral.text, .number numeral.value, rest)

theorem literalAt?_append {text raw rest : List Char} {meaning : Meaning}
    (h : literalAt? text = some (raw, meaning, rest)) : raw ++ rest = text ∧ raw ≠ [] := by
  unfold literalAt? at h
  split at h
  · rename_i word meaning hword
    obtain ⟨rfl, _, rfl⟩ := by simpa using h
    exact keywordAt?_append hword
  · obtain ⟨⟨numeral, tail⟩, hscan, heq⟩ := Option.map_eq_some_iff.mp h
    obtain ⟨rfl, _, rfl⟩ := by simpa using heq
    exact ⟨Numeral.scan_append hscan, Numeral.scan_text_ne_nil hscan⟩

/-- The keyword or number literal here. -/
def Scalar.scan (c : Cursor) : Option (Scalar × c.After) :=
  match h : literalAt? c.rest with
  | none => none
  | some (raw, meaning, rest) =>
    have hraw := literalAt?_append h
    let d := c.past raw rest hraw.1
    some (⟨⟨c.position, d.position⟩, String.ofList raw, meaning⟩,
      ⟨d, (c.moves_past hraw.1).lt hraw.2⟩)

/-- Read the keyword or number literal here. -/
def readScalar (c : Cursor) (s : Session σ) : Reading σ Scalar c :=
  match Scalar.scan c with
  | none => (none, s)
  | some (scalar, d) => (some (scalar, d), s.observe (.value (.scalar scalar)))

theorem Cursor.runOf_ne_nil {c : Cursor} {p : Char → Bool} (h : c.rest.head?.any p = true) :
    c.runOf p ≠ [] := by
  cases hrest : c.rest with
  | nil => simp [hrest] at h
  | cons x xs =>
    have : p x = true := by simpa [hrest] using h
    simp [runOf, hrest, this]

theorem head?_any_continue {text : List Char} (h : text.head?.any isIdentifierStart = true) :
    text.head?.any isIdentifierContinue = true := by
  cases text with
  | nil => simp at h
  | cons x xs => simpa using isIdentifierContinue_of_start (by simpa using h)

/-- The bare identifier here. -/
def Identifier.scan (c : Cursor) : Option (Identifier × c.After) :=
  if h : c.rest.head?.any isIdentifierStart then
    let d := c.matchWhile isIdentifierContinue
    some (⟨⟨c.position, d.position⟩, String.ofList (c.runOf isIdentifierContinue)⟩,
      ⟨d, (c.moves_matchWhile _).lt (Cursor.runOf_ne_nil (head?_any_continue h))⟩)
  else none

/-- Read the bare identifier here. -/
def readIdentifier (c : Cursor) (s : Session σ) : Reading σ Identifier c :=
  match Identifier.scan c with
  | none => (none, s)
  | some (identifier, d) => (some (identifier, d), s.observe (.identifier identifier))

/-- Read the key of a property here: a quoted string, an expression or a bare identifier. -/
def readKey (c : Cursor) (s : Session σ) : Reading σ Key c :=
  match readText c s with
  | (some (text, d), s) => (some (.text text, d), s)
  | (none, s) =>
    match readExpression c s with
    | (some (e, d), s) => (some (.expression e, d), s)
    | (none, s) =>
      match readIdentifier c s with
      | (some (identifier, d), s) => (some (.identifier identifier, d), s)
      | (none, s) => (none, s)

end DataTemplate
