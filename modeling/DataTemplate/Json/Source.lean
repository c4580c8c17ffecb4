/-
Strict reading of JSON text.  The tree that is read keeps strings and numbers as they are written:
text that nobody asks for need only follow the grammar, and a string becomes text when it is asked
for, which fails if its escapes leave half of a surrogate pair.
-/
import DataTemplate.Number.Scaled
import DataTemplate.Text.Escape

namespace DataTemplate

/-- A JSON value as it is written: strings by the text between their quotes, and the members of an
object in order, with repeated names. -/
inductive JsonSource where
  | null
  | boolean (value : Bool)
  | number (numeral : Numeral)
  | string (body : List Char)
  | array (elements : List JsonSource)
  | object (members : List (List Char × JsonSource))

namespace JsonSource

/-! ### Strings -/

/-- Whether a character may follow a backslash in a JSON string, other than `u`. -/
def isShortEscape (c : Char) : Bool :=
  c == '\x22' || c == '\\' || c == '/' || c == 'b' || c == 'f' || c == 'n' || c == 'r' || c == 't'

/-- The text of a string up to its closing quote, and the text after that. -/
def scanString : List Char → Option (List Char × List Char)
  | [] => none
  | '\x22' :: cs => some ([], cs)
  | '\\' :: 'u' :: a :: b :: c :: d :: cs =>
    if [a, b, c, d].all isHexDigit then
      (scanString cs).map fun (body, rest) => ('\\' :: 'u' :: a :: b :: c :: d :: body, rest)
    else none
  | '\\' :: c :: cs =>
    if isShortEscape c then (scanString cs).map fun (body, rest) => ('\\' :: c :: body, rest)
    else none
  | c :: cs =>
    if c == '\\' || c.toNat < 0x20 then none
    else (scanString cs).map fun (body, rest) => (c :: body, rest)

/-- The escape of half of a surrogate pair that stands alone at the start of a string. -/
def loneSurrogateAt (body : List Char) : Bool :=
  match body with
  | '\\' :: 'u' :: cs =>
    match hexCode? 4 cs with
    | some (code, rest) =>
      if 0xD800 ≤ code && code < 0xDC00 then (lowSurrogate? rest).isNone
      else 0xDC00 ≤ code && code < 0xE000
    | none => false
  | _ => false

/-- The text of a string, if no half of a surrogate pair stands alone in it. -/
def decodeString : List Char → Option (List Char)
  | [] => some []
  | c :: cs =>
    if c = '\\' then
      if loneSurrogateAt (c :: cs) then none
      else (decodeString (decodeEscape cs).2).map ((decodeEscape cs).1 ++ ·)
    else (decodeString cs).map (c :: ·)
termination_by cs => cs.length
decreasing_by
  · have := decodeEscape_length_le cs
    simp
    omega
  · simp

/-! ### Numbers -/

/-- Whether a numeral is one of JSON's: it has no plus sign in front and no needless zeros, and a
digit on either side of a point. -/
def isJsonNumeral (numeral : Numeral) : Bool :=
  match numeral with
  | ⟨sign, .decimal whole fraction _⟩ =>
    sign != some .plus && !whole.isEmpty && (whole.length == 1 || whole.head? != some '0')
      && fraction != some []
  | _ => false

/-- The number at the start of a text. -/
def scanNumber (cs : List Char) : Option (Numeral × List Char) :=
  let (sign, tail) := scanSign cs
  let whole := tail.takeWhile isDecimalDigit
  let (fraction, tail) := scanFraction (tail.dropWhile isDecimalDigit)
  let (exponent, rest) := scanExponent tail
  let numeral : Numeral := ⟨sign, .decimal whole fraction exponent⟩
  if isJsonNumeral numeral then some (numeral, rest) else none

/-! ### Values -/

/-- The white space of JSON. -/
def isJsonSpace (c : Char) : Bool := c == ' ' || c == '\n' || c == '\t' || c == '\r'

/-- The text after leading white space. -/
def skipSpace (cs : List Char) : List Char := cs.dropWhile isJsonSpace

theorem skipSpace_length_le (cs : List Char) : (skipSpace cs).length ≤ cs.length :=
  (List.dropWhile_suffix _).length_le

/-- What a scanner gives that leaves less than it was given. -/
abbrev Shorter (α : Type) (cs : List Char) :=
  Option (α × { rest : List Char // rest.length < cs.length })

/-- The text after a given first character and the white space in front of it. -/
theorem length_lt_of_skipSpace {cs rest : List Char} {c : Char} (h : skipSpace cs = c :: rest) :
    rest.length < cs.length := by
  have := skipSpace_length_le cs
  simp only [h, List.length_cons] at this
  omega

/-- The words of JSON. -/
def scanWord : List Char → Option (JsonSource × List Char)
  | 't' :: 'r' :: 'u' :: 'e' :: cs => some (boolean true, cs)
  | 'f' :: 'a' :: 'l' :: 's' :: 'e' :: cs => some (boolean false, cs)
  | 'n' :: 'u' :: 'l' :: 'l' :: cs => some (null, cs)
  | _ => none

theorem scanWord_length_lt {cs rest : List Char} {value : JsonSource}
    (h : scanWord cs = some (value, rest)) : rest.length < cs.length := by
  unfold scanWord at h
  split at h <;> simp_all <;> omega

theorem scanNumber_length_lt {cs rest : List Char} {numeral : Numeral}
    (h : scanNumber cs = some (numeral, rest)) : rest.length < cs.length := by
  simp only [scanNumber] at h
  split at h
  · rename_i hjson
    obtain ⟨rfl, rfl⟩ := Prod.mk.inj (Option.some.inj h)
    have hsign := congrArg List.length (scanSign_append cs)
    have hwhole := congrArg List.length
      (List.takeWhile_append_dropWhile (p := isDecimalDigit) (l := (scanSign cs).2))
    have hfraction := congrArg List.length
      (scanFraction_append ((scanSign cs).2.dropWhile isDecimalDigit))
    have hexponent := congrArg List.length
      (scanExponent_append (scanFraction ((scanSign cs).2.dropWhile isDecimalDigit)).2)
    have hne : 0 < ((scanSign cs).2.takeWhile isDecimalDigit).length := by
      rw [List.length_pos_iff]
      intro hnil
      simp [isJsonNumeral, hnil] at hjson
    simp only [List.length_append] at *
    omega
  · simp at h

theorem scanString_length_lt {cs body rest : List Char} (h : scanString cs = some (body, rest)) :
    rest.length < cs.length := by
  fun_induction scanString cs generalizing body rest <;>
    simp_all [Option.map_eq_some_iff] <;> grind

/-- A word or a number at the start of a text. -/
def scanPlain (cs : List Char) : Option (JsonSource × List Char) :=
  (scanWord cs).or ((scanNumber cs).map fun (numeral, rest) => (number numeral, rest))

theorem scanPlain_length_lt {cs rest : List Char} {value : JsonSource}
    (h : scanPlain cs = some (value, rest)) : rest.length < cs.length := by
  rcases Option.or_eq_some_iff.mp h with h | ⟨_, h⟩
  · exact scanWord_length_lt h
  · obtain ⟨⟨numeral, tail⟩, hscan, heq⟩ := Option.map_eq_some_iff.mp h
    obtain ⟨_, rfl⟩ := Prod.mk.inj heq
    exact scanNumber_length_lt hscan

mutual

/-- The value at the start of a text, after white space. -/
def scanValue (cs : List Char) : Shorter JsonSource cs :=
  match h : skipSpace cs with
  | '[' :: inner =>
    have hinner := length_lt_of_skipSpace h
    match hclose : skipSpace inner with
    | ']' :: rest =>
      some (array [], ⟨rest, Nat.lt_trans (length_lt_of_skipSpace hclose) hinner⟩)
    | _ =>
      match scanElements inner with
      | none => none
      | some (elements, rest) => some (array elements, ⟨rest.1, Nat.lt_trans rest.2 hinner⟩)
  | '\x7b' :: inner =>
    have hinner := length_lt_of_skipSpace h
    match hclose : skipSpace inner with
    | '\x7d' :: rest =>
      some (object [], ⟨rest, Nat.lt_trans (length_lt_of_skipSpace hclose) hinner⟩)
    | _ =>
      match scanMembers inner with
      | none => none
      | some (members, rest) => some (object members, ⟨rest.1, Nat.lt_trans rest.2 hinner⟩)
  | '\x22' :: inner =>
    match hbody : scanString inner with
    | none => none
    | some (body, rest) =>
      some (string body,
        ⟨rest, Nat.lt_trans (scanString_length_lt hbody) (length_lt_of_skipSpace h)⟩)
  | text =>
    match hplain : scanPlain text with
    | none => none
    | some (value, rest) =>
      some (value,
        ⟨rest, Nat.lt_of_lt_of_le (scanPlain_length_lt hplain) (h ▸ skipSpace_length_le cs)⟩)
termination_by (cs.length, 0)
decreasing_by all_goals exact Prod.Lex.left _ _ hinner

/-- The elements of an array from the next one on. -/
def scanElements (cs : List Char) : Shorter (List JsonSource) cs :=
  match scanValue cs with
  | none => none
  | some (element, ⟨tail, htail⟩) =>
    match h : skipSpace tail with
    | ']' :: rest => some ([element], ⟨rest, Nat.lt_trans (length_lt_of_skipSpace h) htail⟩)
    | ',' :: rest =>
      have hrest := Nat.lt_trans (length_lt_of_skipSpace h) htail
      match scanElements rest with
      | none => none
      | some (elements, last) => some (element :: elements, ⟨last.1, Nat.lt_trans last.2 hrest⟩)
    | _ => none
termination_by (cs.length, 1)
decreasing_by
  · exact Prod.Lex.right _ (by omega)
  · exact Prod.Lex.left _ _ hrest

/-- The members of an object from the next one on. -/
def scanMembers (cs : List Char) : Shorter (List (List Char × JsonSource)) cs :=
  match hquote : skipSpace cs with
  | '\x22' :: inner =>
    match hname : scanString inner with
    | none => none
    | some (name, tail) =>
      match hcolon : skipSpace tail with
      | ':' :: after =>
        have hafter : after.length < cs.length :=
          Nat.lt_trans (length_lt_of_skipSpace hcolon)
            (Nat.lt_trans (scanString_length_lt hname) (length_lt_of_skipSpace hquote))
        match scanValue after with
        | none => none
        | some (value, ⟨tail, htail⟩) =>
          match h : skipSpace tail with
          | '\x7d' :: rest =>
            some ([(name, value)],
              ⟨rest, Nat.lt_trans (length_lt_of_skipSpace h) (Nat.lt_trans htail hafter)⟩)
          | ',' :: rest =>
            have hrest := Nat.lt_trans (length_lt_of_skipSpace h) (Nat.lt_trans htail hafter)
            match scanMembers rest with
            | none => none
            | some (members, last) =>
              some ((name, value) :: members, ⟨last.1, Nat.lt_trans last.2 hrest⟩)
          | _ => none
      | _ => none
  | _ => none
termination_by (cs.length, 1)
decreasing_by
  · exact Prod.Lex.left _ _ hafter
  · exact Prod.Lex.left _ _ hrest

end

/-- Read a text that holds one JSON value, with white space around it and nothing else. -/
def read (text : List Char) : Option JsonSource :=
  match scanValue text with
  | none => none
  | some (value, rest) => if (skipSpace rest.1).isEmpty then some value else none

/-! ### Looking into a value -/

/-- The text of a string. -/
def text? : JsonSource → Option String
  | string body => (decodeString body).map String.ofList
  | _ => none

/-- The value of a boolean. -/
def boolean? : JsonSource → Option Bool
  | boolean value => some value
  | _ => none

mutual

/-- How deep arrays and objects are nested. -/
def depth : JsonSource → Nat
  | array elements => depthOfElements elements + 1
  | object members => depthOfMembers members + 1
  | _ => 0

/-- The depth of the deepest element. -/
def depthOfElements : List JsonSource → Nat
  | [] => 0
  | element :: elements => max element.depth (depthOfElements elements)

/-- The depth of the deepest member. -/
def depthOfMembers : List (List Char × JsonSource) → Nat
  | [] => 0
  | (_, value) :: members => max value.depth (depthOfMembers members)

end

/-- Whether a numeral is in range of double precision. -/
def isNumeralInRange (numeral : Numeral) : Bool :=
  match numeral.magnitude with
  | .inRadix _ _ => false
  | .decimal whole fraction exponent =>
    let power := (exponent.map Exponent.power).getD 0
    (ScaledDecimal.ofParts whole (fraction.getD []) power).isInRange

mutual

/-- Whether all strings have a text and all numbers are in range. -/
def isMeaningful : JsonSource → Bool
  | string body => (decodeString body).isSome
  | number numeral => isNumeralInRange numeral
  | array elements => meaningfulElements elements
  | object members => meaningfulMembers members
  | _ => true

/-- Whether all elements are meaningful. -/
def meaningfulElements : List JsonSource → Bool
  | [] => true
  | element :: elements => element.isMeaningful && meaningfulElements elements

/-- Whether all members are meaningful, names included. -/
def meaningfulMembers : List (List Char × JsonSource) → Bool
  | [] => true
  | (name, value) :: members =>
    (decodeString name).isSome && value.isMeaningful && meaningfulMembers members

end

end JsonSource

end DataTemplate
