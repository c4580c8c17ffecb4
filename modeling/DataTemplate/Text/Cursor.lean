/-
A place in a text.  A cursor knows the text after it and its byte position, and carries the proof
that both belong to one text, so no cursor ever stands inside a character.  Main statements: every
operation that moves a cursor forward moves it over exactly the text that it recognised.
-/
import DataTemplate.Text.Utf8
import DataTemplate.Text.CharClass
import DataTemplate.Text.Search
import DataTemplate.Text.Brackets
import DataTemplate.Text.LeadBytes

namespace DataTemplate

/-- A place in `source`: `rest` is the text from there on, `position` the bytes before it. -/
structure Cursor where
  source : List Char
  position : Nat
  rest : List Char
  splits : ∃ before, source = before ++ rest ∧ position = byteLength before
deriving DecidableEq

namespace Cursor

/-- The start of a text. -/
def ofText (source : List Char) : Cursor :=
  ⟨source, 0, source, [], rfl, rfl⟩

instance : Inhabited Cursor := ⟨ofText []⟩

/-- The length of the whole text in bytes. -/
def sourceLength (c : Cursor) : Nat := c.position + byteLength c.rest

theorem sourceLength_eq (c : Cursor) : c.sourceLength = byteLength c.source := by
  obtain ⟨before, hsource, hposition⟩ := c.splits
  simp [sourceLength, hsource, hposition]

theorem position_le_sourceLength (c : Cursor) : c.position ≤ c.sourceLength :=
  Nat.le_add_right _ _

/-- Whether nothing is left. -/
def atEnd (c : Cursor) : Bool := c.rest.isEmpty

/-! ### Moving forward -/

/-- `d` stands right after `text`, which starts at `c`. -/
structure Moves (c : Cursor) (text : List Char) (d : Cursor) : Prop where
  source_eq : d.source = c.source
  rest_eq : c.rest = text ++ d.rest
  position_eq : d.position = c.position + byteLength text

theorem Moves.refl (c : Cursor) : c.Moves [] c := ⟨rfl, rfl, rfl⟩

theorem Moves.trans {c d e : Cursor} {xs ys : List Char} (h : c.Moves xs d) (k : d.Moves ys e) :
    c.Moves (xs ++ ys) e where
  source_eq := k.source_eq.trans h.source_eq
  rest_eq := by rw [h.rest_eq, k.rest_eq, List.append_assoc]
  position_eq := by rw [k.position_eq, h.position_eq, byteLength_append, Nat.add_assoc]

/-- The cursor right after `text`. -/
def past (c : Cursor) (text rest : List Char) (h : text ++ rest = c.rest) : Cursor where
  source := c.source
  position := c.position + byteLength text
  rest := rest
  splits := by
    obtain ⟨before, hsource, hposition⟩ := c.splits
    exact ⟨before ++ text, by simp [hsource, ← h], by simp [hposition]⟩

theorem moves_past (c : Cursor) {text rest : List Char} (h : text ++ rest = c.rest) :
    c.Moves text (c.past text rest h) := ⟨rfl, h.symm, rfl⟩

/-- `c ≤ d`: `d` is at `c` or further on in the same text. -/
instance : LE Cursor := ⟨fun c d => ∃ text, c.Moves text d⟩

/-- `c < d`: `d` is further on than `c` in the same text. -/
instance : LT Cursor := ⟨fun c d => ∃ text, text ≠ [] ∧ c.Moves text d⟩

theorem Moves.le {c d : Cursor} {text : List Char} (h : c.Moves text d) : c ≤ d := ⟨text, h⟩

theorem Moves.lt {c d : Cursor} {text : List Char} (h : c.Moves text d) (hne : text ≠ []) :
    c < d := ⟨text, hne, h⟩

theorem le_refl (c : Cursor) : c ≤ c := (Moves.refl c).le

theorem le_of_lt {c d : Cursor} : c < d → c ≤ d := fun ⟨text, _, h⟩ => ⟨text, h⟩

theorem le_trans {c d e : Cursor} : c ≤ d → d ≤ e → c ≤ e :=
  fun ⟨_, h⟩ ⟨_, k⟩ => (h.trans k).le

theorem lt_of_lt_of_le {c d e : Cursor} : c < d → d ≤ e → c < e :=
  fun ⟨xs, hne, h⟩ ⟨ys, k⟩ => (h.trans k).lt (by simp [hne])

theorem lt_of_le_of_lt {c d e : Cursor} : c ≤ d → d < e → c < e :=
  fun ⟨xs, h⟩ ⟨ys, hne, k⟩ => (h.trans k).lt (by simp [hne])

theorem lt_trans {c d e : Cursor} (h : c < d) (k : d < e) : c < e :=
  lt_of_lt_of_le h (le_of_lt k)

theorem length_le_of_le {c d : Cursor} : c ≤ d → d.rest.length ≤ c.rest.length := by
  rintro ⟨text, h⟩
  simp [h.rest_eq]

theorem length_lt_of_lt {c d : Cursor} : c < d → d.rest.length < c.rest.length := by
  rintro ⟨text, hne, h⟩
  have := List.length_pos_iff.mpr hne
  simp [h.rest_eq]
  omega

theorem position_le_of_le {c d : Cursor} : c ≤ d → c.position ≤ d.position := by
  rintro ⟨text, h⟩
  simp [h.position_eq]

theorem position_lt_of_lt {c d : Cursor} : c < d → c.position < d.position := by
  rintro ⟨text, hne, h⟩
  have := byteLength_pos_iff.mpr hne
  rw [h.position_eq]
  omega

theorem sourceLength_eq_of_le {c d : Cursor} : c ≤ d → d.sourceLength = c.sourceLength := by
  rintro ⟨text, h⟩
  simp [sourceLength_eq, h.source_eq]

/-- A cursor at or after `c`. -/
abbrev From (c : Cursor) := { d : Cursor // c ≤ d }

/-- A cursor after `c`. -/
abbrev After (c : Cursor) := { d : Cursor // c < d }

/-- The text between a cursor and a later one. -/
def textTo (c d : Cursor) : List Char :=
  (cutBytes (d.position - c.position) c.rest).1

theorem Moves.textTo_eq {c d : Cursor} {text : List Char} (h : c.Moves text d) :
    c.textTo d = text := by
  rw [textTo, h.position_eq, Nat.add_sub_cancel_left, h.rest_eq, cutBytes_byteLength]

/-! ### Steps of a given size -/

/-- The text of the next `n` bytes, widened to whole characters. -/
def peek (c : Cursor) (n : Nat) : List Char := (cutBytes n c.rest).1

/-- The place `n` bytes further on, widened to the next boundary and at most the end. -/
def advance (c : Cursor) (n : Nat) : Cursor :=
  c.past (c.peek n) (cutBytes n c.rest).2 (cutBytes_append n c.rest)

theorem moves_advance (c : Cursor) (n : Nat) : c.Moves (c.peek n) (c.advance n) :=
  c.moves_past (cutBytes_append n c.rest)

theorem lt_advance {c : Cursor} (h : c.rest ≠ []) {n : Nat} (hn : 0 < n) : c < c.advance n :=
  (c.moves_advance n).lt (cutBytes_ne_nil hn h)

/-- The boundary at or after an absolute position. -/
def jumpTo (c : Cursor) (position : Nat) : Cursor :=
  (ofText c.source).advance position

/-- The end of the text. -/
def toEnd (c : Cursor) : Cursor :=
  c.past c.rest [] (by simp)

theorem moves_toEnd (c : Cursor) : c.Moves c.rest c.toEnd := c.moves_past (by simp)

theorem le_toEnd (c : Cursor) : c ≤ c.toEnd := c.moves_toEnd.le

theorem lt_toEnd {c : Cursor} (h : c.rest ≠ []) : c < c.toEnd := c.moves_toEnd.lt h

theorem rest_ne_nil {c : Cursor} {x : Char} {xs : List Char} (h : c.rest = x :: xs) :
    c.rest ≠ [] := by
  simp [h]

/-- The place after the next character. -/
def next (c : Cursor) (h : c.rest ≠ []) : c.After :=
  ⟨c.past [c.rest.head h] c.rest.tail (by simp), (c.moves_past _).lt (by simp)⟩

/-! ### Recognising text -/

/-- Whether a text starts here. -/
def startsWith (c : Cursor) (text : List Char) : Bool := text.isPrefixOf c.rest

/-- The place after a text, if that text starts here. -/
def matchLiteral (c : Cursor) (text : List Char) : Option Cursor :=
  if h : text <+: c.rest then
    some (c.past text (c.rest.drop text.length) (List.prefix_iff_eq_append.mp h))
  else none

/-- The longest run of characters of a class. -/
def runOf (c : Cursor) (p : Char → Bool) : List Char := c.rest.takeWhile p

/-- The place after the longest run of characters of a class. -/
def matchWhile (c : Cursor) (p : Char → Bool) : Cursor :=
  c.past (c.runOf p) (c.rest.dropWhile p) (by simp [runOf, List.takeWhile_append_dropWhile])

theorem moves_matchWhile (c : Cursor) (p : Char → Bool) :
    c.Moves (c.runOf p) (c.matchWhile p) := c.moves_past _

/-- The place after the white space here. -/
def skipBlanks (c : Cursor) : Cursor := c.matchWhile isBlank

theorem le_skipBlanks (c : Cursor) : c ≤ c.skipBlanks := (c.moves_matchWhile isBlank).le

/-- The balanced bracket run here, and the place after it. -/
def matchBalanced (c : Cursor) (pairs : List (Char × Char)) (escapes : List Char) :
    Option (List Char × c.After) :=
  match h : balancedRun pairs escapes c.rest with
  | none => none
  | some (run, rest) =>
    some (run, ⟨c.past run rest (balancedRun_append h),
      (c.moves_past _).lt (balancedRun_ne_nil h)⟩)

/-- Take the balanced bracket run here: the run, and the place where that leaves the cursor. -/
def takeBalanced (c : Cursor) (pairs : List (Char × Char)) (escapes : List Char) :
    Option (List Char) × Cursor :=
  match c.matchBalanced pairs escapes with
  | some (run, d) => (some run, d.1)
  | none => (none, c)

/-! ### Searching -/

/-- A needle met at or after `c`: it stands between `start` and `stop`. -/
structure Hit (c : Cursor) (needles : List (List Char)) where
  before : List Char
  needle : List Char
  start : Cursor
  stop : Cursor
  reach : c.Moves before start
  spell : start.Moves needle stop
  mem : needle ∈ needles
  ne_nil : needle ≠ []

theorem Hit.le_start {c : Cursor} {needles : List (List Char)} (hit : c.Hit needles) :
    c ≤ hit.start := hit.reach.le

theorem Hit.start_lt_stop {c : Cursor} {needles : List (List Char)} (hit : c.Hit needles) :
    hit.start < hit.stop := hit.spell.lt hit.ne_nil

theorem Hit.lt_stop {c : Cursor} {needles : List (List Char)} (hit : c.Hit needles) :
    c < hit.stop := lt_of_le_of_lt hit.le_start hit.start_lt_stop

/-- The leftmost occurrence of a needle from here on. -/
def find (c : Cursor) (needles : List (List Char)) (escape : Option Char) :
    Option (c.Hit needles) :=
  match h : search needles escape c.rest with
  | none => none
  | some found =>
    have hin := search_in h
    let start := c.past found.before (found.needle ++ found.after)
      (by rw [← hin.spelled, List.append_assoc])
    some {
      before := found.before
      needle := found.needle
      start := start
      stop := start.past found.needle found.after rfl
      reach := c.moves_past _
      spell := start.moves_past _
      mem := hin.mem
      ne_nil := hin.ne_nil }

/-- A needle and where it was met, in bytes from the cursor that the search was asked of. -/
structure Found where
  needle : List Char
  offset : Nat
  endOffset : Nat
deriving DecidableEq, Repr

/-- The first needle from here on, and where it starts, by lead bytes. -/
def findByLead (finder : ByteFinder) (start : Cursor) (needles : List (List Char))
    (escape : Option Char) : Except InsideCharacter (Option (List Char × Nat)) :=
  let lead := LeadBytes.ofList (leadBytesOf needles escape)
  if lead.count = 0 then .ok none
  else findLead finder lead needles escape start.source (utf8Bytes start.source) start.position

/-- Where a search begins that looks at least `since` bytes further on. -/
def searchStart (c : Cursor) (since : Nat) : Cursor := c.jumpTo (c.position + since)

/-- The leftmost occurrence of a needle at least `since` bytes further on, by lead bytes. -/
def findFromBy (finder : ByteFinder) (c : Cursor) (since : Nat) (needles : List (List Char))
    (escape : Option Char) : Except InsideCharacter (Option Found) := do
  let found ← (c.searchStart since).findByLead finder needles escape
  return found.map fun (needle, start) =>
    ⟨needle, start - c.position, start - c.position + byteLength needle⟩

/-- The leftmost occurrence of a needle at least `since` bytes further on. -/
def findFrom (c : Cursor) (since : Nat) (needles : List (List Char)) (escape : Option Char) :
    Option Found :=
  (c.findFromBy .plain since needles escape).toOption.join

/-- The same search where positions are words of 64 bits.  The place where it begins, and what it
reports, are sums and differences of words, which wrap around where they do not fit. -/
def findFromWord (finder : ByteFinder) (c : Cursor) (since : UInt64) (needles : List (List Char))
    (escape : Option Char) : Except InsideCharacter (Option Found) := do
  let position := UInt64.ofNat c.position
  let found ← (c.jumpTo (position + since).toNat).findByLead finder needles escape
  return found.map fun (needle, start) =>
    let offset := UInt64.ofNat start - position
    ⟨needle, offset.toNat, (offset + UInt64.ofNat (byteLength needle)).toNat⟩

end Cursor

end DataTemplate
