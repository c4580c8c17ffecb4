/-
Searching the bytes of a text.  A needle or an escape can only start where its first byte stands, so
the search goes from one such lead byte to the next, and looks at the text only there.  The places
it comes to are computed in bytes; one that falls inside a character is a fault.
-/
import DataTemplate.Text.Search
import DataTemplate.Text.Utf8

namespace DataTemplate

/-! ### Bytes -/

/-- The bytes of a text in UTF-8. -/
def utf8Bytes (text : List Char) : List UInt8 := text.flatMap String.utf8EncodeChar

@[simp] theorem utf8Bytes_nil : utf8Bytes [] = [] := rfl

@[simp] theorem utf8Bytes_cons (c : Char) (cs : List Char) :
    utf8Bytes (c :: cs) = String.utf8EncodeChar c ++ utf8Bytes cs := rfl

@[simp] theorem utf8Bytes_append (xs ys : List Char) :
    utf8Bytes (xs ++ ys) = utf8Bytes xs ++ utf8Bytes ys := List.flatMap_append

@[simp] theorem length_utf8Bytes (text : List Char) :
    (utf8Bytes text).length = byteLength text := by
  induction text with
  | nil => rfl
  | cons c cs ih => simp [ih]

/-- The text from a byte position on.  There is none inside a character. -/
def textFrom? (source : List Char) (position : Nat) : Option (List Char) :=
  let cut := cutBytes position source
  if byteLength cut.1 = position then some cut.2 else none

theorem textFrom?_byteLength (xs ys : List Char) :
    textFrom? (xs ++ ys) (byteLength xs) = some ys := by
  rw [textFrom?, cutBytes_byteLength]
  exact if_pos rfl

/-! ### Lead bytes -/

/-- A way to search bytes: where the first of one, two or three bytes stands. -/
structure ByteFinder where
  one : UInt8 → List UInt8 → Option Nat
  two : UInt8 → UInt8 → List UInt8 → Option Nat
  three : UInt8 → UInt8 → UInt8 → List UInt8 → Option Nat

/-- The search that takes one byte after the other. -/
def ByteFinder.plain : ByteFinder where
  one a bytes := bytes.findIdx? fun byte => byte == a
  two a b bytes := bytes.findIdx? fun byte => byte == a || byte == b
  three a b c bytes := bytes.findIdx? fun byte => byte == a || byte == b || byte == c

/-- The distinct bytes that a search looks for: which they are, the first three of them, and how
many there are. -/
structure LeadBytes where
  table : Vector Bool 256
  first : Vector UInt8 3
  count : Nat

namespace LeadBytes

def empty : LeadBytes := ⟨.replicate 256 false, .replicate 3 0, 0⟩

/-- Whether a byte is one of them. -/
def has (lead : LeadBytes) (byte : UInt8) : Bool :=
  have := byte.toNat_lt
  lead.table[byte.toNat]

def insert (lead : LeadBytes) (byte : UInt8) : LeadBytes :=
  if lead.has byte then lead
  else ⟨lead.table.set byte.toNat true byte.toNat_lt, lead.first.setIfInBounds lead.count byte,
    lead.count + 1⟩

def ofList (bytes : List UInt8) : LeadBytes := bytes.foldl insert empty

/-- Where the next lead byte stands.  Up to three bytes are left to the finder. -/
def next? (finder : ByteFinder) (lead : LeadBytes) (bytes : List UInt8) : Option Nat :=
  match lead.count with
  | 1 => finder.one lead.first[0] bytes
  | 2 => finder.two lead.first[0] lead.first[1] bytes
  | 3 => finder.three lead.first[0] lead.first[1] lead.first[2] bytes
  | _ => bytes.findIdx? lead.has

end LeadBytes

/-- The first bytes of the needles and of the escape. -/
def leadBytesOf (needles : List (List Char)) (escape : Option Char) : List UInt8 :=
  (needles ++ escape.toList.map fun e => [e]).filterMap fun word => (utf8Bytes word).head?

/-! ### The search -/

/-- A position that falls inside a character. -/
structure InsideCharacter where
  position : Nat
deriving DecidableEq, Repr

/-- What an escape hides at the start of a text: itself and the next character. -/
def hiddenAt? (escape : Option Char) : List Char → Option (List Char)
  | [] => none
  | c :: cs => if escape == some c then some (c :: cs.take 1) else none

theorem hiddenAt?_ne_nil {escape : Option Char} {text hidden : List Char}
    (h : hiddenAt? escape text = some hidden) : hidden ≠ [] := by
  cases text with
  | nil => simp [hiddenAt?] at h
  | cons c cs =>
    rw [hiddenAt?] at h
    split at h
    · simp [← Option.some.inj h]
    · simp at h

/-- The size of the first character of a text, and one byte where there is none. -/
def firstSize (text : List Char) : Nat := text.head?.elim 1 Char.utf8Size

theorem firstSize_pos (text : List Char) : 0 < firstSize text := by
  cases text with
  | nil => exact Nat.one_pos
  | cons c cs => exact c.utf8Size_pos

section Search

variable (finder : ByteFinder) (lead : LeadBytes) (needles : List (List Char))
  (escape : Option Char) (source : List Char) (bytes : List UInt8)

/-- The first needle at or after a byte position, and where it starts.  The search goes to the next
lead byte.  There an escape hides itself and the next character; otherwise the first needle of the
list that starts there is the answer, or the search goes on behind the character. -/
def findLead (position : Nat) : Except InsideCharacter (Option (List Char × Nat)) :=
  if position < bytes.length then
    match lead.next? finder (bytes.drop position) with
    | none => .ok none
    | some skipped =>
      match textFrom? source (position + skipped) with
      | none => .error ⟨position + skipped⟩
      | some rest =>
        match _h : hiddenAt? escape rest with
        | some hidden => findLead (position + skipped + byteLength hidden)
        | none =>
          match needleAt? needles rest with
          | some needle => .ok (some (needle, position + skipped))
          | none => findLead (position + skipped + firstSize rest)
  else .ok none
termination_by bytes.length - position
decreasing_by
  · have := byteLength_pos_iff.mpr (hiddenAt?_ne_nil ‹_›)
    omega
  · have := firstSize_pos rest
    omega

end Search

example : (LeadBytes.ofList [0x7d, 0x7d, 0x5d, 0x7d, 0x5c]).count = 3 := by decide

end DataTemplate
