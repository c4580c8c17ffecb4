/-
Double-quoted literals as JSON and JavaScript write them.  Quotes and backslashes are escaped, the
control characters below U+0020 are written as escapes, and all else stands for itself.
-/

namespace DataTemplate

/-- The lower-case hexadecimal digit of a number below sixteen. -/
def hexDigit (n : Nat) : Char :=
  if n < 10 then Char.ofNat ('0'.toNat + n) else Char.ofNat ('a'.toNat + (n - 10))

/-- The escape of a control character by its code point, with four digits. -/
def controlEscape (c : Char) : List Char :=
  ['\\', 'u', '0', '0', hexDigit (c.toNat / 16), hexDigit (c.toNat % 16)]

/-- The spelling of a character in a literal. -/
def quoteChar (c : Char) : List Char :=
  if c = '\x22' then ['\\', '\x22']
  else if c = '\\' then ['\\', '\\']
  else if c = '\n' then ['\\', 'n']
  else if c = '\r' then ['\\', 'r']
  else if c = '\t' then ['\\', 't']
  else if c = '\x08' then ['\\', 'b']
  else if c = '\x0c' then ['\\', 'f']
  else if c.toNat < 0x20 then controlEscape c
  else [c]

/-- The spelling of a text between the quotes of a literal. -/
def quoteBody (text : List Char) : List Char := text.flatMap quoteChar

/-- The literal of a text. -/
def quoteText (text : List Char) : String :=
  String.ofList ('\x22' :: quoteBody text ++ ['\x22'])

example : quoteBody ['a', '\x22', '\n', '\x01', '\x1f', 'é'] =
    ['a', '\\', '\x22', '\\', 'n', '\\', 'u', '0', '0', '0', '1',
      '\\', 'u', '0', '0', '1', 'f', 'é'] := by decide

end DataTemplate
