import ItemStore.Text.Glyph

/-!
# Quoted text

A text inside a message stands between double quotes.  Quotes and backslashes are
escaped, the common control characters have a short name, and any other character
without a glyph is spelled out by its code point.

## Main definitions

* `quoted` — a text between quotes.
* `listed` — pieces in a row, separated by commas.
* `hexText` — bytes as pairs of hexadecimal digits.
-/

namespace ItemStore

/-- A byte string. -/
abbrev Bytes := List UInt8

/-- A code point in hexadecimal digits, between braces. -/
def spelledOut (c : Char) : List Char :=
  ['\\', 'u', '\x7b'] ++ Nat.toDigits 16 c.toNat ++ ['\x7d']

/-- A character as it stands in a quoted text. -/
def quotedChar (c : Char) : List Char :=
  if c = '\x00' then ['\\', '0']
  else if c = '\t' then ['\\', 't']
  else if c = '\r' then ['\\', 'r']
  else if c = '\n' then ['\\', 'n']
  else if c = '"' then ['\\', '"']
  else if c = '\\' then ['\\', '\\']
  else if Glyph.standsAlone c then [c]
  else spelledOut c

/-- A text between double quotes. -/
def quoted (text : String) : String :=
  String.ofList ('"' :: (text.toList.flatMap quotedChar ++ ['"']))

/-- Pieces in a row, separated by commas. -/
def listed (pieces : List String) : String := ", ".intercalate pieces

/-- Pieces in a row between brackets. -/
def bracketed (pieces : List String) : String := "[" ++ listed pieces ++ "]"

/-- Pieces in a row between braces. -/
def braced (pieces : List String) : String := "\x7b" ++ listed pieces ++ "\x7d"

/-- A text between parentheses, after a name. -/
def applied (name body : String) : String := name ++ "(" ++ body ++ ")"

/-- A byte as two hexadecimal digits. -/
def hexByte (b : UInt8) : List Char :=
  [Nat.digitChar (b.toNat / 16), Nat.digitChar (b.toNat % 16)]

/-- Bytes as pairs of hexadecimal digits. -/
def hexText (bytes : Bytes) : String := String.ofList (bytes.flatMap hexByte)

/-- The decimal text of a natural number. -/
def natText (n : Nat) : String := String.ofList (Nat.toDigits 10 n)

end ItemStore
