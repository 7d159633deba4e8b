import Radix.Text.Hidden

/-!
# Text/Quoted — a text or a character between quotes

The form in which messages show a piece of source: between quotes, with the quote in use, the
backslash and the common controls escaped by a backslash, and every other hidden character written
by its number.  Which quote is in use decides which quote is escaped.
-/

namespace Radix.Text

/-- The code point of a character in lower-case hexadecimal digits, without leading zeros. -/
def hexCode (c : Char) : List Char := Nat.toDigits 16 c.toNat

/-- A character as it stands between two quotes of the kind `quote`. -/
def escape (quote c : Char) : List Char :=
  if c = '\x00' then ['\\', '0']
  else if c = '\t' then ['\\', 't']
  else if c = '\r' then ['\\', 'r']
  else if c = '\n' then ['\\', 'n']
  else if c = '\\' || c = quote then ['\\', c]
  else if isHidden c then ['\\', 'u', '\x7b'] ++ hexCode c ++ ['\x7d']
  else [c]

/-- A text between quotes of the kind `quote`. -/
def quoteWith (quote : Char) (cs : List Char) : String :=
  String.ofList (quote :: cs.flatMap (escape quote) ++ [quote])

/-- A single character between single quotes. -/
def quoteChar (c : Char) : String := quoteWith '\x27' [c]

/-- A text between double quotes. -/
def quoteText (cs : List Char) : String := quoteWith '"' cs

end Radix.Text
