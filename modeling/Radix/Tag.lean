import Radix.Value
import Radix.Token.Scan

/-!
# Tag — the types of parameters

A tag admits the numerals of any base, of one base, or the texts.  Tags are written `b_`, `b16` and
`str`; the digits of a base may have leading zeros.
-/

namespace Radix

/-- What values a parameter takes. -/
inductive Tag where
  | anyBase
  | exactBase (base : Nat)
  | text
  deriving Repr, DecidableEq

namespace Tag

/-- The number that decimal digits stand for. -/
def decimalValue (ds : List Char) : Nat := ds.foldl (fun n d => 10 * n + Lexical.decimal d) 0

/-- The tag of a base written in decimal digits. -/
def ofBaseDigits? (ds : List Char) : Option Tag :=
  if !ds.isEmpty && ds.all Char.isDigit && IsBase (decimalValue ds) then
    some (.exactBase (decimalValue ds))
  else none

/-- The tag that a word stands for. -/
def ofWord? (s : String) : Option Tag :=
  if s = "b_" then some .anyBase
  else if s = "str" then some .text
  else match s.toList with
    | 'b' :: ds => ofBaseDigits? ds
    | _ => none

/-- How a tag is shown. -/
def word : Tag → String
  | .anyBase => "b_"
  | .exactBase base => s!"b{base}"
  | .text => "str"

/-- Does the tag admit the value? -/
def accepts : Tag → Value → Bool
  | .anyBase, .numeral _ => true
  | .exactBase base, .numeral x => x.base = base
  | .text, .text _ => true
  | _, _ => false

end Tag

end Radix
