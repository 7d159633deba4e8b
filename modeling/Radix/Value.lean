import Radix.Numeral.Arithmetic
import Radix.Operator

/-!
# Value — what expressions evaluate to

A value is a numeral, a text, or the unit value that stands for no value.  `Value.kind` is what type
errors speak of, `Value.toText` what a value looks like when it is shown.
-/

namespace Radix

/-- The kinds of values; numerals of different bases are of different kinds. -/
inductive Kind where
  | based (base : Nat)
  | text
  | unit
  deriving Repr, DecidableEq

/-- How messages name a kind. -/
def Kind.name : Kind → String
  | .based base => s!"b{base}"
  | .text => "str"
  | .unit => "unit"

/-- A value. -/
inductive Value where
  | numeral (x : Numeral)
  | text (s : String)
  | unit
  deriving Repr, DecidableEq

namespace Value

instance : Inhabited Value := ⟨.unit⟩

def kind : Value → Kind
  | .numeral x => .based x.base
  | .text _ => .text
  | .unit => .unit

/-- A value counts as true when it is a number other than zero or a text with characters. -/
def truth : Value → Except NumeralError Bool
  | .numeral x => x.isNonzero
  | .text s => .ok !s.isEmpty
  | .unit => .ok false

/-- The value of a truth value: the decimal numeral 1 or 0. -/
def ofBool (b : Bool) : Value := .numeral { base := 10, digits := [if b then '1' else '0'] }

/-- How a value is shown. -/
def toText : Value → String
  | .numeral x => toString x
  | .text s => s
  | .unit => ""

/-- Every numeral in the value is well formed. -/
def WellFormed : Value → Prop
  | .numeral x => x.WellFormed
  | _ => True

instance (v : Value) : Decidable v.WellFormed :=
  match v with
  | .numeral x => inferInstanceAs (Decidable x.WellFormed)
  | .text _ => .isTrue trivial
  | .unit => .isTrue trivial

/-- The truth values are the decimal numerals of 1 and 0. -/
theorem ofBool_eq_ofNat (b : Bool) :
    (Numeral.ofNat 10 b.toNat).map Value.numeral = .ok (ofBool b) := by
  cases b
  · rw [Numeral.ofNat, Bool.toNat_false, checkBase, if_pos (by decide)]
    simp only [bind, Except.bind, digitValues_of_lt (by decide : 0 < 10)]
    rfl
  · rw [Numeral.ofNat, Bool.toNat_true, checkBase, if_pos (by decide)]
    simp only [bind, Except.bind, digitValues_of_lt (by decide : 1 < 10)]
    rfl

end Value

end Radix
