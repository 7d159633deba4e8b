import Radix.RunError

/-!
# Operation — the operators on values

Arithmetic is on numerals, `+` also joins texts.  Loose equality compares numbers by value and texts
by characters; strict equality compares any two values exactly.  Order is on numerals.  The logical
operators take any value as true or false.  Every other combination of kinds is refused.
-/

namespace Radix

/-- A refusal of numerals, as a failure of an evaluation. -/
def ofNumeral {α : Type} : Except NumeralError α → Except RunError α
  | .ok a => .ok a
  | .error e => .error (.numeral e)

/-- Does an order satisfy a comparison?  Operators that compare nothing hold of none. -/
def Operator.holds : Operator → Ordering → Bool
  | .lt, o => o.isLT
  | .le, o => o.isLE
  | .gt, o => o.isGT
  | .ge, o => o.isGE
  | _, _ => false

/-- An operator on two values. -/
def Operator.apply (op : Operator) (left right : Value) : Except RunError Value :=
  match op, left, right with
  | .add, .numeral a, .numeral b => ofNumeral ((a.add b).map .numeral)
  | .add, .text a, .text b => .ok (.text (a ++ b))
  | .sub, .numeral a, .numeral b => ofNumeral ((a.sub b).map .numeral)
  | .mul, .numeral a, .numeral b => ofNumeral ((a.mul b).map .numeral)
  | .div, .numeral a, .numeral b => ofNumeral ((a.div b).map .numeral)
  | .eq, .numeral a, .numeral b => ofNumeral ((a.sameNumber b).map .ofBool)
  | .ne, .numeral a, .numeral b => ofNumeral ((a.sameNumber b).map fun e => .ofBool !e)
  | .eq, .text a, .text b => .ok (.ofBool (a == b))
  | .ne, .text a, .text b => .ok (.ofBool (a != b))
  | .strictEq, a, b => .ok (.ofBool (a == b))
  | .strictNe, a, b => .ok (.ofBool (a != b))
  | .lt, .numeral a, .numeral b => ofNumeral ((a.order b).map fun o => .ofBool (op.holds o))
  | .le, .numeral a, .numeral b => ofNumeral ((a.order b).map fun o => .ofBool (op.holds o))
  | .gt, .numeral a, .numeral b => ofNumeral ((a.order b).map fun o => .ofBool (op.holds o))
  | .ge, .numeral a, .numeral b => ofNumeral ((a.order b).map fun o => .ofBool (op.holds o))
  | .and, a, b => ofNumeral do
    if ← a.truth then return .ofBool (← b.truth) else return .ofBool false
  | .or, a, b => ofNumeral do
    if ← a.truth then return .ofBool true else return .ofBool (← b.truth)
  | _, a, b => .error (.operands op a.kind b.kind)

end Radix
