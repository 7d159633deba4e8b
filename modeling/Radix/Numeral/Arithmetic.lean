import Radix.Numeral.Basic

/-!
# Numeral/Arithmetic — exact arithmetic that keeps the left base

Every operation reads the values of its operands, computes with unbounded natural numbers, and
writes the result in the base of the left operand.  The right operand is a numeral of any base or a
plain number.  Subtraction below zero and division by zero are refused.
-/

namespace Radix

/-- The right operand of an operation on a numeral. -/
inductive Operand where
  | numeral (x : Numeral)
  | number (n : Nat)
  deriving Repr, DecidableEq

/-- The number that an operand stands for. -/
def Operand.toNat : Operand → Except NumeralError Nat
  | .numeral x => x.toNat
  | .number n => .ok n

instance : Coe Numeral Operand := ⟨.numeral⟩

namespace Numeral

/-- Computes on the values of both operands and writes the result in the left base. -/
def combine (f : Nat → Nat → Except NumeralError Nat) (x : Numeral) (y : Operand) :
    Except NumeralError Numeral := do
  let a ← x.toNat
  let b ← y.toNat
  let c ← f a b
  ofNat x.base c

def add (x : Numeral) (y : Operand) : Except NumeralError Numeral :=
  x.combine (fun a b => .ok (a + b)) y

def sub (x : Numeral) (y : Operand) : Except NumeralError Numeral :=
  x.combine (fun a b => if a < b then .error .negative else .ok (a - b)) y

def mul (x : Numeral) (y : Operand) : Except NumeralError Numeral :=
  x.combine (fun a b => .ok (a * b)) y

/-- Division without remainder. -/
def div (x : Numeral) (y : Operand) : Except NumeralError Numeral :=
  x.combine (fun a b => if b = 0 then .error .divisionByZero else .ok (a / b)) y

/-- The same number in another base. -/
def rebase (x : Numeral) (base : Nat) : Except NumeralError Numeral := do
  let n ← x.toNat
  ofNat base n

/-- Do both operands stand for the same number? -/
def sameNumber (x : Numeral) (y : Operand) : Except NumeralError Bool := do
  let a ← x.toNat
  let b ← y.toNat
  return a == b

/-- How the numbers that both operands stand for are ordered. -/
def order (x : Numeral) (y : Operand) : Except NumeralError Ordering := do
  let a ← x.toNat
  let b ← y.toNat
  return compare a b

/-- Does the numeral stand for a number other than zero? -/
def isNonzero (x : Numeral) : Except NumeralError Bool := do
  let n ← x.toNat
  return n != 0

end Numeral

/-! ## Square roots -/

/-- Newton's iteration for the square root of `n`, from a guess that is not below it. -/
def rootFrom (n guess : Nat) : Nat :=
  let next := (guess + n / guess) / 2
  if next < guess then rootFrom n next else guess
termination_by guess

/-- The square root of a number, rounded down. -/
def floorRoot (n : Nat) : Nat := if n = 0 then 0 else rootFrom n (1 <<< (n.log2 / 2 + 1))

/-- The square root of a numeral, rounded down, in the same base. -/
def Numeral.sqrt (x : Numeral) : Except NumeralError Numeral := do
  let n ← x.toNat
  ofNat x.base (floorRoot n)

end Radix
