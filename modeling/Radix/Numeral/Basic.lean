import Radix.Text.LowerCase

/-!
# Numeral/Basic — digit strings in a base

A numeral is a string of digits together with its base, which lies between 2 and 64.  The digits of
base `b` are the first `b` symbols of one alphabet of 64.  `Numeral.ofDigits` checks a written digit
string and `Numeral.ofNat` writes a number; `Numeral.toNat` is the meaning of both.

The type itself is plain data: that a numeral is well formed is the predicate
`Numeral.WellFormed`, and reading off the value of one that is not is an error.
-/

namespace Radix

/-- Why a numeral, or an operation on numerals, is refused. -/
inductive NumeralError where
  /-- The character is no digit of the base. -/
  | invalidDigit (digit : Char) (base : Nat)
  /-- There are no digits at all. -/
  | noDigits (base : Nat)
  /-- The base lies outside 2 to 64. -/
  | baseOutOfRange (base : Nat)
  /-- The result would be negative. -/
  | negative
  | divisionByZero
  /-- The value does not fit the machine word that the operation needs. -/
  | overflow
  deriving Repr, DecidableEq

/-- The wording of the refusal. -/
def NumeralError.message : NumeralError → String
  | .invalidDigit digit base => s!"Digit '{digit}' not valid in base {base}"
  | .noDigits base => s!"Base {base} literal has no digits"
  | .baseOutOfRange base => s!"Base {base} not supported (must be 2-64)"
  | .negative => "Base literals cannot represent negative values"
  | .divisionByZero => "Division by zero"
  | .overflow => "Value is too large for this operation"

/-! ## Digits -/

/-- The 64 digit symbols, in the order of their values. -/
def alphabet : List Char :=
  ['0', '1', '2', '3', '4', '5', '6', '7', '8', '9', 'a', 'b', 'c', 'd', 'e', 'f',
   'g', 'h', 'i', 'j', 'k', 'l', 'm', 'n', 'o', 'p', 'q', 'r', 's', 't', 'u', 'v',
   'w', 'x', 'y', 'z', 'A', 'B', 'C', 'D', 'E', 'F', 'G', 'H', 'I', 'J', 'K', 'L',
   'M', 'N', 'O', 'P', 'Q', 'R', 'S', 'T', 'U', 'V', 'W', 'X', 'Y', 'Z', '+', '/']

/-- The digits of a base: the first `base` symbols of the alphabet. -/
def digitsOf (base : Nat) : List Char := alphabet.take base

/-- The value of a digit in a base, if it is one: its index in the alphabet. -/
def digitValue? (base : Nat) (c : Char) : Option Nat := (alphabet.idxOf? c).filter (· < base)

/-- Is the character a digit of the base? -/
def isDigitOf (base : Nat) (c : Char) : Bool := (digitValue? base c).isSome

theorem isDigitOf_iff {base : Nat} {c : Char} : isDigitOf base c = true ↔ c ∈ digitsOf base := by
  rw [isDigitOf, digitValue?, digitsOf]
  generalize alphabet = l
  induction l generalizing base with
  | nil => simp
  | cons d ds ih =>
    rw [List.idxOf?_cons]
    cases base with
    | zero => cases (if d == c then some 0 else (ds.idxOf? c).map (· + 1)) <;> simp [Option.filter]
    | succ n =>
      by_cases h : d = c
      · simp [h, Option.filter]
      · have h' : ¬ c = d := fun e => h e.symm
        have hf : ((ds.idxOf? c).map (· + 1)).filter (· < n + 1)
            = ((ds.idxOf? c).filter (· < n)).map (· + 1) := by
          cases ds.idxOf? c with
          | none => rfl
          | some i => by_cases hi : i < n <;> simp [Option.filter, hi]
        simp only [beq_iff_eq, h, if_false, hf, Option.isSome_map, ih, List.take_succ_cons,
          List.mem_cons, h', false_or]

/-- Can numerals be written in the base? -/
def IsBase (base : Nat) : Prop := 2 ≤ base ∧ base ≤ 64

instance (base : Nat) : Decidable (IsBase base) := inferInstanceAs (Decidable (_ ∧ _))

/-- The base itself, if numerals can be written in it. -/
def checkBase (base : Nat) : Except NumeralError Nat :=
  if IsBase base then .ok base else .error (.baseOutOfRange base)

/-- The value itself, if it fits an unsigned word of 64 bits. -/
def checkWord (value : Nat) : Except NumeralError Nat :=
  if value < UInt64.size then .ok value else .error .overflow

/-- The digit values of a number in a base of at least 2, most significant first, before the digits
`acc`. -/
def digitValues (base n : Nat) (acc : List Nat) : List Nat :=
  if _h : base < 2 ∨ n < base then n :: acc
  else digitValues base (n / base) (n % base :: acc)
termination_by n
decreasing_by exact Nat.div_lt_self (by omega) (by omega)

theorem digitValues_of_lt {base n : Nat} (h : n < base) (acc : List Nat) :
    digitValues base n acc = n :: acc := by
  rw [digitValues, dif_pos (Or.inr h)]

theorem digitValues_of_le {base n : Nat} (hb : 2 ≤ base) (h : base ≤ n) (acc : List Nat) :
    digitValues base n acc = digitValues base (n / base) (n % base :: acc) := by
  rw [digitValues, dif_neg (by omega)]

/-! ## Numerals -/

/-- A digit string in a base. -/
structure Numeral where
  base : Nat
  digits : List Char
  deriving Repr, DecidableEq

namespace Numeral

/-- A numeral is well formed when its base is one, and it has digits, all of that base. -/
def WellFormed (x : Numeral) : Prop :=
  IsBase x.base ∧ x.digits ≠ [] ∧ ∀ c ∈ x.digits, c ∈ digitsOf x.base

instance (x : Numeral) : Decidable x.WellFormed := inferInstanceAs (Decidable (_ ∧ _ ∧ _))

/-- The numeral that a written digit string stands for.  The base is checked first, then that there
are digits, then each digit of the lower-cased string. -/
def ofDigits (base : Nat) (digits : List Char) : Except NumeralError Numeral := do
  let base ← checkBase base
  if digits.isEmpty then throw (.noDigits base)
  let small := Text.lower digits
  match small.find? (!isDigitOf base ·) with
  | some c => throw (.invalidDigit c base)
  | none => return { base, digits := small }

/-- The numeral of a number, without leading zeros. -/
def ofNat (base n : Nat) : Except NumeralError Numeral := do
  let base ← checkBase base
  return { base, digits := (digitValues base n []).map fun d => alphabet.getD d '0' }

/-- The value of a digit string in positional notation, on top of the digits read before. -/
def valueFrom (base : Nat) (acc : Nat) : List Char → Except NumeralError Nat
  | [] => .ok acc
  | c :: cs =>
    match digitValue? base c with
    | some d => valueFrom base (acc * base + d) cs
    | none => .error (.invalidDigit c base)

/-- The number that a numeral stands for. -/
def toNat (x : Numeral) : Except NumeralError Nat := valueFrom x.base 0 x.digits

/-- How a numeral is written: bare in base 10, and with its base in front in any other. -/
def spelling (x : Numeral) : List Char :=
  if x.base = 10 then x.digits
  else 'b' :: (Nat.repr x.base).toList ++ '@' :: x.digits

instance : ToString Numeral := ⟨fun x => String.ofList x.spelling⟩

end Numeral

end Radix
