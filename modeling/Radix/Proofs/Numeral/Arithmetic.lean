import Mathlib.Data.Nat.Sqrt
import Radix.Proofs.Numeral.Positional

/-!
# Proofs/Numeral/Arithmetic — operations on numerals are operations on numbers

    numerals ──value──▸ numbers ──operation──▸ number ◂──Writes── numeral in the left base

A numeral *writes* a number in a base when it is well formed, has that base and no leading zeros,
and stands for the number.  There is exactly one such numeral, and it is what `Numeral.ofNat` gives
(`Numeral.ofNat_eq_ok_iff`).  So an operation on numerals is known from what it does to their values
(`Numeral.combine_eq_ok`, `Numeral.combine_eq_error`), and every law of the four operations is a
law of natural numbers.  So is that of the square root (`Numeral.WellFormed.sqrt_eq_ok`).
-/

namespace Radix

namespace Numeral

/-- Well-formedness as a check that can be run. -/
theorem wellFormed_iff_all {x : Numeral} : x.WellFormed ↔
    IsBase x.base ∧ x.digits ≠ [] ∧ x.digits.all (isDigitOf x.base) = true := by
  simp only [WellFormed, List.all_eq_true, isDigitOf_iff]

/-! ## The numeral that writes a number -/

/-- The numeral is the number in the base, without leading zeros. -/
structure Writes (x : Numeral) (base n : Nat) : Prop where
  wellFormed : x.WellFormed
  base_eq : x.base = base
  canonical : x.Canonical
  value_eq : x.value = n

theorem ofNat_eq_ok_iff {base n : Nat} {x : Numeral} :
    ofNat base n = .ok x ↔ x.Writes base n := by
  constructor
  · intro h
    exact ⟨wellFormed_of_ofNat h, by rw [(ofNat_eq_ok.mp h).2], canonical_of_ofNat h,
      value_of_ofNat h⟩
  · rintro ⟨wellFormed, rfl, canonical, rfl⟩
    rw [wellFormed.ofNat_value, canonical.trimmed_eq]

theorem exists_writes {base : Nat} (hb : IsBase base) (n : Nat) : ∃ x : Numeral, x.Writes base n :=
  (ofNat_ok hb n).imp fun _ => ofNat_eq_ok_iff.mp

theorem Writes.unique {x y : Numeral} {base n : Nat} (hx : x.Writes base n)
    (hy : y.Writes base n) : x = y :=
  Except.ok.inj ((ofNat_eq_ok_iff.mpr hx).symm.trans (ofNat_eq_ok_iff.mpr hy))

theorem WellFormed.writes_trimmed {x : Numeral} (h : x.WellFormed) :
    x.trimmed.Writes x.base x.value :=
  ofNat_eq_ok_iff.mp h.ofNat_value

end Numeral

/-! ## Operands -/

namespace Operand

/-- The number that an operand stands for. -/
def value : Operand → Nat
  | .numeral x => x.value
  | .number n => n

/-- An operand is well formed when it is a well-formed numeral or any number. -/
def WellFormed : Operand → Prop
  | .numeral x => x.WellFormed
  | .number _ => True

theorem WellFormed.toNat_eq {y : Operand} (h : y.WellFormed) : y.toNat = .ok y.value := by
  cases y with
  | numeral x => exact Numeral.WellFormed.toNat_eq h
  | number n => rfl

end Operand

/-! ## Operations -/

namespace Numeral

section Combine

variable {f : Nat → Nat → Except NumeralError Nat} {x z : Numeral} {y : Operand}
  {e : NumeralError}

theorem combine_eq (hx : x.WellFormed) (hy : y.WellFormed) :
    x.combine f y = f x.value y.value >>= ofNat x.base := by
  rw [combine, hx.toNat_eq, hy.toNat_eq]
  rfl

/-- **An operation succeeds where it does on the values**, and writes in the left base what it gives
there. -/
theorem combine_eq_ok (hx : x.WellFormed) (hy : y.WellFormed) :
    x.combine f y = .ok z ↔ ∃ n, f x.value y.value = .ok n ∧ z.Writes x.base n := by
  simp only [combine_eq hx hy, bind_eq_ok, ofNat_eq_ok_iff]

/-- **An operation is refused where it is on the values**: that the result cannot be written is no
further reason. -/
theorem combine_eq_error (hx : x.WellFormed) (hy : y.WellFormed) :
    x.combine f y = .error e ↔ f x.value y.value = .error e := by
  rw [combine_eq hx hy, bind_eq_error, or_iff_left]
  rintro ⟨n, -, hn⟩
  exact ne_error_of_ok (ofNat_ok hx.1 n) hn

end Combine

end Numeral

/-- The four operations of arithmetic. -/
inductive Arithmetic where
  | add | sub | mul | div
  deriving Repr, DecidableEq

namespace Arithmetic

/-- The operation on a numeral. -/
def apply : Arithmetic → Numeral → Operand → Except NumeralError Numeral
  | .add => Numeral.add
  | .sub => Numeral.sub
  | .mul => Numeral.mul
  | .div => Numeral.div

/-- The operation on numbers.  It means something only where the numbers are admitted. -/
def result : Arithmetic → Nat → Nat → Nat
  | .add, a, b => a + b
  | .sub, a, b => a - b
  | .mul, a, b => a * b
  | .div, a, b => a / b

/-- No larger number is subtracted, and nothing is divided by zero. -/
def Admits : Arithmetic → Nat → Nat → Prop
  | .sub, a, b => b ≤ a
  | .div, _, b => b ≠ 0
  | .add, _, _ | .mul, _, _ => True

instance (op : Arithmetic) (a b : Nat) : Decidable (op.Admits a b) :=
  match op with
  | .sub => inferInstanceAs (Decidable (b ≤ a))
  | .div => inferInstanceAs (Decidable (b ≠ 0))
  | .add | .mul => .isTrue trivial

/-- Why numbers are refused that are not admitted; sums and products admit all. -/
def refusal : Arithmetic → NumeralError
  | .div => .divisionByZero
  | .add | .sub | .mul => .negative

section Apply

variable (op : Arithmetic) {x z : Numeral} {y : Operand} {e : NumeralError}

theorem apply_eq_combine (x : Numeral) (y : Operand) :
    op.apply x y = x.combine
      (fun a b => if op.Admits a b then .ok (op.result a b) else .error op.refusal) y := by
  cases op with
  | add | mul => exact congrArg (x.combine · y) (funext₂ fun _ _ => (if_pos trivial).symm)
  | sub =>
    refine congrArg (x.combine · y) (funext₂ fun a b => ?_)
    by_cases h : a < b
    · exact (if_pos h).trans (if_neg (Nat.not_le.mpr h)).symm
    · exact (if_neg h).trans (if_pos (Nat.not_lt.mp h)).symm
  | div =>
    refine congrArg (x.combine · y) (funext₂ fun a b => ?_)
    by_cases h : b = 0
    · exact (if_pos h).trans (if_neg (not_not.mpr h)).symm
    · exact (if_neg h).trans (if_pos h).symm

/-- **Arithmetic is exact**: it succeeds on the numbers that it admits, and the result is written in
the left base. -/
theorem apply_eq_ok (hx : x.WellFormed) (hy : y.WellFormed) : op.apply x y = .ok z ↔
    op.Admits x.value y.value ∧ z.Writes x.base (op.result x.value y.value) := by
  rw [apply_eq_combine, Numeral.combine_eq_ok hx hy]
  by_cases h : op.Admits x.value y.value <;> simp [h]

theorem apply_eq_error (hx : x.WellFormed) (hy : y.WellFormed) : op.apply x y = .error e ↔
    ¬ op.Admits x.value y.value ∧ e = op.refusal := by
  rw [apply_eq_combine, Numeral.combine_eq_error hx hy]
  by_cases h : op.Admits x.value y.value <;> simp [h, eq_comm]

theorem exists_apply (hx : x.WellFormed) (hy : y.WellFormed) (h : op.Admits x.value y.value) :
    ∃ z, op.apply x y = .ok z ∧ z.Writes x.base (op.result x.value y.value) :=
  (Numeral.exists_writes hx.1 _).imp fun _ hz => ⟨(op.apply_eq_ok hx hy).mpr ⟨h, hz⟩, hz⟩

/-- A result depends on the right operand only through its value. -/
theorem apply_number (hx : x.WellFormed) (hy : y.WellFormed) :
    op.apply x y = op.apply x (.number y.value) := by
  rw [apply_eq_combine, apply_eq_combine, Numeral.combine_eq hx hy,
    Numeral.combine_eq (y := .number y.value) hx trivial]
  rfl

/-- An operation and one that undoes it give back the numeral, without its leading zeros. -/
theorem apply_undone (undo : Arithmetic) (hx : x.WellFormed) (hy : y.WellFormed)
    (h : op.Admits x.value y.value) (admits : undo.Admits (op.result x.value y.value) y.value)
    (undone : undo.result (op.result x.value y.value) y.value = x.value) :
    (op.apply x y >>= fun z => undo.apply z y) = .ok x.trimmed := by
  obtain ⟨z, hz, writes⟩ := op.exists_apply hx hy h
  refine bind_eq_ok.mpr ⟨z, hz, (undo.apply_eq_ok writes.wellFormed hy).mpr ?_⟩
  rw [writes.value_eq, writes.base_eq, undone]
  exact ⟨admits, hx.writes_trimmed⟩

end Apply

end Arithmetic

namespace Numeral

/-- **Arithmetic on numerals is arithmetic on numbers, written in the left base.**  Sums and
products always exist, a difference fails exactly if it would be negative and a quotient exactly if
the divisor is zero, and what is given is the exact result in the base of the left operand, without
leading zeros.  So it does not matter whether the right operand is a numeral or the number it stands
for, and adding what was subtracted, or dividing by what was multiplied with, gives the left operand
without its leading zeros. -/
theorem arithmetic_exact {x : Numeral} {y : Operand} (hx : x.WellFormed) (hy : y.WellFormed) :
    ((∃ z, x.add y = .ok z ∧ z.Writes x.base (x.value + y.value)) ∧
      (∃ z, x.mul y = .ok z ∧ z.Writes x.base (x.value * y.value)) ∧
      (∀ e, x.sub y = .error e ↔ x.value < y.value ∧ e = .negative) ∧
      (∀ z, x.sub y = .ok z → z.Writes x.base (x.value - y.value)) ∧
      (∀ e, x.div y = .error e ↔ y.value = 0 ∧ e = .divisionByZero) ∧
      (∀ z, x.div y = .ok z → z.Writes x.base (x.value / y.value))) ∧
    (x.add y = x.add (.number y.value) ∧ x.sub y = x.sub (.number y.value) ∧
      x.mul y = x.mul (.number y.value) ∧ x.div y = x.div (.number y.value)) ∧
    (y.value ≤ x.value → (x.sub y >>= fun z => z.add y) = .ok x.trimmed) ∧
    (y.value ≠ 0 → (x.mul y >>= fun z => z.div y) = .ok x.trimmed) := by
  refine ⟨⟨?_, ?_, fun e => ?_, fun z hz => ?_, fun e => ?_, fun z hz => ?_⟩, ?_, fun h => ?_,
    fun h => ?_⟩
  · exact Arithmetic.exists_apply .add hx hy trivial
  · exact Arithmetic.exists_apply .mul hx hy trivial
  · rw [← Nat.not_le]
    exact Arithmetic.apply_eq_error .sub hx hy
  · exact ((Arithmetic.apply_eq_ok .sub hx hy).mp hz).2
  · rw [← not_not (a := y.value = 0)]
    exact Arithmetic.apply_eq_error .div hx hy
  · exact ((Arithmetic.apply_eq_ok .div hx hy).mp hz).2
  · exact ⟨Arithmetic.apply_number .add hx hy, Arithmetic.apply_number .sub hx hy,
      Arithmetic.apply_number .mul hx hy, Arithmetic.apply_number .div hx hy⟩
  · exact Arithmetic.apply_undone .sub .add hx hy h trivial (Nat.sub_add_cancel h)
  · exact Arithmetic.apply_undone .mul .div hx hy trivial h
      (Nat.mul_div_cancel _ (Nat.pos_of_ne_zero h))

/-- The largest number of 64 bits, written with a leading zero. -/
def largestWord : Numeral := ⟨16, '0' :: List.replicate 16 'f'⟩

/-- Above the largest number of 64 bits the next one is written, in hexadecimal although 1 is
binary; the leading zero is lost on the way down and up again; and nothing lies below zero. -/
theorem arithmetic_exact_largestWord :
    (∃ z, largestWord.add (.numeral ⟨2, ['0', '1']⟩) = .ok z ∧ z.Writes 16 (2 ^ 64)) ∧
    (largestWord.sub (.numeral ⟨2, ['0', '1']⟩) >>= fun z => z.add (.numeral ⟨2, ['0', '1']⟩)) =
      .ok ⟨16, List.replicate 16 'f'⟩ ∧
    sub ⟨2, ['0', '1']⟩ largestWord = .error .negative := by
  have word : largestWord.WellFormed := wellFormed_iff_all.mpr (by decide)
  have one : WellFormed ⟨2, ['0', '1']⟩ := wellFormed_iff_all.mpr (by decide)
  obtain ⟨⟨sum, -⟩, -, back, -⟩ := arithmetic_exact (y := .numeral ⟨2, ['0', '1']⟩) word one
  obtain ⟨⟨-, -, negative, -⟩, -⟩ := arithmetic_exact (y := .numeral largestWord) one word
  exact ⟨sum, back (by decide), (negative _).mpr ⟨by decide, rfl⟩⟩

end Numeral

/-! ## Square roots -/

theorem rootFrom_eq_iter (n guess : Nat) : rootFrom n guess = Nat.sqrt.iter n guess := by
  fun_induction rootFrom n guess with
  | case1 guess next hlt ih => rw [Nat.sqrt.iter, dif_pos hlt, ih]
  | case2 guess next hle => rw [Nat.sqrt.iter, dif_neg hle]

theorem floorRoot_eq_sqrt (n : Nat) : floorRoot n = Nat.sqrt n := by
  unfold floorRoot Nat.sqrt
  split
  · next h => rw [if_pos (by omega), h]
  · split
    · next h =>
      obtain rfl : n = 1 := by omega
      decide +kernel
    · exact rootFrom_eq_iter n _

/-- **The square root of a numeral is that of its value**, in the same base. -/
theorem Numeral.WellFormed.sqrt_eq_ok {x z : Numeral} (hx : x.WellFormed) :
    x.sqrt = .ok z ↔ z.Writes x.base (Nat.sqrt x.value) := by
  rw [Numeral.sqrt, hx.toNat_eq, ← floorRoot_eq_sqrt, ← ofNat_eq_ok_iff]
  rfl

end Radix
