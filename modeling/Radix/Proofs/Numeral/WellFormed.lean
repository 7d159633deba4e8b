import Radix.Numeral.Arithmetic
import Radix.Proofs.Except

/-!
# Proofs/Numeral/WellFormed — every way of making a numeral makes a well-formed one

Numerals are read from digits, written from numbers, or computed from other numerals, and a
computation ends by writing a number.  So the two lemmas that say when reading and writing succeed,
and with what (`Numeral.ofDigits_eq_ok`, `Numeral.ofNat_eq_ok`), carry all of it.  In turn the
value of a well-formed numeral can always be read off (`Numeral.WellFormed.toNat_ok`), so whatever
only looks at values does not fail on one.
-/

namespace Radix

theorem checkBase_eq_ok {base b : Nat} : checkBase base = .ok b ↔ IsBase base ∧ b = base := by
  unfold checkBase
  by_cases h : IsBase base <;> simp [h, eq_comm]

theorem checkBase_eq_error {base : Nat} {e : NumeralError} :
    checkBase base = .error e ↔ ¬ IsBase base ∧ e = .baseOutOfRange base := by
  unfold checkBase
  by_cases h : IsBase base <;> simp [h, eq_comm]

/-! ## Digits of a number -/

theorem digitValues_lt {base : Nat} (hb : 2 ≤ base) (n : Nat) (acc : List Nat)
    (hacc : ∀ d ∈ acc, d < base) : ∀ d ∈ digitValues base n acc, d < base := by
  fun_induction digitValues base n acc with
  | case1 n acc h =>
    intro d hd
    rcases List.mem_cons.mp hd with rfl | hd
    · omega
    · exact hacc d hd
  | case2 n acc h ih =>
    refine ih fun d hd => ?_
    rcases List.mem_cons.mp hd with rfl | hd
    · exact Nat.mod_lt _ (by omega)
    · exact hacc d hd

theorem digitValues_ne_nil (base n : Nat) (acc : List Nat) : digitValues base n acc ≠ [] := by
  fun_induction digitValues base n acc with
  | case1 n acc h => simp
  | case2 n acc h ih => exact ih

theorem getD_alphabet_mem {base d : Nat} (hb : base ≤ 64) (hd : d < base) :
    alphabet.getD d '0' ∈ digitsOf base := by
  have hlen : d < alphabet.length := Nat.lt_of_lt_of_le hd hb
  rw [List.getD_eq_getElem?_getD, List.getElem?_eq_getElem hlen, Option.getD_some, digitsOf,
    List.mem_take_iff_getElem]
  exact ⟨d, by omega, rfl⟩

namespace Numeral

/-! ## Reading and writing -/

/-- **Writing a number** succeeds exactly in the bases, and gives its digits. -/
theorem ofNat_eq_ok {base n : Nat} {x : Numeral} :
    ofNat base n = .ok x ↔ IsBase base ∧
      x = ⟨base, (digitValues base n []).map fun d => alphabet.getD d '0'⟩ := by
  unfold ofNat checkBase
  by_cases h : IsBase base
  · simp [h, bind, Except.bind, pure, Except.pure, eq_comm]
  · simp [h, bind, Except.bind]

theorem ofNat_ok {base : Nat} (hb : IsBase base) (n : Nat) : ∃ x, ofNat base n = .ok x :=
  ⟨_, ofNat_eq_ok.mpr ⟨hb, rfl⟩⟩

/-- **Reading digits** succeeds exactly if there are some and all are digits of the base once they
are lower-cased, and it keeps them so. -/
theorem ofDigits_eq_ok {base : Nat} {digits : List Char} {x : Numeral} :
    ofDigits base digits = .ok x ↔ IsBase base ∧ digits ≠ [] ∧
      (∀ c ∈ Text.lower digits, c ∈ digitsOf base) ∧ x = ⟨base, Text.lower digits⟩ := by
  unfold ofDigits checkBase
  by_cases hb : IsBase base
  · by_cases hd : digits = []
    · simp [hb, hd, bind, Except.bind, throw, throwThe, MonadExceptOf.throw]
    · simp only [hb, if_true, bind, Except.bind, List.isEmpty_iff, hd, if_false, ne_eq,
        not_false_eq_true, true_and]
      match hf : (Text.lower digits).find? (!isDigitOf base ·) with
      | some c =>
        have hc := List.find?_some hf
        have hm := List.mem_of_find?_eq_some hf
        simp only [throw, throwThe, MonadExceptOf.throw, reduceCtorEq, false_iff, not_and]
        intro all
        simp [isDigitOf_iff.mpr (all c hm)] at hc
      | none =>
        have hall : ∀ c ∈ Text.lower digits, c ∈ digitsOf base := fun c hc =>
          isDigitOf_iff.mp (by simpa using List.find?_eq_none.mp hf c hc)
        simp only [pure, Except.pure, Except.ok.injEq, eq_comm]
        exact ⟨fun h => ⟨hall, h⟩, fun h => h.2⟩
  · simp [hb, bind, Except.bind]

/-- In a base, digits are refused because there are none or because one is not of the base. -/
theorem ofDigits_error {base : Nat} {digits : List Char} {e : NumeralError} (hb : IsBase base)
    (h : ofDigits base digits = .error e) :
    e = .noDigits base ∨ ∃ c, e = .invalidDigit c base := by
  simp only [ofDigits, checkBase, hb, if_true, bind, Except.bind] at h
  split at h
  · exact .inl (Except.error.inj h).symm
  · split at h
    · exact .inr ⟨_, (Except.error.inj h).symm⟩
    · exact absurd h (by simp [pure, Except.pure])

theorem wellFormed_of_ofNat {base n : Nat} {x : Numeral} (h : ofNat base n = .ok x) :
    x.WellFormed := by
  obtain ⟨hb, rfl⟩ := ofNat_eq_ok.mp h
  refine ⟨hb, by simp [digitValues_ne_nil], fun c hc => ?_⟩
  obtain ⟨d, hd, rfl⟩ := List.mem_map.mp hc
  exact getD_alphabet_mem hb.2 (digitValues_lt hb.1 n [] (by simp) d hd)

theorem wellFormed_of_ofDigits {base : Nat} {digits : List Char} {x : Numeral}
    (h : ofDigits base digits = .ok x) : x.WellFormed := by
  obtain ⟨hb, hd, hall, rfl⟩ := ofDigits_eq_ok.mp h
  exact ⟨hb, Text.lower_ne_nil hd, hall⟩

/-! ## Values -/

theorem valueFrom_ok {base : Nat} (acc : Nat) {cs : List Char} (h : ∀ c ∈ cs, c ∈ digitsOf base) :
    ∃ n, valueFrom base acc cs = .ok n := by
  induction cs generalizing acc with
  | nil => exact ⟨acc, rfl⟩
  | cons c cs ih =>
    obtain ⟨d, hd⟩ := Option.isSome_iff_exists.mp (isDigitOf_iff.mpr (h c (by simp)))
    rw [valueFrom, hd]
    exact ih _ fun x hx => h x (by simp [hx])

/-- **The value of a well-formed numeral can be read off.** -/
theorem WellFormed.toNat_ok {x : Numeral} (h : x.WellFormed) : ∃ n, x.toNat = .ok n :=
  valueFrom_ok 0 h.2.2

theorem WellFormed.isNonzero_ok {x : Numeral} (h : x.WellFormed) : ∃ b, x.isNonzero = .ok b := by
  obtain ⟨n, hn⟩ := h.toNat_ok
  exact ⟨n != 0, by rw [isNonzero, hn]; rfl⟩

theorem WellFormed.sameNumber_ok {x y : Numeral} (hx : x.WellFormed) (hy : y.WellFormed) :
    ∃ b, x.sameNumber y = .ok b := by
  obtain ⟨m, hm⟩ := hx.toNat_ok
  obtain ⟨n, hn⟩ := hy.toNat_ok
  exact ⟨m == n, by rw [sameNumber, hm, Operand.toNat, hn]; rfl⟩

theorem WellFormed.order_ok {x y : Numeral} (hx : x.WellFormed) (hy : y.WellFormed) :
    ∃ o, x.order y = .ok o := by
  obtain ⟨m, hm⟩ := hx.toNat_ok
  obtain ⟨n, hn⟩ := hy.toNat_ok
  exact ⟨compare m n, by rw [order, hm, Operand.toNat, hn]; rfl⟩

/-! ## Operations -/

/-- What an operation gives is written from a number. -/
theorem wellFormed_of_combine {f : Nat → Nat → Except NumeralError Nat} {x z : Numeral}
    {y : Operand} (h : x.combine f y = .ok z) : z.WellFormed := by
  obtain ⟨a, -, h⟩ := bind_eq_ok.mp h
  obtain ⟨b, -, h⟩ := bind_eq_ok.mp h
  obtain ⟨c, -, h⟩ := bind_eq_ok.mp h
  exact wellFormed_of_ofNat h

/-- On well-formed operands an operation refuses only what it refuses on their values. -/
theorem WellFormed.combine_error {f : Nat → Nat → Except NumeralError Nat} {x y : Numeral}
    {e : NumeralError} (hx : x.WellFormed) (hy : y.WellFormed) (h : x.combine f y = .error e) :
    ∃ a b, f a b = .error e := by
  obtain ⟨a, ha⟩ := hx.toNat_ok
  obtain ⟨b, hb⟩ := hy.toNat_ok
  simp only [combine, ha, Operand.toNat, hb, bind, Except.bind] at h
  match hf : f a b with
  | .error e' =>
    rw [hf] at h
    exact ⟨a, b, hf.trans (congrArg _ (Except.error.inj h))⟩
  | .ok c =>
    obtain ⟨z, hz⟩ := ofNat_ok hx.1 c
    simp [hf, hz] at h

theorem WellFormed.add_ok {x y : Numeral} (hx : x.WellFormed) (hy : y.WellFormed) :
    ∃ z, x.add y = .ok z := by
  match h : x.add y with
  | .ok z => exact ⟨z, rfl⟩
  | .error e =>
    obtain ⟨a, b, hf⟩ := hx.combine_error hy h
    exact absurd hf (by simp)

theorem WellFormed.mul_ok {x y : Numeral} (hx : x.WellFormed) (hy : y.WellFormed) :
    ∃ z, x.mul y = .ok z := by
  match h : x.mul y with
  | .ok z => exact ⟨z, rfl⟩
  | .error e =>
    obtain ⟨a, b, hf⟩ := hx.combine_error hy h
    exact absurd hf (by simp)

theorem WellFormed.sub_error {x y : Numeral} {e : NumeralError} (hx : x.WellFormed)
    (hy : y.WellFormed) (h : x.sub y = .error e) : e = .negative := by
  obtain ⟨a, b, hf⟩ := hx.combine_error hy h
  split at hf
  · exact (Except.error.inj hf).symm
  · exact absurd hf (by simp)

theorem WellFormed.div_error {x y : Numeral} {e : NumeralError} (hx : x.WellFormed)
    (hy : y.WellFormed) (h : x.div y = .error e) : e = .divisionByZero := by
  obtain ⟨a, b, hf⟩ := hx.combine_error hy h
  split at hf
  · exact (Except.error.inj hf).symm
  · exact absurd hf (by simp)

theorem wellFormed_of_rebase {x z : Numeral} {base : Nat} (h : x.rebase base = .ok z) :
    z.WellFormed := by
  obtain ⟨n, -, h⟩ := bind_eq_ok.mp h
  exact wellFormed_of_ofNat h

theorem WellFormed.rebase_ok {x : Numeral} {base : Nat} (hx : x.WellFormed) (hb : IsBase base) :
    ∃ z, x.rebase base = .ok z := by
  obtain ⟨n, hn⟩ := hx.toNat_ok
  obtain ⟨z, hz⟩ := ofNat_ok hb n
  exact ⟨z, by rw [rebase, hn]; exact hz⟩

theorem wellFormed_of_sqrt {x z : Numeral} (h : x.sqrt = .ok z) : z.WellFormed := by
  obtain ⟨n, -, h⟩ := bind_eq_ok.mp h
  exact wellFormed_of_ofNat h

theorem WellFormed.sqrt_ok {x : Numeral} (hx : x.WellFormed) : ∃ z, x.sqrt = .ok z := by
  obtain ⟨n, hn⟩ := hx.toNat_ok
  obtain ⟨z, hz⟩ := ofNat_ok hx.1 (floorRoot n)
  exact ⟨z, by rw [sqrt, hn]; exact hz⟩

end Numeral

end Radix
