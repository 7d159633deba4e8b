import Radix.Proofs.Eval.Refusal
import Radix.Proofs.Numeral.Arithmetic

/-!
# Proofs/Operation — three notions of sameness fit together

Digits, value and order: `===` compares what is written, `==` what it stands for, and `<` orders the
numbers behind.  On well-formed numerals the six comparisons are the comparisons of the values
(`Comparison.apply_numeral`), so that they fit together as those of natural numbers do, and the four
operations of arithmetic see nothing but the values and the left base (`Arithmetic.operator_eq_ok`).
Hence `==` is a congruence: what replaces an operand may be written in any way
(`Operator.congruent_of_value_eq`).  Only a value of another kind makes the base of a numeral seen,
since a failure next to it names the kinds of both (`Operator.failsAlike`).
-/

namespace Radix

/-! ## Arithmetic -/

namespace Arithmetic

/-- The operator of an operation. -/
def operator : Arithmetic → Operator
  | .add => .add
  | .sub => .sub
  | .mul => .mul
  | .div => .div

variable (op : Arithmetic) {x y : Numeral}

theorem operator_apply (x y : Numeral) :
    op.operator.apply (.numeral x) (.numeral y) = ofNumeral ((op.apply x y).map .numeral) := by
  cases op <;> rfl

/-- On numerals an operator of arithmetic gives what the operation gives. -/
theorem operator_eq_ok (hx : x.WellFormed) (hy : y.WellFormed) {v : Value} :
    op.operator.apply (.numeral x) (.numeral y) = .ok v ↔ op.Admits x.value y.value ∧
      ∃ z, v = .numeral z ∧ z.Writes x.base (op.result x.value y.value) := by
  have gives (z : Numeral) : op.apply x y = .ok z ↔ _ := op.apply_eq_ok (y := .numeral y) hx hy
  simp only [operator_apply, ofNumeral_eq_ok, map_eq_ok, gives]
  constructor
  · rintro ⟨z, ⟨admits, writes⟩, rfl⟩
    exact ⟨admits, z, rfl, writes⟩
  · rintro ⟨admits, z, rfl, writes⟩
    exact ⟨z, ⟨admits, writes⟩, rfl⟩

theorem operator_eq_error (hx : x.WellFormed) (hy : y.WellFormed) {e : RunError} :
    op.operator.apply (.numeral x) (.numeral y) = .error e ↔
      ¬ op.Admits x.value y.value ∧ e = .numeral op.refusal := by
  have fails (cause : NumeralError) : op.apply x y = .error cause ↔ _ :=
    op.apply_eq_error (y := .numeral y) hx hy
  simp only [operator_apply, ofNumeral_eq_error, map_eq_error, fails, and_assoc, exists_and_left,
    exists_eq_left]
  rfl

end Arithmetic

/-! ## Comparisons -/

/-- The comparisons by value. -/
inductive Comparison where
  | eq | ne | lt | le | gt | ge
  deriving Repr, DecidableEq

namespace Comparison

/-- The operator of a comparison. -/
def operator : Comparison → Operator
  | .eq => .eq
  | .ne => .ne
  | .lt => .lt
  | .le => .le
  | .gt => .gt
  | .ge => .ge

/-- The comparison of two numbers. -/
def holds : Comparison → Nat → Nat → Bool
  | .eq, a, b => a == b
  | .ne, a, b => a != b
  | .lt, a, b => a < b
  | .le, a, b => a ≤ b
  | .gt, a, b => a > b
  | .ge, a, b => a ≥ b

end Comparison

namespace Numeral

variable {x y : Numeral}

theorem WellFormed.truth_numeral (hx : x.WellFormed) :
    (Value.numeral x).truth = .ok (x.value != 0) := by
  rw [Value.truth, isNonzero, hx.toNat_eq]
  rfl

theorem WellFormed.sameNumber_eq (hx : x.WellFormed) (hy : y.WellFormed) :
    x.sameNumber y = .ok (x.value == y.value) := by
  rw [sameNumber, hx.toNat_eq, Operand.toNat, hy.toNat_eq]
  rfl

theorem WellFormed.order_eq (hx : x.WellFormed) (hy : y.WellFormed) :
    x.order y = .ok (compare x.value y.value) := by
  rw [order, hx.toNat_eq, Operand.toNat, hy.toNat_eq]
  rfl

end Numeral

/-- **The comparisons of well-formed numerals are those of their values.** -/
theorem Comparison.apply_numeral {x y : Numeral} (c : Comparison) (hx : x.WellFormed)
    (hy : y.WellFormed) : c.operator.apply (.numeral x) (.numeral y) =
      .ok (.ofBool (c.holds x.value y.value)) := by
  have equal (f : Bool → Value) :
      ofNumeral ((x.sameNumber y).map f) = .ok (f (x.value == y.value)) := by
    rw [hx.sameNumber_eq hy]
    rfl
  have ordered (op : Operator) {b : Bool}
      (h : op.holds (compare x.value y.value) = true ↔ b = true) :
      ofNumeral ((x.order y).map fun o => Value.ofBool (op.holds o)) = .ok (.ofBool b) := by
    rw [hx.order_eq hy, ← Bool.eq_iff_iff.mpr h]
    rfl
  cases c with
  | eq => exact equal .ofBool
  | ne => exact equal fun e => .ofBool !e
  | lt => exact ordered .lt (by simp [Operator.holds, holds, Nat.compare_eq_lt])
  | le => exact ordered .le (by simp [Operator.holds, holds, Nat.isLE_compare])
  | gt => exact ordered .gt (by simp [Operator.holds, holds, Nat.compare_eq_gt])
  | ge => exact ordered .ge (by simp [Operator.holds, holds, Nat.isGE_compare])

/-! ## Equalities -/

theorem Value.ok_ofBool_inj {ε : Type} {s t : Bool} :
    (.ok (.ofBool s) : Except ε Value) = .ok (.ofBool t) ↔ s = t := by
  cases s <;> cases t <;> simp [Value.ofBool]

/-- The operator gives the truth value 1. -/
def Operator.Yields (op : Operator) (a b : Value) : Prop := op.apply a b = .ok (.ofBool true)

theorem Operator.strictEq_apply (a b : Value) :
    Operator.strictEq.apply a b = .ok (.ofBool (a == b)) := by
  cases a <;> cases b <;> rfl

theorem Operator.strictNe_apply (a b : Value) :
    Operator.strictNe.apply a b = .ok (.ofBool (a != b)) := by
  cases a <;> cases b <;> rfl

theorem Operator.strictEq_yields {a b : Value} : Operator.strictEq.Yields a b ↔ a = b := by
  rw [Yields, strictEq_apply, Value.ok_ofBool_inj, beq_iff_eq]

theorem Comparison.yields_iff {x y : Numeral} (c : Comparison) (hx : x.WellFormed)
    (hy : y.WellFormed) :
    c.operator.Yields (.numeral x) (.numeral y) ↔ c.holds x.value y.value = true := by
  rw [Operator.Yields, c.apply_numeral hx hy, Value.ok_ofBool_inj]

/-- Loosely equal numerals are those that stand for one number. -/
theorem Numeral.WellFormed.eq_yields {x y : Numeral} (hx : x.WellFormed) (hy : y.WellFormed) :
    Operator.eq.Yields (.numeral x) (.numeral y) ↔ x.value = y.value :=
  (Comparison.yields_iff .eq hx hy).trans beq_iff_eq

/-- How the four equalities of two values fit together. -/
structure Value.Equalities (a b : Value) : Prop where
  /-- `!=` fails where `==` does, and gives the opposite where it does not. -/
  loose : (∃ e, Operator.eq.apply a b = .error e) ∧ (∃ e, Operator.ne.apply a b = .error e) ∨
    ∃ t, Operator.eq.apply a b = .ok (.ofBool t) ∧ Operator.ne.apply a b = .ok (.ofBool !t)
  /-- `===` and `!==` never fail, and give the opposite of each other. -/
  strict : ∃ t, Operator.strictEq.apply a b = .ok (.ofBool t) ∧
    Operator.strictNe.apply a b = .ok (.ofBool !t)
  /-- What is strictly equal is loosely equal, except that `==` does not compare units. -/
  finer : a.WellFormed → b.WellFormed → Operator.strictEq.Yields a b → Operator.eq.Yields a b ∨
    a = .unit ∧ b = .unit ∧ ∃ e, Operator.eq.apply a b = .error e ∧ e.kind = .type

theorem Value.equalities (a b : Value) : a.Equalities b where
  loose := by
    cases a <;> cases b
    case numeral.numeral x y =>
      have equal : Operator.eq.apply (.numeral x) (.numeral y) =
        ofNumeral ((x.sameNumber y).map .ofBool) := rfl
      have unequal : Operator.ne.apply (.numeral x) (.numeral y) =
        ofNumeral ((x.sameNumber y).map fun e => .ofBool !e) := rfl
      rw [equal, unequal]
      cases x.sameNumber y with
      | ok t => exact .inr ⟨t, rfl, rfl⟩
      | error e => exact .inl ⟨⟨_, rfl⟩, ⟨_, rfl⟩⟩
    case text.text s t => exact .inr ⟨s == t, rfl, rfl⟩
    all_goals exact .inl ⟨⟨_, rfl⟩, ⟨_, rfl⟩⟩
  strict := ⟨a == b, Operator.strictEq_apply a b, Operator.strictNe_apply a b⟩
  finer ha _ same := by
    obtain rfl := Operator.strictEq_yields.mp same
    cases a with
    | numeral x => exact .inl ((Numeral.WellFormed.eq_yields ha ha).mpr rfl)
    | text s => exact .inl (Value.ok_ofBool_inj.mpr (beq_self_eq_true s))
    | unit => exact .inr ⟨rfl, rfl, _, rfl, rfl⟩

/-! ## Order -/

theorem Numeral.WellFormed.lt_yields {x y : Numeral} (hx : x.WellFormed) (hy : y.WellFormed) :
    Operator.lt.Yields (.numeral x) (.numeral y) ↔ x.value < y.value :=
  (Comparison.yields_iff .lt hx hy).trans decide_eq_true_iff

/-- How the comparisons of two numerals fit together. -/
structure Numeral.Ordered (x y : Numeral) : Prop where
  /-- Exactly one of `<`, `==` and `>` holds. -/
  trichotomy :
    (Operator.lt.Yields (.numeral x) (.numeral y) ∧ ¬ Operator.eq.Yields (.numeral x) (.numeral y) ∧
      ¬ Operator.gt.Yields (.numeral x) (.numeral y)) ∨
    (¬ Operator.lt.Yields (.numeral x) (.numeral y) ∧ Operator.eq.Yields (.numeral x) (.numeral y) ∧
      ¬ Operator.gt.Yields (.numeral x) (.numeral y)) ∨
    (¬ Operator.lt.Yields (.numeral x) (.numeral y) ∧
      ¬ Operator.eq.Yields (.numeral x) (.numeral y) ∧
      Operator.gt.Yields (.numeral x) (.numeral y))
  le_iff : Operator.le.Yields (.numeral x) (.numeral y) ↔
    Operator.lt.Yields (.numeral x) (.numeral y) ∨ Operator.eq.Yields (.numeral x) (.numeral y)
  ge_iff : Operator.ge.Yields (.numeral x) (.numeral y) ↔
    Operator.gt.Yields (.numeral x) (.numeral y) ∨ Operator.eq.Yields (.numeral x) (.numeral y)
  eq_iff : Operator.eq.Yields (.numeral x) (.numeral y) ↔ x.value = y.value
  /-- In one base and without leading zeros, `===` tells apart no more than `==`. -/
  strict : x.base = y.base → x.Canonical → y.Canonical →
    Operator.strictEq.apply (.numeral x) (.numeral y) = Operator.eq.apply (.numeral x) (.numeral y)

/-- A numeral without leading zeros is known from its base and its value. -/
theorem Numeral.WellFormed.eq_iff_value_eq {x y : Numeral} (hx : x.WellFormed) (hy : y.WellFormed)
    (base : x.base = y.base) (cx : x.Canonical) (cy : y.Canonical) :
    x = y ↔ x.value = y.value :=
  ⟨congrArg value, fun h => Writes.unique ⟨hx, base, cx, h⟩ ⟨hy, rfl, cy, rfl⟩⟩

theorem Numeral.WellFormed.ordered {x y : Numeral} (hx : x.WellFormed) (hy : y.WellFormed) :
    x.Ordered y := by
  have lt := hx.lt_yields hy
  have le : Operator.le.Yields (.numeral x) (.numeral y) ↔ x.value ≤ y.value :=
    (Comparison.yields_iff .le hx hy).trans decide_eq_true_iff
  have gt : Operator.gt.Yields (.numeral x) (.numeral y) ↔ x.value > y.value :=
    (Comparison.yields_iff .gt hx hy).trans decide_eq_true_iff
  have ge : Operator.ge.Yields (.numeral x) (.numeral y) ↔ x.value ≥ y.value :=
    (Comparison.yields_iff .ge hx hy).trans decide_eq_true_iff
  have eq := hx.eq_yields hy
  refine ⟨?_, ?_, ?_, eq, fun base cx cy => ?_⟩
  · rw [lt, eq, gt]
    omega
  · rw [le, lt, eq]
    omega
  · rw [ge, gt, eq]
    omega
  · have equal : Operator.eq.apply (.numeral x) (.numeral y) = _ :=
      Comparison.apply_numeral .eq hx hy
    rw [Operator.strictEq_apply, equal, Value.ok_ofBool_inj, Bool.eq_iff_iff, beq_iff_eq,
      Value.numeral.injEq, hx.eq_iff_value_eq hy base cx cy]
    exact beq_iff_eq.symm

/-! ## Congruence -/

namespace Operator

variable {a b : Value} {s t : Bool}

theorem and_eq (a b : Value) : Operator.and.apply a b = ofNumeral (do
    if ← a.truth then return .ofBool (← b.truth) else return .ofBool false) := by
  cases a <;> cases b <;> rfl

theorem or_eq (a b : Value) : Operator.or.apply a b = ofNumeral (do
    if ← a.truth then return .ofBool true else return .ofBool (← b.truth)) := by
  cases a <;> cases b <;> rfl

theorem and_apply (ha : a.truth = .ok s) (hb : b.truth = .ok t) :
    Operator.and.apply a b = .ok (.ofBool (s && t)) := by
  rw [and_eq, ha, hb]
  cases s <;> rfl

theorem or_apply (ha : a.truth = .ok s) (hb : b.truth = .ok t) :
    Operator.or.apply a b = .ok (.ofBool (s || t)) := by
  rw [or_eq, ha, hb]
  cases s <;> rfl

/-- What an operator makes of two numerals, and of two others in their place. -/
structure Congruent (x y x' y' : Numeral) : Prop where
  comparison (c : Comparison) : c.operator.apply (.numeral x) (.numeral y) =
    c.operator.apply (.numeral x') (.numeral y')
  failure (op : Operator) (e : RunError) : op.apply (.numeral x) (.numeral y) = .error e ↔
    op.apply (.numeral x') (.numeral y') = .error e
  /-- Results are loosely equal, and strictly if the left bases are equal. -/
  arithmetic (o : Arithmetic) (v : Value) : o.operator.apply (.numeral x) (.numeral y) = .ok v →
    ∃ v', o.operator.apply (.numeral x') (.numeral y') = .ok v' ∧ Operator.eq.Yields v v' ∧
      (x.base = x'.base → Operator.strictEq.Yields v v')

theorem congruent_of_value_eq {x y x' y' : Numeral} (hx : x.WellFormed) (hy : y.WellFormed)
    (hx' : x'.WellFormed) (hy' : y'.WellFormed) (left : x.value = x'.value)
    (right : y.value = y'.value) : Congruent x y x' y' := by
  have comparison (c : Comparison) : c.operator.apply (.numeral x) (.numeral y) =
      c.operator.apply (.numeral x') (.numeral y') := by
    rw [c.apply_numeral hx hy, c.apply_numeral hx' hy', left, right]
  refine ⟨comparison, fun op e => ?_, fun o v h => ?_⟩
  · have refused (o : Arithmetic) : o.operator.apply (.numeral x) (.numeral y) = .error e ↔
        o.operator.apply (.numeral x') (.numeral y') = .error e := by
      rw [o.operator_eq_error hx hy, o.operator_eq_error hx' hy', left, right]
    have compared (c : Comparison) : c.operator.apply (.numeral x) (.numeral y) = .error e ↔
        c.operator.apply (.numeral x') (.numeral y') = .error e := by
      rw [comparison c]
    cases op with
    | add => exact refused .add
    | sub => exact refused .sub
    | mul => exact refused .mul
    | div => exact refused .div
    | eq => exact compared .eq
    | ne => exact compared .ne
    | lt => exact compared .lt
    | le => exact compared .le
    | gt => exact compared .gt
    | ge => exact compared .ge
    | strictEq => simp [strictEq_apply]
    | strictNe => simp [strictNe_apply]
    | and =>
      simp [and_apply hx.truth_numeral hy.truth_numeral,
        and_apply hx'.truth_numeral hy'.truth_numeral]
    | or =>
      simp [or_apply hx.truth_numeral hy.truth_numeral,
        or_apply hx'.truth_numeral hy'.truth_numeral]
  · obtain ⟨admits, z, rfl, hz⟩ := (o.operator_eq_ok hx hy).mp h
    obtain ⟨z', hz'⟩ := Numeral.exists_writes hx'.1 (o.result x.value y.value)
    refine ⟨.numeral z', (o.operator_eq_ok hx' hy').mpr ?_, ?_, fun base => ?_⟩
    · rw [← left, ← right]
      exact ⟨admits, z', rfl, hz'⟩
    · exact (hz.wellFormed.eq_yields hz'.wellFormed).mpr (hz.value_eq.trans hz'.value_eq.symm)
    · rw [strictEq_yields, hz.unique (base ▸ hz')]

/-- What an operator makes of a numeral next to a value of another kind, and of another numeral in
its place.  A failure names the kinds of the operands, and the kind of a numeral is its base. -/
structure FailsAlike (op : Operator) (x x' : Numeral) (b : Value) : Prop where
  left (e : RunError) : op.apply (.numeral x) b = .error e →
    e = .operands op (.based x.base) b.kind ∧
      op.apply (.numeral x') b = .error (.operands op (.based x'.base) b.kind)
  right (e : RunError) : op.apply b (.numeral x) = .error e →
    e = .operands op b.kind (.based x.base) ∧
      op.apply b (.numeral x') = .error (.operands op b.kind (.based x'.base))

theorem failsAlike {x x' : Numeral} (hx : x.WellFormed) (op : Operator)
    (hb : ∀ y, b ≠ .numeral y) : op.FailsAlike x x' b := by
  have total (h : ∀ e, op.apply (.numeral x) b ≠ .error e)
      (h' : ∀ e, op.apply b (.numeral x) ≠ .error e) : op.FailsAlike x x' b :=
    ⟨fun e he => absurd he (h e), fun e he => absurd he (h' e)⟩
  have truth := hx.truth_numeral
  obtain ⟨t, ht⟩ : ∃ t, b.truth = .ok t := by
    cases b with
    | numeral y => exact absurd rfl (hb y)
    | text s | unit => exact ⟨_, rfl⟩
  cases op with
  | strictEq => exact total (by simp [strictEq_apply]) (by simp [strictEq_apply])
  | strictNe => exact total (by simp [strictNe_apply]) (by simp [strictNe_apply])
  | and => exact total (by simp [and_apply truth ht]) (by simp [and_apply ht truth])
  | or => exact total (by simp [or_apply truth ht]) (by simp [or_apply ht truth])
  | add | sub | mul | div | eq | ne | lt | le | gt | ge =>
    cases b with
    | numeral y => exact absurd rfl (hb y)
    | text s | unit =>
      exact ⟨fun e he => ⟨(Except.error.inj he).symm, rfl⟩,
        fun e he => ⟨(Except.error.inj he).symm, rfl⟩⟩

end Operator

/-- **The comparisons are coherent.**  For any two values `!=` is the opposite of `==` and `!==` the
opposite of `===`, which is the finer one.  On well-formed numerals the comparisons are those of a
total order on what `==` does not tell apart.  And `==` is a congruence of the operators: numerals
that are loosely equal to the operands give the same comparisons, the same failures and loosely
equal results.  Next to a value of another kind they give the same failures but for the base, which
a failure names there. -/
theorem comparisons_coherent :
    (∀ a b : Value, a.Equalities b) ∧
    (∀ x y : Numeral, x.WellFormed → y.WellFormed → x.Ordered y) ∧
    (∀ x y z : Numeral, x.WellFormed → y.WellFormed → z.WellFormed →
      Operator.lt.Yields (.numeral x) (.numeral y) → Operator.lt.Yields (.numeral y) (.numeral z) →
      Operator.lt.Yields (.numeral x) (.numeral z)) ∧
    Equivalence (fun x y : {x : Numeral // x.WellFormed} =>
      Operator.eq.Yields (.numeral x) (.numeral y)) ∧
    (∀ x y x' y' : Numeral, x.WellFormed → y.WellFormed → x'.WellFormed → y'.WellFormed →
      Operator.eq.Yields (.numeral x) (.numeral x') →
      Operator.eq.Yields (.numeral y) (.numeral y') → Operator.Congruent x y x' y') ∧
    ∀ x x' : Numeral, x.WellFormed → x'.WellFormed →
      Operator.eq.Yields (.numeral x) (.numeral x') → ∀ (op : Operator) (b : Value),
      (∀ y, b ≠ .numeral y) → op.FailsAlike x x' b := by
  refine ⟨Value.equalities, fun x y hx hy => hx.ordered hy, fun x y z hx hy hz xy yz => ?_, ?_,
    fun x y x' y' hx hy hx' hy' left right => ?_, fun x x' hx _ _ op b hb => op.failsAlike hx hb⟩
  · exact (hx.lt_yields hz).mpr (((hx.lt_yields hy).mp xy).trans ((hy.lt_yields hz).mp yz))
  · have equal (x y : {x : Numeral // x.WellFormed}) :
        Operator.eq.Yields (.numeral x) (.numeral y) ↔ x.1.value = y.1.value :=
      x.2.eq_yields y.2
    simp only [equal]
    exact (eq_equivalence (α := Nat)).comap fun x : {x : Numeral // x.WellFormed} => x.1.value
  · exact Operator.congruent_of_value_eq hx hy hx' hy' ((hx.eq_yields hx').mp left)
      ((hy.eq_yields hy').mp right)

/-- A hexadecimal numeral with a leading zero is loosely equal to a decimal one but not strictly.  A
binary numeral can be taken from either with the same effect, and a text can be added to neither. -/
theorem comparisons_coherent_leadingZero :
    Operator.eq.Yields (.numeral ⟨16, ['0', 'f', 'f']⟩) (.numeral ⟨10, ['2', '5', '5']⟩) ∧
    ¬ Operator.strictEq.Yields (.numeral ⟨16, ['0', 'f', 'f']⟩) (.numeral ⟨10, ['2', '5', '5']⟩) ∧
    Operator.Congruent ⟨16, ['0', 'f', 'f']⟩ ⟨2, ['1', '1']⟩ ⟨10, ['2', '5', '5']⟩ ⟨10, ['3']⟩ ∧
    Operator.add.FailsAlike ⟨16, ['0', 'f', 'f']⟩ ⟨10, ['2', '5', '5']⟩ (.text "x") := by
  have hex : Numeral.WellFormed ⟨16, ['0', 'f', 'f']⟩ :=
    Numeral.wellFormed_iff_all.mpr (by decide)
  have decimal : Numeral.WellFormed ⟨10, ['2', '5', '5']⟩ :=
    Numeral.wellFormed_iff_all.mpr (by decide)
  have binary : Numeral.WellFormed ⟨2, ['1', '1']⟩ :=
    Numeral.wellFormed_iff_all.mpr (by decide)
  have three : Numeral.WellFormed ⟨10, ['3']⟩ :=
    Numeral.wellFormed_iff_all.mpr (by decide)
  obtain ⟨-, ordered, -, -, congruent, mixed⟩ := comparisons_coherent
  have equal := (ordered _ _ hex decimal).eq_iff.mpr rfl
  exact ⟨equal, fun strict => absurd (Operator.strictEq_yields.mp strict) (by decide),
    congruent _ _ _ _ hex binary decimal three equal ((ordered _ _ binary three).eq_iff.mpr rfl),
    mixed _ _ hex decimal equal .add (.text "x") (by simp)⟩

/-- Loosely equal numerals do not have all failures in common: the hexadecimal `f` and 15 cannot be
added to a text, and the failures name different bases. -/
theorem hexText_failure_names_base :
    Operator.eq.Yields (.numeral ⟨16, ['f']⟩) (.numeral ⟨10, ['1', '5']⟩) ∧
    (Operator.add.apply (.numeral ⟨16, ['f']⟩) (.text "x") =
        .error (.operands .add (.based 16) .text) ∧
      RunError.message (.operands .add (.based 16) .text) =
        "Unsupported operation: '+' between b16 and str") ∧
    (Operator.add.apply (.numeral ⟨10, ['1', '5']⟩) (.text "x") =
        .error (.operands .add (.based 10) .text) ∧
      RunError.message (.operands .add (.based 10) .text) =
        "Unsupported operation: '+' between b10 and str") ∧
    ¬ ∀ x x' : Numeral, x.WellFormed → x'.WellFormed →
      Operator.eq.Yields (.numeral x) (.numeral x') → ∀ (op : Operator) (b : Value) (e : RunError),
      op.apply (.numeral x) b = .error e → op.apply (.numeral x') b = .error e := by
  have hex : Numeral.WellFormed ⟨16, ['f']⟩ := Numeral.wellFormed_iff_all.mpr (by decide)
  have decimal : Numeral.WellFormed ⟨10, ['1', '5']⟩ :=
    Numeral.wellFormed_iff_all.mpr (by decide)
  have equal := (hex.eq_yields decimal).mpr rfl
  refine ⟨equal, ⟨rfl, by decide⟩, ⟨rfl, by decide⟩, fun unchanged => ?_⟩
  have same := unchanged _ _ hex decimal equal .add (.text "x") _ rfl
  exact absurd same (by decide)

end Radix
