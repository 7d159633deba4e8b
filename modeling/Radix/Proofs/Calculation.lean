import Radix.Eval.Fuel
import Radix.Proofs.Operation

/-!
# Proofs/Calculation — arithmetic computes exactly or reports exactly

A calculation is a tree of well-formed numerals and the four operators.  It is *defined* when no
part of it subtracts a larger value or divides by zero, and then it comes to the exact number, in
the base of its leftmost numeral.  Where a part is not defined, its operator reports that numbers were
refused and goes on with unit, and from there on every operator above it reports that unit is no
operand.  So what one operator makes of its operands (`Calculation.apply_of_defined`,
`Calculation.recover_of_undefined`) decides the whole run, by induction over the tree
(`Calculation.exists_eval`).
-/

namespace Radix

/-! ## Units and reports -/

/-- No operation is done with unit. -/
theorem Arithmetic.operator_apply_unit (op : Arithmetic) {a b : Value}
    (h : a = .unit ∨ b = .unit) :
    op.operator.apply a b = .error (.operands op.operator a.kind b.kind) := by
  rcases h with rfl | rfl
  · cases op <;> cases b <;> rfl
  · cases op <;> cases a <;> rfl

namespace State

/-- The state with reports added. -/
def reporting (s : State) (ds : List Diagnostic) : State :=
  { s with console := { s.console with diagnostics := s.console.diagnostics ++ ds } }

theorem reporting_nil (s : State) : s.reporting [] = s := by
  simp [reporting]

theorem reporting_append (s : State) (ds es : List Diagnostic) :
    (s.reporting ds).reporting es = s.reporting (ds ++ es) := by
  simp [reporting]

end State

/-! ## Calculations -/

/-- A tree of well-formed numerals and arithmetic, with each operator at an offset. -/
inductive Calculation where
  | numeral (x : Numeral) (wellFormed : x.WellFormed)
  | operation (op : Arithmetic) (left right : Calculation) (offset : Nat)

namespace Calculation

/-- The expression that a calculation is. -/
def toExpr : Calculation → Expr
  | .numeral x _ => .numeral x
  | .operation op left right offset => .binary op.operator left.toExpr right.toExpr (some offset)

/-- The number that a calculation comes to.  It means something only if the calculation is
defined. -/
def value : Calculation → Nat
  | .numeral x _ => x.value
  | .operation op left right _ => op.result left.value right.value

/-- The base of the leftmost numeral. -/
def base : Calculation → Nat
  | .numeral x _ => x.base
  | .operation _ left _ _ => left.base

/-- No part subtracts a larger value or divides by zero. -/
def Defined : Calculation → Prop
  | .numeral _ _ => True
  | .operation op left right _ => left.Defined ∧ right.Defined ∧ op.Admits left.value right.value

instance decidableDefined : (t : Calculation) → Decidable t.Defined
  | .numeral _ _ => .isTrue trivial
  | .operation _ left right _ =>
    have := decidableDefined left
    have := decidableDefined right
    inferInstanceAs (Decidable (_ ∧ _ ∧ _))

/-- How many operators stand above each other. -/
def height : Calculation → Nat
  | .numeral _ _ => 0
  | .operation _ left right _ => max left.height right.height + 1

/-- The kind of what a calculation gives. -/
def kind (t : Calculation) : Kind := if t.Defined then .based t.base else .unit

/-- An operator of a calculation, with its operands. -/
structure Node where
  op : Arithmetic
  left : Calculation
  right : Calculation
  offset : Nat

/-- The operators of a calculation, each behind those of its operands. -/
def nodes : Calculation → List Node
  | .numeral _ _ => []
  | .operation op left right offset => left.nodes ++ right.nodes ++ [⟨op, left, right, offset⟩]

namespace Node

/-- The part of the calculation that the operator stands for. -/
def toCalculation (n : Node) : Calculation := .operation n.op n.left n.right n.offset

/-- The report of an operator whose part is not defined: a refusal of its numbers if both operands
are defined, and otherwise of their kinds. -/
def report (unit : SourceUnit) (n : Node) : Diagnostic :=
  if n.left.Defined ∧ n.right.Defined then
    .placed unit.text n.offset "ValueError" n.op.refusal.message unit.filename
  else
    .placed unit.text n.offset "TypeError"
      (RunError.operands n.op.operator n.left.kind n.right.kind).message unit.filename

end Node

/-- The operators whose parts are not defined. -/
def undefinedNodes (t : Calculation) : List Node := t.nodes.filter (¬ ·.toCalculation.Defined)

theorem undefinedNodes_operation (op : Arithmetic) (left right : Calculation) (offset : Nat) :
    (operation op left right offset).undefinedNodes =
      left.undefinedNodes ++ right.undefinedNodes ++
        if (operation op left right offset).Defined then [] else [⟨op, left, right, offset⟩] := by
  rw [undefinedNodes, nodes, List.filter_append, List.filter_append]
  by_cases h : (operation op left right offset).Defined <;>
    simp [h, Node.toCalculation, undefinedNodes]

/-- What a calculation reports in a source unit. -/
def reports (unit : SourceUnit) (t : Calculation) : List Diagnostic :=
  t.undefinedNodes.map (Node.report unit)

theorem reports_operation (unit : SourceUnit) (op : Arithmetic) (left right : Calculation)
    (offset : Nat) : (operation op left right offset).reports unit =
      left.reports unit ++ right.reports unit ++ if (operation op left right offset).Defined
        then [] else [Node.report unit ⟨op, left, right, offset⟩] := by
  rw [reports, undefinedNodes_operation, List.map_append, List.map_append, apply_ite (List.map _)]
  rfl

theorem reports_of_defined (unit : SourceUnit) {t : Calculation} (h : t.Defined) :
    t.reports unit = [] := by
  induction t with
  | numeral x hx => rfl
  | operation op left right offset ihl ihr =>
    rw [reports_operation, if_pos h, ihl h.1, ihr h.2.1]
    rfl

/-- What a calculation gives. -/
structure Gives (t : Calculation) (v : Value) : Prop where
  /-- The exact number in the base of the leftmost numeral, without leading zeros unless the
  calculation is that numeral itself. -/
  defined : t.Defined → ∃ x : Numeral, v = .numeral x ∧ x.WellFormed ∧ x.base = t.base ∧
    x.value = t.value ∧ (x.Canonical ∨ ∃ h, t = .numeral x h)
  undefined : ¬ t.Defined → v = .unit

theorem Gives.kind_eq {t : Calculation} {v : Value} (h : t.Gives v) : v.kind = t.kind := by
  by_cases ht : t.Defined
  · obtain ⟨x, rfl, -, hbase, -⟩ := h.defined ht
    rw [kind, if_pos ht, ← hbase]
    rfl
  · rw [kind, if_neg ht, h.undefined ht]
    rfl

/-! ## One operator -/

section Operation

variable {op : Arithmetic} {left right : Calculation} {offset : Nat} {a b : Value}

/-- Both operands are evaluated, and then the operator is applied. -/
theorem eval_operation {n : Nat} {s t u : State} (hl : left.toExpr.eval n s = .done a t)
    (hr : right.toExpr.eval n t = .done b u) :
    (operation op left right offset).toExpr.eval (n + 1) s =
      (Run.lift (op.operator.apply a b) u).recover (some offset) := by
  rw [toExpr, Expr.eval_succ, Eval.step, Run.recover]
  cases op <;> simp [Eval.operation, Arithmetic.operator, hl, hr]

theorem apply_of_defined (hl : left.Gives a) (hr : right.Gives b)
    (h : (operation op left right offset).Defined) :
    ∃ v, op.operator.apply a b = .ok v ∧ (operation op left right offset).Gives v := by
  obtain ⟨x, rfl, hx, xbase, xvalue, -⟩ := hl.defined h.1
  obtain ⟨y, rfl, hy, -, yvalue, -⟩ := hr.defined h.2.1
  obtain ⟨z, hz⟩ := Numeral.exists_writes hx.1 (op.result x.value y.value)
  refine ⟨.numeral z, (op.operator_eq_ok hx hy).mpr ⟨?_, z, rfl, hz⟩, fun _ => ?_, fun hn => ?_⟩
  · rw [xvalue, yvalue]
    exact h.2.2
  · refine ⟨z, rfl, hz.wellFormed, hz.base_eq.trans xbase, ?_, .inl hz.canonical⟩
    rw [hz.value_eq, xvalue, yvalue]
    rfl
  · exact absurd h hn

theorem recover_of_undefined (hl : left.Gives a) (hr : right.Gives b)
    (h : ¬ (operation op left right offset).Defined) (s : State) :
    (Run.lift (op.operator.apply a b) s).recover (some offset) =
      .done .unit (s.reporting [Node.report s.frame.source ⟨op, left, right, offset⟩]) := by
  rw [Node.report]
  by_cases both : left.Defined ∧ right.Defined
  · obtain ⟨x, rfl, hx, -, xvalue, -⟩ := hl.defined both.1
    obtain ⟨y, rfl, hy, -, yvalue, -⟩ := hr.defined both.2
    have refused : ¬ op.Admits x.value y.value := by
      rw [xvalue, yvalue]
      exact fun admits => h ⟨both.1, both.2, admits⟩
    rw [if_pos both, (op.operator_eq_error hx hy).mpr ⟨refused, rfl⟩]
    rfl
  · have unit : a = .unit ∨ b = .unit :=
      (not_and_or.mp both).imp hl.undefined hr.undefined
    rw [if_neg both, op.operator_apply_unit unit, hl.kind_eq, hr.kind_eq]
    rfl

end Operation

/-! ## The whole run -/

/-- **What a calculation gives does not depend on where it is evaluated**, and it leaves nothing
behind but its reports. -/
theorem exists_eval (t : Calculation) : ∃ v, t.Gives v ∧ ∀ n s, t.height < n →
    t.toExpr.eval n s = .done v (s.reporting (t.reports s.frame.source)) := by
  induction t with
  | numeral x hx =>
    have gives : (numeral x hx).Gives (.numeral x) :=
      ⟨fun _ => ⟨x, rfl, hx, rfl, rfl, .inr ⟨hx, rfl⟩⟩, fun h => absurd trivial h⟩
    refine ⟨.numeral x, gives, fun n s h => ?_⟩
    obtain ⟨n, rfl⟩ : ∃ k, n = k + 1 := ⟨n - 1, by omega⟩
    exact congrArg (Outcome.done _) s.reporting_nil.symm
  | operation op left right offset ihl ihr =>
    obtain ⟨a, ha, hl⟩ := ihl
    obtain ⟨b, hb, hr⟩ := ihr
    -- The reports of the operands are there when the operator is applied, and its own comes last.
    have step (n : Nat) (s : State) (h : (operation op left right offset).height < n) :
        (operation op left right offset).toExpr.eval n s =
          (Run.lift (op.operator.apply a b) (s.reporting
            (left.reports s.frame.source ++ right.reports s.frame.source))).recover
              (some offset) := by
      obtain ⟨n, rfl⟩ : ∃ k, n = k + 1 := ⟨n - 1, by omega⟩
      rw [height] at h
      rw [eval_operation (hl n s (by omega)) (hr n _ (by omega)), State.reporting_append]
      rfl
    by_cases h : (operation op left right offset).Defined
    · obtain ⟨v, hv, gives⟩ := apply_of_defined ha hb h
      refine ⟨v, gives, fun n s hn => ?_⟩
      rw [step n s hn, hv, reports_operation, if_pos h, List.append_nil]
      rfl
    · refine ⟨.unit, ⟨fun hd => absurd hd h, fun _ => rfl⟩, fun n s hn => ?_⟩
      rw [step n s hn, recover_of_undefined ha hb h, reports_operation, if_neg h,
        State.reporting_append]
      rfl

/-- **Arithmetic computes exactly or reports exactly.**  In every state a calculation ends, with no
change but its reports.  If it is defined there are none, and it gives its exact number in the base
of its leftmost numeral, without leading zeros unless it is that numeral.  Otherwise it gives unit,
and each operator whose part is not defined has reported once, behind those of its operands and at
its own offset. -/
theorem eval_exact (t : Calculation) (s : State) :
    ∃ v, (∃ k, ∀ n, k ≤ n →
        t.toExpr.eval n s = .done v (s.reporting (t.reports s.frame.source))) ∧
      (t.Defined → t.reports s.frame.source = [] ∧ ∃ x : Numeral, v = .numeral x ∧
        x.WellFormed ∧ x.base = t.base ∧ x.value = t.value ∧
        (x.Canonical ∨ ∃ h, t = .numeral x h)) ∧
      (¬ t.Defined → v = .unit) := by
  obtain ⟨v, gives, ends⟩ := t.exists_eval
  exact ⟨v, ⟨t.height + 1, fun n hn => ends n s hn⟩,
    fun h => ⟨reports_of_defined _ h, gives.defined h⟩, gives.undefined⟩

/-- A single digit as a calculation. -/
def ofDigit (base : Nat) (c : Char) (h : IsBase base ∧ isDigitOf base c = true) : Calculation :=
  .numeral ⟨base, [c]⟩ (Numeral.wellFormed_iff_all.mpr ⟨h.1, by simp, by simpa using h.2⟩)

/-- The calculation `(1 - 2) * b16@f + 7 / 0`. -/
def cascade : Calculation :=
  .operation .add
    (.operation .mul
      (.operation .sub (ofDigit 10 '1' (by decide)) (ofDigit 10 '2' (by decide)) 3)
      (ofDigit 16 'f' (by decide)) 8)
    (.operation .div (ofDigit 10 '7' (by decide)) (ofDigit 10 '0' (by decide)) 20) 16

example : cascade.undefinedNodes.map (fun n => (n.offset, (n.report ⟨[], "", ""⟩).label)) =
    [(3, "ValueError"), (8, "TypeError"), (20, "ValueError"), (16, "TypeError")] := by
  decide

end Calculation

end Radix
