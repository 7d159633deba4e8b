import Radix.Proofs.Eval.Visit
import Radix.Proofs.Operation
import Radix.Proofs.WellFormed

/-!
# Proofs/ShortCircuit — an operator that skips its right operand misses nothing

    left ──▸ a ──┬── decides ──────────▸ 0 or 1
                 └── right ──▸ b ──────▸ op.apply a b

An expression evaluates the logical operators by itself, since it may have to skip the right
operand; `Operator.apply` has them once more, for two values that are there already.  Where the left
value decides, no right value could have changed the result, and where it does not, the expression
does just what the operator on values does (`Expr.shortCircuit_eager`).  Between the two there is
nothing, because a well-formed value is always true or false (`Value.WellFormed.truth_eq`).
-/

namespace Radix

/-- A value counts as true when it is a number other than zero or a text with characters. -/
def Value.Truthy : Value → Prop
  | .numeral x => x.value ≠ 0
  | .text s => s ≠ ""
  | .unit => False

instance (v : Value) : Decidable v.Truthy :=
  match v with
  | .numeral x => inferInstanceAs (Decidable (x.value ≠ 0))
  | .text s => inferInstanceAs (Decidable (s ≠ ""))
  | .unit => .isFalse id

theorem Value.WellFormed.truth_eq {v : Value} (h : v.WellFormed) :
    v.truth = .ok (decide v.Truthy) := by
  match v with
  | .numeral x =>
    rw [Numeral.WellFormed.truth_numeral h]
    exact congrArg Except.ok (Bool.eq_iff_iff.mpr (bne_iff_ne.trans decide_eq_true_iff.symm))
  | .text s =>
    have counts : (!s.isEmpty) = true ↔ s ≠ "" := by simp
    exact congrArg Except.ok (Bool.eq_iff_iff.mpr (counts.trans decide_eq_true_iff.symm))
  | .unit => rfl

/-! ## Operators -/

namespace Eval

variable {ev : Expr → Run Value} {op : Operator} {l r : Expr} {a b : Value} {s t u : State}

/-- An operator whose right operand is evaluated is the operator on values. -/
theorem operation_of_needsRight (ha : ev l s = .done a t) (hn : NeedsRight op a)
    (hb : ev r t = .done b u) : operation ev op l r s = Run.lift (op.apply a b) u := by
  cases op with
  | and =>
    have left : truth a t = .done true t := truth_eq_done.mpr ⟨hn.1 rfl, rfl⟩
    simp only [operation, Run.bind_apply, ha, left, hb, ↓reduceIte]
    rw [Operator.and_eq, hn.1 rfl, truth]
    cases b.truth <;> rfl
  | or =>
    have left : truth a t = .done false t := truth_eq_done.mpr ⟨hn.2 rfl, rfl⟩
    simp only [operation, Run.bind_apply, ha, left, hb, Bool.false_eq_true, ↓reduceIte]
    rw [Operator.or_eq, hn.2 rfl, truth]
    cases b.truth <;> rfl
  | _ => simp only [operation, Run.bind_apply, ha, hb]

theorem operation_and_of_false (ha : ev l s = .done a t) (h : a.truth = .ok false) :
    operation ev .and l r s = .done (.ofBool false) t := by
  have left : truth a t = .done false t := truth_eq_done.mpr ⟨h, rfl⟩
  simp only [operation, Run.bind_apply, ha, left]
  rfl

theorem operation_or_of_true (ha : ev l s = .done a t) (h : a.truth = .ok true) :
    operation ev .or l r s = .done (.ofBool true) t := by
  have left : truth a t = .done true t := truth_eq_done.mpr ⟨h, rfl⟩
  simp only [operation, Run.bind_apply, ha, left]
  rfl

end Eval

/-! ## Expressions -/

namespace Expr

variable {n : Nat} {l : Expr} {a : Value} {s t : State}

theorem WellFormed.eval_done (hl : l.WellFormed) (hs : s.frame.WellFormed)
    (ha : l.eval n s = .done a t) : a.WellFormed :=
  ((Discipline.eval_keeps wellFormed_lawful n).done (c := ()) hl hs ha).1

/-- **Skipping the right operand agrees with having it.**  Let the left operand give a value.  If it
decides, an expression with `&&` is 0 and one with `||` is 1 where the left operand was done, and so
is the operator on that value and any other.  If not, and the right operand gives a value as well,
the operator acts there as it does on the two values, and only then is a failure recovered; this
holds of every operator. -/
theorem shortCircuit_eager (hl : l.WellFormed) (hs : s.frame.WellFormed)
    (ha : l.eval n s = .done a t) (op : Operator) (r : Expr) (offset : Option Nat) :
    (op = .and → ¬ a.Truthy →
      (binary op l r offset).eval (n + 1) s = .done (.numeral ⟨10, ['0']⟩) t ∧
        ∀ b, op.apply a b = .ok (.numeral ⟨10, ['0']⟩)) ∧
    (op = .or → a.Truthy →
      (binary op l r offset).eval (n + 1) s = .done (.numeral ⟨10, ['1']⟩) t ∧
        ∀ b, op.apply a b = .ok (.numeral ⟨10, ['1']⟩)) ∧
    ((op = .and → a.Truthy) → (op = .or → ¬ a.Truthy) → ∀ b u, r.eval n t = .done b u →
      Eval.operation (eval n) op l r s = Run.lift (op.apply a b) u ∧
        (binary op l r offset).eval (n + 1) s = (Run.lift (op.apply a b) u).recover offset) := by
  have truth : a.truth = .ok (decide a.Truthy) := (hl.eval_done hs ha).truth_eq
  have node : (binary op l r offset).eval (n + 1) s =
      (Eval.operation (eval n) op l r s).recover offset := rfl
  rw [node]
  refine ⟨?_, ?_, fun hand hor b u hb => ?_⟩
  · rintro rfl ht
    rw [decide_eq_false ht] at truth
    rw [Eval.operation_and_of_false ha truth]
    exact ⟨rfl, fun b => by rw [Operator.and_eq, truth]; rfl⟩
  · rintro rfl ht
    rw [decide_eq_true ht] at truth
    rw [Eval.operation_or_of_true ha truth]
    exact ⟨rfl, fun b => by rw [Operator.or_eq, truth]; rfl⟩
  · have needs : Eval.NeedsRight op a :=
      ⟨fun h => by rw [truth, decide_eq_true (hand h)],
        fun h => by rw [truth, decide_eq_false (hor h)]⟩
    rw [Eval.operation_of_needsRight ha needs hb]
    exact ⟨rfl, rfl⟩

/-! The left operand reads a line. -/

def reading : Expr := .call "in" [] 0

/-- The right operand fails wherever it is evaluated. -/
def missing : Expr := .call "missing" [] 9

def lineLeft : State where
  frame := Frame.initial { text := [], filename := "", origin := "" }
  console := { feed := .script ["line"] }

def lineRead : State := { lineLeft with console := { feed := .script [] } }

/-- After a line with characters the right operand of `||` is not evaluated, and the sum of the line
and a number fails as it does on the values, before the failure is recovered; after a zero with
leading zeros the right operand of `&&` is not evaluated. -/
theorem shortCircuit_eager_line :
    ((binary .or reading missing (some 5)).eval 2 lineLeft =
        .done (.numeral ⟨10, ['1']⟩) lineRead ∧
      ∀ b, Operator.or.apply (.text "line") b = .ok (.numeral ⟨10, ['1']⟩)) ∧
    (binary .add reading (.numeral ⟨10, ['7']⟩) (some 5)).eval 2 lineLeft =
      .done .unit (lineRead.report (.operands .add .text (.based 10)) 5) ∧
    (binary .and (.numeral ⟨16, ['0', '0']⟩) missing none).eval 2 lineLeft =
      .done (.numeral ⟨10, ['0']⟩) lineLeft := by
  have initial : lineLeft.frame.WellFormed := Frame.initial_wellFormed _
  have call : reading.WellFormed := .intro (by simp [reading]) (by simp [reading, parts])
  have read : reading.eval 1 lineLeft = .done (.text "line") lineRead := rfl
  have zeros : WellFormed (.numeral ⟨16, ['0', '0']⟩) :=
    .intro (fun x hx => numeral.inj hx ▸ Numeral.wellFormed_iff_all.mpr (by decide))
      (by simp [parts])
  obtain ⟨-, or, -⟩ := shortCircuit_eager call initial read .or missing (some 5)
  obtain ⟨-, -, eager⟩ :=
    shortCircuit_eager call initial read .add (.numeral ⟨10, ['7']⟩) (some 5)
  obtain ⟨and, -, -⟩ :=
    shortCircuit_eager (n := 1) (a := .numeral ⟨16, ['0', '0']⟩) zeros initial rfl .and missing none
  exact ⟨or rfl (by decide), (eager (by simp) (by simp) (.numeral ⟨10, ['7']⟩) lineRead rfl).2,
    (and rfl (by decide)).1⟩

end Expr

end Radix
