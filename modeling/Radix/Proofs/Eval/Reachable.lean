import Radix.Proofs.Eval.Visit

/-!
# Proofs/Eval/Reachable — the states that sessions come to

A session starts with the native functions and no variables, evaluates statements of programs that
were read, each to its result or to its failure, and binds variables to values that were made from
digits or numbers.  What a lawful discipline allows at the start, of such statements and of such
values, it finds in every state that is reached (`Discipline.reachable_keeps`).
-/

namespace Radix

/-- The expression is a statement of a program that was read. -/
def Expr.Parsed (e : Expr) : Prop := ∃ ts es, Read.program ts = .ok es ∧ e ∈ es

/-- A numeral in the value was made from digits or from a number. -/
def Value.Made (v : Value) : Prop :=
  ∀ x, v = .numeral x →
    (∃ base digits, Numeral.ofDigits base digits = .ok x) ∨ ∃ base n, Numeral.ofNat base n = .ok x

/-- A session can come to the state. -/
inductive Reachable : State → Prop
  | start {source console} : Reachable ⟨.initial source, console⟩
  | evaluated {s n e r t} : Reachable s → e.Parsed → runStatement n e s = some (r, t) → Reachable t
  | bound {s name v} : Reachable s → v.Made → Reachable { s with frame := s.frame.bind name v }
  /-- The next statement may be of another source, and the world may have gone on. -/
  | resumed {s source console} : Reachable s → Reachable ⟨{ s.frame with source }, console⟩

namespace Discipline

variable {σ : Type} {D : Discipline σ} {c : σ}

/-- **A lawful discipline holds in every reachable state.** -/
theorem reachable_keeps (L : D.Lawful)
    (start : ∀ source console, D.state ⟨.initial source, console⟩)
    (parsed : ∀ e : Expr, e.Parsed → D.expr c e) (made : ∀ v : Value, v.Made → D.value v)
    (resumed : ∀ s source console, D.state s → D.state ⟨{ s.frame with source }, console⟩)
    {s : State} (hs : Reachable s) : D.state s := by
  induction hs with
  | start => exact start _ _
  | evaluated _ he hr ih => exact (runStatement_keeps L (parsed _ he) ih hr).1
  | bound _ hv ih => exact L.bind ih (made _ hv)
  | resumed _ ih => exact resumed _ _ _ ih

end Discipline

/-- The evaluation of `e` comes to a value of some expression. -/
def Expr.Produces (n : Nat) (e : Expr) (s : State) (v : Value) : Prop :=
  ∃ m x t u, e.Visits n s m x t ∧ (x.eval m t = .done v u ∨ x.eval m t = .exit (.ret v) u)

/-- The evaluation of `e` comes to run `f` on the values in the state `t`. -/
def Expr.Runs (n : Nat) (e : Expr) (s : State) (f : Function) (vs : List Value) (t : State) :
    Prop :=
  ∃ m name args offset u, e.Visits n s (m + 1) (.call name args offset) u ∧
    Eval.Accepts (Expr.eval m) name args offset u f vs t

namespace Discipline

variable {σ : Type} {D : Discipline σ} {c : σ} {n : Nat} {e : Expr} {s : State}

/-- What an evaluation produces is allowed. -/
theorem produces_keep (L : D.Lawful) {v : Value} (hv : e.Produces n s v) (he : D.expr c e)
    (hs : D.state s) : D.value v := by
  obtain ⟨m, x, t, u, hx, h⟩ := hv
  obtain ⟨c', hc, ht⟩ := visits_keep L hx he hs
  have hm := eval_keeps L m c' x t hc ht
  rcases h with h | h
  · rw [h] at hm
    exact hm.1
  · rw [h] at hm
    exact hm.1

end Discipline

end Radix
