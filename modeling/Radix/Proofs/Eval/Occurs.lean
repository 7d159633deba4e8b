import Radix.Proofs.Eval.Reachable

/-!
# Proofs/Eval/Occurs — every state that a session comes by

A session evaluates statements one after the other, each to its result or to its failure.  While it
evaluates one it comes by more states than those between the statements: one where each evaluation
inside begins, in the frame of a called function for instance, and one where it ends.  What a lawful
discipline allows at the start and of the statements, it finds in all of them
(`Discipline.occurs_keeps`).
-/

namespace Radix

/-- The states between the statements of a session, all of which have `P`. -/
inductive Session (P : Expr → Prop) : State → Prop
  | start {source console} : Session P ⟨.initial source, console⟩
  | evaluated {s n e r t} : Session P s → P e → runStatement n e s = some (r, t) → Session P t
  /-- The next statement may be of another source, and the world may have gone on. -/
  | resumed {s source console} : Session P s → Session P ⟨{ s.frame with source }, console⟩

/-- The states that such a session comes by. -/
inductive Occurs (P : Expr → Prop) : State → Prop
  | between {s} : Session P s → Occurs P s
  | begins {s n e m x t} : Session P s → P e → e.Visits n s m x t → Occurs P t
  | done {s n e m x t v u} : Session P s → P e → e.Visits n s m x t → x.eval m t = .done v u →
    Occurs P u
  | exit {s n e m x t y u} : Session P s → P e → e.Visits n s m x t → x.eval m t = .exit y u →
    Occurs P u

namespace Discipline

variable {σ : Type} {D : Discipline σ} {c : σ} {P : Expr → Prop}

/-- **A lawful discipline holds wherever a session comes by.** -/
theorem occurs_keeps (L : D.Lawful) (start : ∀ source console, D.state ⟨.initial source, console⟩)
    (statements : ∀ e, P e → D.expr c e)
    (resumed : ∀ s source console, D.state s → D.state ⟨{ s.frame with source }, console⟩)
    {t : State} (ht : Occurs P t) : D.state t := by
  have between : ∀ s, Session P s → D.state s := by
    intro s hs
    induction hs with
    | start => exact start _ _
    | evaluated _ he hr ih => exact (runStatement_keeps L (statements _ he) ih hr).1
    | resumed _ ih => exact resumed _ _ _ ih
  cases ht with
  | between hs => exact between _ hs
  | begins hs he hv =>
    obtain ⟨_, -, ht⟩ := visits_keep L hv (statements _ he) (between _ hs)
    exact ht
  | @done _ _ _ m x t _ _ hs he hv hd =>
    obtain ⟨c', hx, ht⟩ := visits_keep L hv (statements _ he) (between _ hs)
    have hm := eval_keeps L m c' x t hx ht
    rw [hd] at hm
    exact hm.2
  | @exit _ _ _ m x t _ _ hs he hv hd =>
    obtain ⟨c', hx, ht⟩ := visits_keep L hv (statements _ he) (between _ hs)
    have hm := eval_keeps L m c' x t hx ht
    rw [hd] at hm
    exact hm.2

end Discipline

end Radix
