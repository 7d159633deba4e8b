import Radix.Eval.Basic

/-!
# Eval/Fuel — more fuel never changes an answer

A computation extends another when it ends in the same way wherever the other ends at all.  Every
construct keeps this order, so an evaluation with more fuel extends the one with less
(`Expr.eval_extends`): what was decided stays decided, and only running out of fuel can be undone.
Hence it does not matter which amount of fuel an answer was found with (`Expr.eval_agree`).
-/

namespace Radix

namespace Run

variable {α β : Type}

/-- `y` ends as `x` does, wherever `x` does not run out of fuel. -/
def Extends (y x : Run α) : Prop := ∀ s, x s ≠ .outOfFuel → y s = x s

theorem Extends.refl (x : Run α) : x.Extends x := fun _ _ => rfl

theorem extends_starve (y : Run α) : y.Extends starve := fun _ h => absurd rfl h

/-- A construct that only looks at how its part ends keeps the order, provided that it is out of
fuel when its part is. -/
theorem Extends.map {y x : Run α} (h : y.Extends x) (f : State → Outcome α → Outcome β)
    (g : State → State) (hf : ∀ s, f s .outOfFuel = .outOfFuel) :
    Extends (fun s => f s (y (g s))) (fun s => f s (x (g s))) := by
  intro s hs
  have hx : x (g s) ≠ .outOfFuel := fun e => hs (by simp only [e, hf])
  simp only [h (g s) hx]

theorem Extends.bind {y x : Run α} {g f : α → Run β} (h : y.Extends x)
    (hf : ∀ a, (g a).Extends (f a)) : (y >>= g).Extends (x >>= f) := by
  intro s hs
  rw [bind_apply] at hs
  rw [bind_apply, bind_apply]
  cases hx : x s with
  | done a t =>
    rw [hx] at hs
    rw [h s (by simp [hx]), hx]
    exact hf a t hs
  | exit e t => rw [h s (by simp [hx]), hx]
  | outOfFuel => simp [hx] at hs

theorem Extends.recover {y x : Run Value} (h : y.Extends x) (offset : Option Nat) :
    (recover offset y).Extends (recover offset x) :=
  h.map (fun _ => Outcome.recover offset) id fun _ => rfl

theorem Extends.branch {y x : Run Unit} (h : y.Extends x) (label : Option String) :
    (branch label y).Extends (branch label x) :=
  h.map (fun _ => Outcome.branch label) id fun _ => rfl

theorem Extends.pass {y x : Run Unit} (h : y.Extends x) (label : Option String) :
    (pass label y).Extends (pass label x) :=
  h.map (fun _ => Outcome.pass label) id fun _ => rfl

theorem Extends.within {y x : Run Unit} (h : y.Extends x) (inner : Frame) :
    (within inner y).Extends (within inner x) :=
  h.map (fun s => Outcome.returnTo s.frame) (fun s => { s with frame := inner }) fun _ => rfl

theorem Extends.iterate {y x : Run Bool} (h : y.Extends x) {m n : Nat} (hmn : m ≤ n) :
    (iterate y n).Extends (iterate x m) := by
  induction m generalizing n with
  | zero => exact extends_starve _
  | succ m ih =>
    obtain ⟨n, rfl⟩ : ∃ k, n = k + 1 := ⟨n - 1, by omega⟩
    intro s hs
    simp only [Run.iterate] at hs ⊢
    cases hx : x s with
    | done b t =>
      rw [h s (by simp [hx]), hx]
      rw [hx] at hs
      cases b with
      | true => exact ih (by omega) t hs
      | false => rfl
    | exit e t => rw [h s (by simp [hx]), hx]
    | outOfFuel => simp [hx] at hs

end Run

namespace Eval

open Run

variable {ev' ev : Expr → Run Value}

theorem all_extends (h : ∀ e, (ev' e).Extends (ev e)) (es : List Expr) :
    (all ev' es).Extends (all ev es) := by
  induction es with
  | nil => exact .refl _
  | cons e es ih => exact (h e).bind fun _ => ih.bind fun _ => .refl _

theorem block_extends (h : ∀ e, (ev' e).Extends (ev e)) (es : List Expr) :
    (block ev' es).Extends (block ev es) := by
  induction es with
  | nil => exact .refl _
  | cons e es ih => exact (h e).bind fun _ => ih

theorem shown_extends (h : ∀ e, (ev' e).Extends (ev e)) (ps : List Template.Part) :
    (shown ev' ps).Extends (shown ev ps) := by
  induction ps with
  | nil => exact .refl _
  | cons p ps ih =>
    cases p with
    | chars cs => exact ih.bind fun _ => .refl _
    | expr e => exact (h e).bind fun _ => ih.bind fun _ => .refl _

theorem text_extends (h : ∀ e, (ev' e).Extends (ev e)) (quoted : QuotedText) (offset : Nat) :
    (text ev' quoted offset).Extends (text ev quoted offset) := by
  unfold text
  cases Template.parts quoted offset with
  | ok ps => exact (shown_extends h ps).bind fun _ => .refl _
  | error e => exact .refl _

theorem operation_extends (h : ∀ e, (ev' e).Extends (ev e)) (op : Operator) (left right : Expr) :
    (operation ev' op left right).Extends (operation ev op left right) := by
  refine (h left).bind fun a => ?_
  cases op with
  | and =>
    refine (Extends.refl (truth a)).bind fun b => ?_
    cases b with
    | true => exact (h right).bind fun _ => .refl _
    | false => exact .refl _
  | or =>
    refine (Extends.refl (truth a)).bind fun b => ?_
    cases b with
    | true => exact .refl _
    | false => exact (h right).bind fun _ => .refl _
  | _ => exact (h right).bind fun _ => .refl _

theorem conditional_extends (h : ∀ e, (ev' e).Extends (ev e)) (label : Option String)
    (condition : Expr) (thenBody : List Expr) (elseBody : Option (List Expr)) :
    (conditional ev' label condition thenBody elseBody).Extends
      (conditional ev label condition thenBody elseBody) := by
  refine (h condition).bind fun v => (Extends.refl (truth v)).bind fun b => ?_
  cases b with
  | true => exact (block_extends h thenBody).branch label
  | false => exact (block_extends h _).branch label

theorem turn_extends (h : ∀ e, (ev' e).Extends (ev e)) (label : Option String)
    (condition : Expr) (body : List Expr) :
    (turn ev' label condition body).Extends (turn ev label condition body) := by
  refine (h condition).bind fun v => (Extends.refl (truth v)).bind fun b => ?_
  cases b with
  | true => exact (block_extends h body).pass label
  | false => exact .refl _

theorem call_extends (h : ∀ e, (ev' e).Extends (ev e)) (name : String) (args : List Expr)
    (offset : Nat) : (call ev' name args offset).Extends (call ev name args offset) := by
  refine (all_extends h args).bind fun values => (Extends.refl frame).bind fun f => ?_
  cases f.functions.get? name with
  | none => exact .refl _
  | some fn =>
    refine (Extends.refl _).bind fun _ => ?_
    cases fn.body with
    | native n => exact .refl _
    | program body =>
      refine (Extends.refl frame).bind fun f => ?_
      split
      · exact .refl _
      · exact (block_extends h body).within _

/-- Every construct keeps the order of the evaluators for its parts. -/
theorem step_extends {m n : Nat} (hmn : m ≤ n) (h : ∀ e, (ev' e).Extends (ev e)) (e : Expr) :
    (step n ev' e).Extends (step m ev e) := by
  cases e with
  | text quoted offset => exact text_extends h quoted offset
  | assign name value => exact (h value).bind fun _ => .refl _
  | binary op left right offset => exact (operation_extends h op left right).recover offset
  | call name args offset => exact call_extends h name args offset
  | ret value offset => exact (h value).bind fun _ => .refl _
  | branch label condition thenBody elseBody =>
    exact conditional_extends h label condition thenBody elseBody
  | whileLoop label condition body =>
    exact (turn_extends h label condition body).iterate hmn
  | loop label body => exact ((block_extends h body).pass label).iterate hmn
  | _ => exact .refl _

end Eval

/-- **What is decided with some fuel is decided with more.** -/
theorem Expr.eval_extends {m n : Nat} (hmn : m ≤ n) (e : Expr) :
    (e.eval n).Extends (e.eval m) := by
  induction m generalizing n e with
  | zero => exact Run.extends_starve _
  | succ m ih =>
    obtain ⟨n, rfl⟩ : ∃ k, n = k + 1 := ⟨n - 1, by omega⟩
    exact Eval.step_extends (by omega) (fun e => ih (by omega) e) e

/-- Two evaluations of an expression that both end, end in the same way. -/
theorem Expr.eval_agree {m n : Nat} (e : Expr) (s : State) (hm : e.eval m s ≠ .outOfFuel)
    (hn : e.eval n s ≠ .outOfFuel) : e.eval m s = e.eval n s := by
  rcases Nat.le_total m n with h | h
  · exact (e.eval_extends h s hm).symm
  · exact e.eval_extends h s hn

end Radix
