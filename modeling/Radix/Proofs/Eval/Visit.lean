import Radix.Proofs.Eval.Discipline

/-!
# Proofs/Eval/Visit — the evaluations that an evaluation consists of

`Eval.Part` says which expressions, in which states, an evaluator is asked for while an expression
is evaluated by it: the operands, arguments and statements that are reached, the condition and the
body of every turn of a loop, and the statements of a called function.  `Expr.Visits` is its closure
along the fuel, so it names every evaluation inside an evaluation, also those whose failure an
operator swallows and those inside calls.

What an evaluation keeps holds wherever it comes by (`Discipline.visits_keep`).
-/

namespace Radix

/-- The expression that a part of a text holds. -/
def Template.Part.expr? : Template.Part → Option Expr
  | .chars _ => none
  | .expr e => some e

namespace Eval

/-- Evaluating the expressions in order comes to `e` in the state `t`. -/
inductive Reaches (ev : Expr → Run Value) : List Expr → State → Expr → State → Prop
  | head {e es s} : Reaches ev (e :: es) s e s
  | tail {e es s v t x u} : ev e s = .done v t → Reaches ev es t x u → Reaches ev (e :: es) s x u

/-- After `k` turns, each of which goes on, the state is `t`. -/
inductive Goes (x : Run Bool) : Nat → State → State → Prop
  | start {s} : Goes x 0 s s
  | turn {k s t u} : x s = .done true t → Goes x k t u → Goes x (k + 1) s u

/-- Does the operator evaluate its right operand when the left one gives `a`? -/
def NeedsRight (op : Operator) (a : Value) : Prop :=
  (op = .and → a.truth = .ok true) ∧ (op = .or → a.truth = .ok false)

/-- The call comes to run `f` on `vs` in the state `t`: the arguments are evaluated, and the
function of that name takes them. -/
structure Accepts (ev : Expr → Run Value) (name : String) (args : List Expr) (offset : Nat)
    (s : State) (f : Function) (vs : List Value) (t : State) : Prop where
  values : all ev args s = .done vs t
  known : t.frame.functions.get? name = some f
  checked : checkArguments f vs offset = .ok ()

/-- The call comes to run the statements `body` in the state `t`. -/
def Enters (ev : Expr → Run Value) (name : String) (args : List Expr) (offset : Nat) (s : State)
    (body : List Expr) (t : State) : Prop :=
  ∃ f vs u, Accepts ev name args offset s f vs u ∧ f.body = .program body ∧
    u.frame.depth < maxDepth ∧ t = { u with frame := u.frame.enter (f.params.map (·.2)) vs }

/-- To evaluate the first expression in the first state by `ev`, `ev` evaluates the second one in
the second state. -/
inductive Part (turns : Nat) (ev : Expr → Run Value) : Expr → State → Expr → State → Prop
  | text {quoted offset ps s x t} : Template.parts quoted offset = .ok ps →
    Reaches ev (ps.filterMap (·.expr?)) s x t → Part turns ev (.text quoted offset) s x t
  | assign {name e s} : Part turns ev (.assign name e) s e s
  | left {op l r offset s} : Part turns ev (.binary op l r offset) s l s
  | right {op l r offset s a t} : ev l s = .done a t → NeedsRight op a →
    Part turns ev (.binary op l r offset) s r t
  | argument {name args offset s x t} : Reaches ev args s x t →
    Part turns ev (.call name args offset) s x t
  | body {name args offset s body t x u} : Enters ev name args offset s body t →
    Reaches ev body t x u → Part turns ev (.call name args offset) s x u
  | ret {e offset s} : Part turns ev (.ret e offset) s e s
  | condition {label e yes no s} : Part turns ev (.branch label e yes no) s e s
  | yes {label e yes no s v t x u} : ev e s = .done v t → v.truth = .ok true →
    Reaches ev yes t x u → Part turns ev (.branch label e yes no) s x u
  | no {label e yes no s v t x u} : ev e s = .done v t → v.truth = .ok false →
    Reaches ev (no.getD []) t x u → Part turns ev (.branch label e yes no) s x u
  | turn {label e body k s t} : Goes (turn ev label e body) k s t → k < turns →
    Part turns ev (.whileLoop label e body) s e t
  | turnBody {label e body k s t v u x w} : Goes (turn ev label e body) k s t → k < turns →
    ev e t = .done v u → v.truth = .ok true → Reaches ev body u x w →
    Part turns ev (.whileLoop label e body) s x w
  | pass {label body k s t x u} : Goes (Run.pass label (block ev body)) k s t → k < turns →
    Reaches ev body t x u → Part turns ev (.loop label body) s x u

end Eval

/-- Evaluating `e` in `s` with fuel `n` comes to evaluate the other expression in the other state
with the fuel that is left there. -/
inductive Expr.Visits : Nat → Expr → State → Nat → Expr → State → Prop
  | here {n e s} : Visits n e s n e s
  | part {n e s x t m y u} : Eval.Part n (Expr.eval n) e s x t → Visits n x t m y u →
    Visits (n + 1) e s m y u

theorem Expr.Visits.trans {n m k : Nat} {e x y : Expr} {s t u : State} (h : e.Visits n s m x t)
    (h' : x.Visits m t k y u) : e.Visits n s k y u := by
  induction h with
  | here => exact h'
  | part hp _ ih => exact .part hp (ih h')

namespace Discipline

variable {σ : Type} {D : Discipline σ} {ev : Expr → Run Value} {c : σ} {s t : State}

theorem Keeps.done (h : D.Keeps ev) {e : Expr} {v : Value} (he : D.expr c e) (hs : D.state s)
    (hd : ev e s = .done v t) : D.value v ∧ D.state t := by
  have hm := h c e s he hs
  rwa [hd] at hm

theorem reaches_keep (h : D.Keeps ev) {es : List Expr} {x : Expr}
    (hr : Eval.Reaches ev es s x t) (he : ∀ e ∈ es, D.expr c e) (hs : D.state s) :
    D.expr c x ∧ D.state t := by
  induction hr with
  | head => exact ⟨he _ (by simp), hs⟩
  | tail hd _ ih =>
    exact ih (fun e hm => he e (by simp [hm])) (h.done (he _ (by simp)) hs hd).2

theorem goes_keep {x : Run Bool} {k : Nat}
    (hx : ∀ t, D.state t → (x t).Meets (fun _ u => D.state u) (D.Leaves c))
    (hg : Eval.Goes x k s t) (hs : D.state s) : D.state t := by
  induction hg with
  | start => exact hs
  | @turn _ s t _ hd _ ih =>
    have hm := hx s hs
    rw [hd] at hm
    exact ih hm

variable (L : D.Lawful)

include L

/-- What a called function finds. -/
theorem enters_keep (h : D.Keeps ev) {name : String} {args : List Expr} {offset : Nat}
    {body : List Expr} (hn : Eval.Enters ev name args offset s body t)
    (he : D.expr c (.call name args offset)) (hs : D.state s) :
    (∀ e ∈ body, D.expr D.top e) ∧ D.state t := by
  obtain ⟨f, vs, u, ha, hb, -, rfl⟩ := hn
  have hm := all_keeps h (L.call he) hs
  rw [ha.values] at hm
  exact ⟨L.body hm.2 ha.known hb, enter_keeps L hm.1 _ hm.2⟩

/-- **The parts of an expression stay inside the discipline.** -/
theorem part_keeps (h : D.Keeps ev) {turns : Nat} {e x : Expr}
    (hp : Eval.Part turns ev e s x t) (he : D.expr c e) (hs : D.state s) :
    ∃ c', D.expr c' x ∧ D.state t := by
  match hp with
  | .text hq hr =>
    refine ⟨c, reaches_keep h hr (fun e hm => ?_) hs⟩
    obtain ⟨p, hm, hp⟩ := List.mem_filterMap.mp hm
    match p, hp with
    | .expr _, rfl => exact L.text he hq hm
  | .assign => exact ⟨c, L.assign he, hs⟩
  | .left => exact ⟨c, (L.binary he).1, hs⟩
  | .right hd _ => exact ⟨c, (L.binary he).2, (h.done (L.binary he).1 hs hd).2⟩
  | .argument hr => exact ⟨c, reaches_keep h hr (L.call he) hs⟩
  | .body hn hr =>
    obtain ⟨hb, ht⟩ := enters_keep L h hn he hs
    exact ⟨D.top, reaches_keep h hr hb ht⟩
  | .ret => exact ⟨c, L.ret he, hs⟩
  | .condition => exact ⟨c, (L.branch he).1, hs⟩
  | .yes hd _ hr =>
    obtain ⟨hc, hy, -⟩ := L.branch he
    exact ⟨_, reaches_keep h hr hy (h.done hc hs hd).2⟩
  | .no hd _ hr =>
    obtain ⟨hc, -, hn⟩ := L.branch he
    exact ⟨_, reaches_keep h hr hn (h.done hc hs hd).2⟩
  | .turn hg _ =>
    obtain ⟨hc, hb⟩ := L.whileLoop he
    exact ⟨c, hc, goes_keep (fun _ => turn_keeps L h hc hb) hg hs⟩
  | .turnBody hg _ hd _ hr =>
    obtain ⟨hc, hb⟩ := L.whileLoop he
    have ht := goes_keep (fun _ => turn_keeps L h hc hb) hg hs
    exact ⟨_, reaches_keep h hr hb (h.done hc ht hd).2⟩
  | .pass hg _ hr =>
    have ht := goes_keep (fun _ => pass_keeps (c := c) L h (L.loop he)) hg hs
    exact ⟨_, reaches_keep h hr (L.loop he) ht⟩

/-- **An evaluation comes by nothing outside the discipline.** -/
theorem visits_keep {n m : Nat} {e x : Expr} (hv : e.Visits n s m x t) (he : D.expr c e)
    (hs : D.state s) : ∃ c', D.expr c' x ∧ D.state t := by
  induction hv generalizing c with
  | here => exact ⟨c, he, hs⟩
  | part hp _ ih =>
    obtain ⟨c', hx, ht⟩ := part_keeps L (eval_keeps L _) hp he hs
    exact ih hx ht

end Discipline

end Radix
