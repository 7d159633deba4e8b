import Radix.Proofs.Eval.Raise

/-!
# Proofs/Eval/Trace — the evaluations inside an evaluation, in order

`Eval.asks` lists what an evaluator is asked for while an expression is evaluated by it, in the
order of asking, and `Expr.trace` all evaluations inside an evaluation, in the order in which they
start.  They hold exactly what `Eval.Part` and `Expr.Visits` name (`Eval.mem_asks`,
`Expr.mem_trace`).

The order tells what a failure does that nothing catches: the evaluation in which it comes up is the
last one that starts (`Expr.trace_of_depthExceeded`).
-/

namespace Radix

namespace Eval

/-- What an evaluator is asked for: an expression, and the state to evaluate it in. -/
abbrev Request := Expr × State

/-! ## Requests -/

/-- What is asked for after a computation, if that is done. -/
def next {α : Type} (x : Run α) (f : α → State → List Request) (s : State) : List Request :=
  match x s with
  | .done a t => f a t
  | .exit _ _ | .outOfFuel => []

section Requests

variable (ev : Expr → Run Value)

/-- What is asked for to evaluate expressions one after the other. -/
def asked : List Expr → State → List Request
  | [], _ => []
  | e :: es, s => (e, s) :: next (ev e) (fun _ => asked es) s

/-- What a loop asks for, given what a turn asks for. -/
def askedTurns (x : Run Bool) (once : State → List Request) : Nat → State → List Request
  | 0, _ => []
  | k + 1, s => once s ++ next x (fun more t => if more then askedTurns x once k t else []) s

/-- What an operator asks for when its left operand gives `a`. -/
def askedRight (op : Operator) (a : Value) (right : Expr) : State → List Request :=
  match op with
  | .and => next (truth a) fun b t => if b then [(right, t)] else []
  | .or => next (truth a) fun b t => if b then [] else [(right, t)]
  | _ => fun t => [(right, t)]

/-- What is asked for to run a function on its arguments. -/
def askedBody (f : Function) (values : List Value) (s : State) : List Request :=
  match f.body with
  | .native _ => []
  | .program body =>
    if maxDepth ≤ s.frame.depth then []
    else asked ev body { s with frame := s.frame.enter (f.params.map (·.2)) values }

/-- What is asked for once the arguments of a call are evaluated. -/
def askedCall (name : String) (offset : Nat) (values : List Value) (s : State) : List Request :=
  match s.frame.functions.get? name with
  | none => []
  | some f => next (Run.lift (checkArguments f values offset)) (fun _ => askedBody ev f values) s

/-- What one turn of a loop with a condition asks for. -/
def askedTurn (condition : Expr) (body : List Expr) (s : State) : List Request :=
  (condition, s) :: next (ev condition)
    (fun v => next (truth v) fun b t => if b then asked ev body t else []) s

end Requests

/-- What is asked for to evaluate an expression, in order. -/
def asks (turns : Nat) (ev : Expr → Run Value) : Expr → State → List Request
  | .text quoted offset, s =>
    match Template.parts quoted offset with
    | .ok ps => asked ev (ps.filterMap (·.expr?)) s
    | .error _ => []
  | .assign _ value, s => [(value, s)]
  | .binary op left right _, s =>
    (left, s) :: next (ev left) (fun a => askedRight op a right) s
  | .call name args offset, s =>
    asked ev args s ++ next (all ev args) (askedCall ev name offset) s
  | .ret value _, s => [(value, s)]
  | .branch _ condition thenBody elseBody, s =>
    (condition, s) :: next (ev condition)
      (fun v => next (truth v) fun b => asked ev (if b then thenBody else elseBody.getD [])) s
  | .whileLoop label condition body, s =>
    askedTurns (turn ev label condition body) (askedTurn ev condition body) turns s
  | .loop label body, s => askedTurns (Run.pass label (block ev body)) (asked ev body) turns s
  | .numeral _, _ | .var _, _ | .breakTo _, _ | .continueTo _, _ | .function _ _ _ _, _ => []

/-! ## Requests are parts -/

variable {α β : Type} {turns : Nat} {ev : Expr → Run Value} {s t : State} {x : Expr}

@[simp] theorem mem_next {r : Run α} {f : α → State → List Request} {p : Request} :
    p ∈ next r f s ↔ ∃ a t, r s = .done a t ∧ p ∈ f a t := by
  unfold next
  match r s with
  | .done a t => simp [and_assoc]
  | .exit _ _ | .outOfFuel => simp

theorem mem_asked {es : List Expr} : (x, t) ∈ asked ev es s ↔ Reaches ev es s x t := by
  induction es generalizing s with
  | nil => exact ⟨nofun, nofun⟩
  | cons e es ih =>
    rw [asked, List.mem_cons, mem_next]
    constructor
    · rintro (h | ⟨v, u, hv, h⟩)
      · obtain ⟨rfl, rfl⟩ := Prod.mk.inj h
        exact .head
      · exact .tail hv (ih.mp h)
    · rintro (_ | ⟨hv, h⟩)
      · exact .inl rfl
      · exact .inr ⟨_, _, hv, ih.mpr h⟩

theorem mem_askedTurns {y : Run Bool} {once : State → List Request} {p : Request} {n : Nat} :
    p ∈ askedTurns y once n s ↔ ∃ k t, k < n ∧ Goes y k s t ∧ p ∈ once t := by
  induction n generalizing s with
  | zero => simp [askedTurns]
  | succ n ih =>
    rw [askedTurns, List.mem_append, mem_next]
    constructor
    · rintro (h | ⟨more, u, hu, h⟩)
      · exact ⟨0, s, by omega, .start, h⟩
      · match more with
        | true =>
          obtain ⟨k, t, hk, hg, h⟩ := ih.mp h
          exact ⟨k + 1, t, by omega, .turn hu hg, h⟩
        | false => exact nomatch h
    · rintro ⟨_, t, hk, hg, h⟩
      cases hg with
      | start => exact .inl h
      | turn hu hg => exact .inr ⟨true, _, hu, ih.mpr ⟨_, t, by omega, hg, h⟩⟩

theorem mem_askedRight {op : Operator} {a : Value} {right : Expr} :
    (x, t) ∈ askedRight op a right s ↔ NeedsRight op a ∧ x = right ∧ t = s := by
  unfold askedRight NeedsRight
  match op with
  | .and | .or =>
    simp only [mem_next, truth_eq_done]
    constructor
    · rintro ⟨b, u, ⟨hb, rfl⟩, h⟩
      cases b <;> simp_all
    · rintro ⟨hn, rfl, rfl⟩
      exact ⟨_, _, ⟨by simpa using hn, rfl⟩, by simp⟩
  | .add | .sub | .mul | .div | .eq | .strictEq | .ne | .strictNe | .lt | .le | .gt | .ge => simp

theorem mem_askedCall {name : String} {args : List Expr} {offset : Nat} :
    (x, t) ∈ next (all ev args) (askedCall ev name offset) s ↔
      ∃ body u, Enters ev name args offset s body u ∧ Reaches ev body u x t := by
  rw [mem_next]
  constructor
  · rintro ⟨vs, u, hvs, h⟩
    unfold askedCall at h
    match hf : u.frame.functions.get? name with
    | none => simp [hf] at h
    | some f =>
      simp only [hf, mem_next, Run.lift_eq_done] at h
      obtain ⟨_, _, ⟨hc, rfl⟩, h⟩ := h
      unfold askedBody at h
      match hb : f.body with
      | .native n => simp [hb] at h
      | .program body =>
        simp only [hb] at h
        split at h
        · exact nomatch h
        · exact ⟨body, _, ⟨f, vs, u, ⟨hvs, hf, hc⟩, hb, by omega, rfl⟩, mem_asked.mp h⟩
  · rintro ⟨body, _, ⟨f, vs, u, ⟨hvs, hf, hc⟩, hb, hd, rfl⟩, hr⟩
    refine ⟨vs, u, hvs, ?_⟩
    simp only [askedCall, hf, mem_next, Run.lift_eq_done]
    refine ⟨(), u, ⟨hc, rfl⟩, ?_⟩
    rw [askedBody, hb]
    show (x, t) ∈ if _ then _ else _
    rw [if_neg (by omega)]
    exact mem_asked.mpr hr

theorem mem_askedTurn {condition : Expr} {body : List Expr} :
    (x, t) ∈ askedTurn ev condition body s ↔ (x = condition ∧ t = s) ∨
      ∃ v u, ev condition s = .done v u ∧ v.truth = .ok true ∧ Reaches ev body u x t := by
  simp only [askedTurn, List.mem_cons, Prod.mk.injEq, mem_next, truth_eq_done]
  refine or_congr_right ⟨?_, ?_⟩
  · rintro ⟨v, u, hv, b, _, ⟨hb, rfl⟩, h⟩
    match b with
    | true => exact ⟨v, u, hv, hb, mem_asked.mp h⟩
    | false => exact nomatch h
  · rintro ⟨v, u, hv, hb, h⟩
    exact ⟨v, u, hv, true, u, ⟨hb, rfl⟩, mem_asked.mpr h⟩

theorem part_of_mem_asks {e : Expr} (h : (x, t) ∈ asks turns ev e s) : Part turns ev e s x t := by
  match e with
  | .text quoted offset =>
    simp only [asks] at h
    match hp : Template.parts quoted offset with
    | .ok ps =>
      rw [hp] at h
      exact .text hp (mem_asked.mp h)
    | .error err => simp [hp] at h
  | .assign name value =>
    obtain ⟨rfl, rfl⟩ : x = value ∧ t = s := by simpa [asks] using h
    exact .assign
  | .binary op left right offset =>
    simp only [asks, List.mem_cons, Prod.mk.injEq, mem_next, mem_askedRight] at h
    rcases h with ⟨rfl, rfl⟩ | ⟨a, u, ha, hn, rfl, rfl⟩
    · exact .left
    · exact .right ha hn
  | .call name args offset =>
    simp only [asks, List.mem_append] at h
    rcases h with h | h
    · exact .argument (mem_asked.mp h)
    · obtain ⟨body, u, hn, hr⟩ := mem_askedCall.mp h
      exact .body hn hr
  | .ret value offset =>
    obtain ⟨rfl, rfl⟩ : x = value ∧ t = s := by simpa [asks] using h
    exact .ret
  | .branch label condition yes no =>
    simp only [asks, List.mem_cons, Prod.mk.injEq, mem_next, truth_eq_done, mem_asked] at h
    rcases h with ⟨rfl, rfl⟩ | ⟨v, u, hv, b, _, ⟨hb, rfl⟩, hr⟩
    · exact .condition
    · match b with
      | true => exact .yes hv hb hr
      | false => exact .no hv hb hr
  | .whileLoop label condition body =>
    obtain ⟨k, u, hk, hg, h⟩ := mem_askedTurns.mp h
    rcases mem_askedTurn.mp h with ⟨rfl, rfl⟩ | ⟨v, w, hv, hb, hr⟩
    · exact .turn hg hk
    · exact .turnBody hg hk hv hb hr
  | .loop label body =>
    obtain ⟨k, u, hk, hg, h⟩ := mem_askedTurns.mp h
    exact .pass hg hk (mem_asked.mp h)
  | .numeral _ | .var _ | .breakTo _ | .continueTo _ | .function _ _ _ _ => exact nomatch h

theorem mem_asks_of_part {e : Expr} (h : Part turns ev e s x t) : (x, t) ∈ asks turns ev e s := by
  cases h with
  | text hp hr =>
    simp only [asks, hp]
    exact mem_asked.mpr hr
  | assign | ret => simp [asks]
  | left | condition => simp [asks]
  | right ha hn =>
    exact List.mem_cons_of_mem _ (mem_next.mpr ⟨_, _, ha, mem_askedRight.mpr ⟨hn, rfl, rfl⟩⟩)
  | argument hr => exact List.mem_append_left _ (mem_asked.mpr hr)
  | body hn hr => exact List.mem_append_right _ (mem_askedCall.mpr ⟨_, _, hn, hr⟩)
  | yes hv hb hr =>
    simp only [asks, List.mem_cons, mem_next, truth_eq_done, mem_asked]
    exact .inr ⟨_, _, hv, true, _, ⟨hb, rfl⟩, hr⟩
  | no hv hb hr =>
    simp only [asks, List.mem_cons, mem_next, truth_eq_done, mem_asked]
    exact .inr ⟨_, _, hv, false, _, ⟨hb, rfl⟩, hr⟩
  | turn hg hk => exact mem_askedTurns.mpr ⟨_, _, hk, hg, mem_askedTurn.mpr (.inl ⟨rfl, rfl⟩)⟩
  | turnBody hg hk hv hb hr =>
    exact mem_askedTurns.mpr ⟨_, _, hk, hg, mem_askedTurn.mpr (.inr ⟨_, _, hv, hb, hr⟩)⟩
  | pass hg hk hr => exact mem_askedTurns.mpr ⟨_, _, hk, hg, mem_asked.mpr hr⟩

/-- **What is asked for are the parts.** -/
theorem mem_asks {e : Expr} : (x, t) ∈ asks turns ev e s ↔ Part turns ev e s x t :=
  ⟨part_of_mem_asks, mem_asks_of_part⟩

/-! ## Failures that end everything -/

/-- A failure of the evaluator ends the computation: no request follows the one that fails, the
computation fails in the same way, and with the same console. -/
def Halts (ev : Expr → Run Value) (err : RunError) (rs : List Request) (o : Outcome α) : Prop :=
  ∀ x t u, (x, t) ∈ rs → ev x t = .exit (.failed err) u →
    (∃ before, rs = before ++ [(x, t)]) ∧ ∃ w, o = .exit (.failed err) w ∧ w.console = u.console

namespace Halts

variable {err : RunError} {rs : List Request}

theorem nil (o : Outcome α) : Halts ev err [] o := fun _ _ _ h => nomatch h

theorem single (e : Expr) (s : State) : Halts ev err [(e, s)] (ev e s) := by
  intro x t u h hx
  obtain ⟨rfl, rfl⟩ : x = e ∧ t = s := by simpa using h
  exact ⟨⟨[], rfl⟩, u, hx, rfl⟩

theorem bind {y : Run α} {g : α → Run β} {f : α → State → List Request}
    (hy : Halts ev err rs (y s)) (hg : ∀ a t, y s = .done a t → Halts ev err (f a t) (g a t)) :
    Halts ev err (rs ++ next y f s) ((y >>= g) s) := by
  intro x t u h hx
  rw [Run.bind_apply]
  rcases List.mem_append.mp h with h | h
  · obtain ⟨⟨before, hb⟩, w, hw, hc⟩ := hy x t u h hx
    have last : next y f s = [] := by rw [next, hw]
    exact ⟨⟨before, by rw [last, List.append_nil, hb]⟩, w, by rw [hw], hc⟩
  · obtain ⟨a, t', ha, h⟩ := mem_next.mp h
    have more : next y f s = f a t' := by rw [next, ha]
    obtain ⟨⟨before, hb⟩, w, hw, hc⟩ := hg a t' ha x t u h hx
    exact ⟨⟨rs ++ before, by rw [more, hb, List.append_assoc]⟩, w, by rw [ha]; exact hw, hc⟩

/-- Nothing is asked for after the computation. -/
theorem last {y : Run α} (hy : Halts ev err rs (y s)) (g : α → Run β) :
    Halts ev err rs ((y >>= g) s) := by
  have none : next y (fun _ _ => []) s = [] := List.eq_nil_iff_forall_not_mem.mpr (by simp)
  have h := hy.bind (g := g) (f := fun _ _ => []) fun a t _ => nil _
  rwa [none, List.append_nil] at h

/-- A construct that lets the failure pass. -/
theorem map {o : Outcome α} (h : Halts ev err rs o) (f : Outcome α → Outcome β)
    (hf : ∀ w, ∃ w', f (.exit (.failed err) w) = .exit (.failed err) w' ∧
      w'.console = w.console) : Halts ev err rs (f o) := by
  intro x t u hm hx
  obtain ⟨hb, w, rfl, hc⟩ := h x t u hm hx
  obtain ⟨w', hw', hc'⟩ := hf w
  exact ⟨hb, w', hw', hc'.trans hc⟩

theorem iterate {y : Run Bool} {once : State → List Request}
    (h : ∀ s, Halts ev err (once s) (y s)) (n : Nat) (s : State) :
    Halts ev err (askedTurns y once n s) (Run.iterate y n s) := by
  induction n generalizing s with
  | zero => exact nil _
  | succ n ih =>
    have unfolded : Run.iterate y (n + 1) s =
        (y >>= fun more => if more then Run.iterate y n else pure .unit) s := by
      rw [Run.iterate_succ, Run.bind_apply]
      match y s with
      | .done true _ | .done false _ | .exit _ _ | .outOfFuel => rfl
    rw [unfolded]
    refine (h s).bind fun more t _ => ?_
    match more with
    | true => exact ih t
    | false => exact nil _

theorem all (es : List Expr) (s : State) : Halts ev err (asked ev es s) (Eval.all ev es s) := by
  induction es generalizing s with
  | nil => exact nil _
  | cons e es ih => exact (single e s).bind fun _ t _ => (ih t).last _

theorem block (es : List Expr) (s : State) : Halts ev err (asked ev es s) (Eval.block ev es s) := by
  induction es generalizing s with
  | nil => exact nil _
  | cons e es ih => exact (single e s).bind fun _ t _ => ih t

theorem shown (ps : List Template.Part) (s : State) :
    Halts ev err (asked ev (ps.filterMap (·.expr?)) s) (Eval.shown ev ps s) := by
  induction ps generalizing s with
  | nil => exact nil _
  | cons p ps ih =>
    match p with
    | .chars cs => exact (ih s).last _
    | .expr e => exact (single e s).bind fun _ t _ => (ih t).last _

/-- Nothing is asked for before the computation is done. -/
theorem first {y : Run α} {g : α → Run β} {f : α → State → List Request}
    (hg : ∀ a t, y s = .done a t → Halts ev err (f a t) (g a t)) :
    Halts ev err (next y f s) ((y >>= g) s) :=
  (nil (y s)).bind hg

theorem truth {v : Value} {g : Bool → Run α} {f : Bool → State → List Request}
    (h : ∀ b, Halts ev err (f b s) (g b s)) :
    Halts ev err (next (Eval.truth v) f s) ((Eval.truth v >>= g) s) := by
  refine first fun b t hb => ?_
  obtain ⟨-, rfl⟩ := truth_eq_done.mp hb
  exact h b

theorem operation (op : Operator) (left right : Expr) (s : State) :
    Halts ev err ((left, s) :: next (ev left) (fun a => askedRight op a right) s)
      (Eval.operation ev op left right s) := by
  refine (single left s).bind fun a t _ => ?_
  match op with
  | .and =>
    refine truth fun b => ?_
    match b with
    | true => exact (single right t).last _
    | false => exact nil _
  | .or =>
    refine truth fun b => ?_
    match b with
    | true => exact nil _
    | false => exact (single right t).last _
  | .add | .sub | .mul | .div | .eq | .strictEq | .ne | .strictNe | .lt | .le | .gt | .ge =>
    exact (single right t).last _

theorem apply (f : Function) (values : List Value) (offset : Nat) {body : List Expr}
    (hb : f.body = .program body) (s : State) :
    Halts ev err (askedBody ev f values s) (Eval.apply ev f body values offset s) := by
  rw [askedBody, hb]
  show Halts ev err (if maxDepth ≤ s.frame.depth then _ else _)
    ((if maxDepth ≤ s.frame.depth then _ else _ : Run Value) s)
  split
  · exact nil _
  · exact (block body _).map (Outcome.returnTo s.frame) fun w => ⟨_, rfl, rfl⟩

theorem call (name : String) (args : List Expr) (offset : Nat) (s : State) :
    Halts ev err (asked ev args s ++ next (Eval.all ev args) (askedCall ev name offset) s)
      (Eval.call ev name args offset s) := by
  refine (all args s).bind fun values t _ => ?_
  rw [askedCall]
  show Halts ev err _ ((match t.frame.functions.get? name with | none => _ | some f => _ :
    Run Value) t)
  match t.frame.functions.get? name with
  | none => exact nil _
  | some f =>
    refine first fun _ u _ => ?_
    match hb : f.body with
    | .native n =>
      rw [askedBody, hb]
      exact nil _
    | .program body => exact apply f values offset hb u

end Halts

/-- **A failure that operators let pass ends every construct.** -/
theorem step_halts {err : RunError} (hd : err.isDepthExceeded = true) (turns : Nat) (e : Expr)
    (s : State) : Halts ev err (asks turns ev e s) (step turns ev e s) := by
  cases e with
  | text quoted offset =>
    simp only [asks, step, text]
    cases Template.parts quoted offset with
    | ok ps => exact (Halts.shown ps s).last _
    | error _ => exact .nil _
  | assign name value => exact (Halts.single value s).last _
  | binary op left right offset =>
    refine (Halts.operation op left right s).map (Outcome.recover offset) fun w => ⟨w, ?_, rfl⟩
    cases offset with
    | none => rfl
    | some k => rw [Outcome.recover, if_pos hd]
  | call name args offset => exact .call name args offset s
  | ret value offset => exact (Halts.single value s).last _
  | branch label condition yes no =>
    refine (Halts.single condition s).bind fun v t _ => .truth fun b => ?_
    cases b with
    | true => exact (Halts.block yes t).map (Outcome.branch label) fun w => ⟨w, rfl, rfl⟩
    | false =>
      exact (Halts.block (no.getD []) t).map (Outcome.branch label) fun w => ⟨w, rfl, rfl⟩
  | whileLoop label condition body =>
    refine .iterate (fun s => ?_) turns s
    refine (Halts.single condition s).bind fun v t _ => .truth fun b => ?_
    cases b with
    | true => exact (Halts.block body t).map (Outcome.pass label) fun w => ⟨w, rfl, rfl⟩
    | false => exact .nil _
  | loop label body =>
    refine .iterate (fun s => ?_) turns s
    exact (Halts.block body s).map (Outcome.pass label) fun w => ⟨w, rfl, rfl⟩
  | numeral | var | breakTo | continueTo | function => exact .nil _

end Eval

/-! ## Traces -/

namespace Expr

open Eval

/-- The evaluations inside an evaluation with the given fuel, in the order in which they start, each
with the fuel that is left for it. -/
def trace : Nat → Expr → State → List (Nat × Expr × State)
  | 0, e, s => [(0, e, s)]
  | n + 1, e, s => (n + 1, e, s) :: (asks n (eval n) e s).flatMap fun r => trace n r.1 r.2

/-- **The trace holds what the evaluation comes by.** -/
theorem mem_trace {n m : Nat} {e x : Expr} {s t : State} :
    (m, x, t) ∈ e.trace n s ↔ e.Visits n s m x t := by
  induction n generalizing e s with
  | zero =>
    rw [trace, List.mem_singleton, Prod.mk.injEq, Prod.mk.injEq]
    constructor
    · rintro ⟨rfl, rfl, rfl⟩
      exact .here
    · rintro ⟨⟩
      exact ⟨rfl, rfl, rfl⟩
  | succ n ih =>
    rw [trace, List.mem_cons, List.mem_flatMap, Prod.mk.injEq, Prod.mk.injEq]
    constructor
    · rintro (⟨rfl, rfl, rfl⟩ | ⟨⟨y, u⟩, hy, h⟩)
      · exact .here
      · exact .part (mem_asks.mp hy) (ih.mp h)
    · intro h
      cases h with
      | here => exact .inl ⟨rfl, rfl, rfl⟩
      | part hp hv => exact .inr ⟨(_, _), mem_asks.mpr hp, ih.mpr hv⟩

/-- **A failure that operators let pass is the end.**  The evaluation in which it comes up is the
last one that starts, and the console stays as it is then. -/
theorem trace_of_depthExceeded {n m : Nat} {e x : Expr} {s t u : State} {err : RunError}
    (hv : e.Visits n s m x t) (hd : err.isDepthExceeded = true)
    (hx : x.eval m t = .exit (.failed err) u) :
    (∃ before, e.trace n s = before ++ x.trace m t) ∧
      ∃ w, e.eval n s = .exit (.failed err) w ∧ w.console = u.console := by
  induction hv with
  | here => exact ⟨⟨[], rfl⟩, u, hx, rfl⟩
  | @part n e s y v _ _ _ hp _ ih =>
    obtain ⟨⟨before, hb⟩, w, hw, hc⟩ := ih hx
    obtain ⟨⟨earlier, he⟩, w', hw', hc'⟩ := step_halts hd n e s y v w (mem_asks.mpr hp) hw
    refine ⟨⟨(n + 1, e, s) :: earlier.flatMap (fun r => trace n r.1 r.2) ++ before, ?_⟩,
      w', hw', hc'.trans hc⟩
    rw [trace, he, List.flatMap_append, List.flatMap_singleton, hb]
    simp

end Expr

end Radix
