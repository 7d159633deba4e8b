import Radix.Proofs.Eval.Meets

/-!
# Proofs/Eval/Discipline — what an evaluation keeps

A discipline says which expressions may stand in a scope, which values and states may come up, and
which failures and jumps may leave an expression.  It is lawful when each construct, taken alone,
stays inside it: `Discipline.Lawful` lists what has to be checked, once per construct and with no
evaluator in sight.

* `Discipline.step_keeps`: if the parts of an expression keep a lawful discipline, the expression
  does.
* `Discipline.eval_keeps`: so every evaluation keeps it, with any fuel.
-/

namespace Radix

/-- What an evaluation may meet.  `σ` is what an expression has to know of where it stands. -/
structure Discipline (σ : Type) where
  /-- Where the body of a function stands. -/
  top : σ
  /-- Where the branches of the conditional with the label stand. -/
  inBranch : σ → Option String → σ
  /-- Where the body of the loop with the label stands. -/
  inLoop : σ → Option String → σ
  expr : σ → Expr → Prop
  value : Value → Prop
  state : State → Prop
  failure : RunError → Prop
  jump : σ → Jump → Option String → Prop

namespace Discipline

variable {σ : Type}

/-- Each construct stays inside the discipline.  Laws about what a discipline does not restrict hold
by default. -/
structure Lawful (D : Discipline σ) : Prop where
  -- What an expression is made of.
  text {c quoted offset ps e} : D.expr c (.text quoted offset) →
    Template.parts quoted offset = .ok ps → Template.Part.expr e ∈ ps → D.expr c e
  assign {c name e} : D.expr c (.assign name e) → D.expr c e
  binary {c op l r offset} : D.expr c (.binary op l r offset) → D.expr c l ∧ D.expr c r
  call {c name args offset} : D.expr c (.call name args offset) → ∀ e ∈ args, D.expr c e
  ret {c e offset} : D.expr c (.ret e offset) → D.expr c e
  branch {c label e yes no} : D.expr c (.branch label e yes no) →
    D.expr c e ∧ (∀ x ∈ yes, D.expr (D.inBranch c label) x) ∧
      ∀ x ∈ no.getD [], D.expr (D.inBranch c label) x
  whileLoop {c label e body} : D.expr c (.whileLoop label e body) →
    D.expr c e ∧ ∀ x ∈ body, D.expr (D.inLoop c label) x
  loop {c label body} : D.expr c (.loop label body) → ∀ x ∈ body, D.expr (D.inLoop c label) x
  body {s name f es} : D.state s → s.frame.functions.get? name = some f →
    f.body = .program es → ∀ e ∈ es, D.expr D.top e
  -- Where values come from.
  numeral {c x} : D.expr c (.numeral x) → D.value (.numeral x) := by intros; trivial
  shown {t} : D.value (.text t) := by intros; trivial
  unit : D.value .unit := by intros; trivial
  ofBool {b} : D.value (.ofBool b) := by intros; trivial
  var {s name v} : D.state s → s.frame.vars.get? name = some v → D.value v := by intros; trivial
  apply {op : Operator} {a b v} : D.value a → D.value b → op.apply a b = .ok v → D.value v := by
    intros; trivial
  native {n : Native} {vs s v console} : D.state s → (∀ v ∈ vs, D.value v) →
    n.run vs s.frame s.console = (.ok v, console) → D.value v := by intros; trivial
  -- How the state changes.
  bind {s name v} : D.state s → D.value v → D.state { s with frame := s.frame.bind name v }
  deeper {s} : D.state s → D.state { s with frame := { s.frame with depth := s.frame.depth + 1 } }
  leave {s t} : D.state s → D.state t → D.state { t with frame := s.frame }
  declare {c name params tags returns es s} : D.expr c (.function name params returns es) →
    Eval.paramTags params = .ok tags → D.state s →
      D.state { s with frame := s.frame.declare ⟨name, tags, returns, .program es⟩ }
  console {n : Native} {vs s r console} : D.state s → (∀ v ∈ vs, D.value v) →
    n.run vs s.frame s.console = (r, console) → D.state { s with console }
  report {c op l r k e s} : D.expr c (.binary op l r (some k)) → D.failure e → D.state s →
    D.state (s.report e (e.offset.getD k))
  -- Why an expression fails by itself.
  unread {c quoted offset e} : D.expr c (.text quoted offset) →
    Template.parts quoted offset = .error e → D.failure (.read e) := by intros; trivial
  unknownVariable {name} : D.failure (.unknownVariable name) := by intros; trivial
  refused {op : Operator} {a b e} : D.value a → D.value b → op.apply a b = .error e →
    D.failure e := by intros; trivial
  untrue {v e} : D.value v → v.truth = .error e → D.failure (.numeral e) := by intros; trivial
  unknownFunction {c name args offset} : D.expr c (.call name args offset) →
    D.failure (.unknownFunction name offset) := by intros; trivial
  arguments {c name args offset f vs e} : D.expr c (.call name args offset) →
    Eval.checkArguments f vs offset = .error e → D.failure e := by intros; trivial
  tooDeep {c name args offset f} : D.expr c (.call name args offset) →
    D.failure (.depthExceeded f offset) := by intros; trivial
  nativeFailure {n : Native} {vs s e console} : D.state s → (∀ v ∈ vs, D.value v) →
    n.run vs s.frame s.console = (.error e, console) → D.failure e := by intros; trivial
  unknownTag {params e} : Eval.paramTags params = .error e → D.failure e := by intros; trivial
  -- Which jumps leave it.
  breakTo {c label} : D.expr c (.breakTo label) → D.jump c .breakTo label := by intros; trivial
  continueTo {c label} : D.expr c (.continueTo label) → D.jump c .continueTo label := by
    intros; trivial
  leaveBranch {c label j target} : D.jump (D.inBranch c label) j target →
    (j = .breakTo → target.isSome → label ≠ target) → D.jump c j target := by intros; trivial
  leaveLoop {c label j target} : D.jump (D.inLoop c label) j target →
    isFor label target = false → D.jump c j target := by intros; trivial
  leaveCall {c j target} : D.jump D.top j target → D.jump c j target := by intros; trivial

variable (D : Discipline σ)

/-- What may leave an expression of a scope. -/
def exit (c : σ) : Exit → Prop
  | .failed e => D.failure e
  | .ret v => D.value v
  | .breakTo label => D.jump c .breakTo label
  | .continueTo label => D.jump c .continueTo label

/-- A value in a state. -/
def Result (v : Value) (s : State) : Prop := D.value v ∧ D.state s

/-- An exit from a scope in a state. -/
def Leaves (c : σ) (x : Exit) (s : State) : Prop := D.exit c x ∧ D.state s

/-- The evaluator keeps the discipline. -/
def Keeps (ev : Expr → Run Value) : Prop :=
  ∀ c e s, D.expr c e → D.state s → (ev e s).Meets D.Result (D.Leaves c)

variable {D} {ev : Expr → Run Value} {c : σ} {s : State}

/-! ## Sequences -/

theorem all_keeps (h : D.Keeps ev) {es : List Expr} (he : ∀ e ∈ es, D.expr c e)
    (hs : D.state s) :
    (Eval.all ev es s).Meets (fun vs t => (∀ v ∈ vs, D.value v) ∧ D.state t) (D.Leaves c) := by
  induction es generalizing s with
  | nil => exact ⟨by simp, hs⟩
  | cons e es ih =>
    refine Run.meets_bind (h c e s (he e (by simp)) hs) fun v t ⟨hv, ht⟩ => ?_
    refine Run.meets_bind (ih (fun x hx => he x (by simp [hx])) ht) fun vs u ⟨hvs, hu⟩ => ?_
    refine ⟨fun w hw => ?_, hu⟩
    rcases List.mem_cons.mp hw with rfl | hw
    · exact hv
    · exact hvs w hw

theorem block_keeps (h : D.Keeps ev) {es : List Expr} (he : ∀ e ∈ es, D.expr c e)
    (hs : D.state s) :
    (Eval.block ev es s).Meets (fun _ t => D.state t) (D.Leaves c) := by
  induction es generalizing s with
  | nil => exact hs
  | cons e es ih =>
    exact Run.meets_bind (h c e s (he e (by simp)) hs) fun _ t ⟨_, ht⟩ =>
      ih (fun x hx => he x (by simp [hx])) ht

theorem shown_keeps (h : D.Keeps ev) {ps : List Template.Part}
    (hp : ∀ e, Template.Part.expr e ∈ ps → D.expr c e) (hs : D.state s) :
    (Eval.shown ev ps s).Meets (fun _ t => D.state t) (D.Leaves c) := by
  induction ps generalizing s with
  | nil => exact hs
  | cons p ps ih =>
    have rest : ∀ t, D.state t → (Eval.shown ev ps t).Meets (fun _ u => D.state u) (D.Leaves c) :=
      fun t ht => ih (fun e he => hp e (by simp [he])) ht
    match p with
    | .chars cs => exact Run.meets_bind (rest s hs) fun _ _ ht => ht
    | .expr e =>
      exact Run.meets_bind (h c e s (hp e (by simp)) hs) fun _ t ⟨_, ht⟩ =>
        Run.meets_bind (rest t ht) fun _ _ hu => hu

/-! ## Constructs -/

variable (L : D.Lawful)

include L

theorem truth_keeps {v : Value} (hv : D.value v) (hs : D.state s) :
    (Eval.truth v s).Meets (fun _ t => D.state t) (D.Leaves c) := by
  refine Run.meets_lift (fun _ _ => hs) fun e he => ⟨?_, hs⟩
  match ht : v.truth with
  | .ok b => simp [ht, ofNumeral] at he
  | .error e' =>
    obtain rfl : RunError.numeral e' = e := by simpa [ht, ofNumeral] using he
    exact L.untrue hv ht

theorem text_keeps (h : D.Keeps ev) {quoted : QuotedText} {offset : Nat}
    (he : D.expr c (.text quoted offset)) (hs : D.state s) :
    (Eval.text ev quoted offset s).Meets D.Result (D.Leaves c) := by
  unfold Eval.text
  match hp : Template.parts quoted offset with
  | .ok ps =>
    exact Run.meets_bind (shown_keeps h (fun e hm => L.text he hp hm) hs) fun _ _ ht =>
      ⟨L.shown, ht⟩
  | .error e => exact ⟨L.unread he hp, hs⟩

theorem operation_keeps (h : D.Keeps ev) {op : Operator} {l r : Expr} (hl : D.expr c l)
    (hr : D.expr c r) (hs : D.state s) :
    (Eval.operation ev op l r s).Meets D.Result (D.Leaves c) := by
  refine Run.meets_bind (h c l s hl hs) fun a t ⟨ha, ht⟩ => ?_
  -- Only the two logical operators look at the left operand before the right one is evaluated.
  have second : ∀ u, D.state u → ((do
      let b ← ev r
      return .ofBool (← Eval.truth b) : Run Value) u).Meets D.Result (D.Leaves c) := fun u hu =>
    Run.meets_bind (h c r u hr hu) fun b w ⟨hb, hw⟩ =>
      Run.meets_bind (truth_keeps L hb hw) fun _ _ hx => ⟨L.ofBool, hx⟩
  have both : ((do
      let b ← ev r
      Run.lift (op.apply a b) : Run Value) t).Meets D.Result (D.Leaves c) :=
    Run.meets_bind (h c r t hr ht) fun b u ⟨hb, hu⟩ =>
      Run.meets_lift (fun v hv => ⟨L.apply ha hb hv, hu⟩) fun e he => ⟨L.refused ha hb he, hu⟩
  match op with
  | .and =>
    refine Run.meets_bind (truth_keeps L ha ht) fun b u hu => ?_
    match b with
    | true => exact second u hu
    | false => exact ⟨L.ofBool, hu⟩
  | .or =>
    refine Run.meets_bind (truth_keeps L ha ht) fun b u hu => ?_
    match b with
    | true => exact ⟨L.ofBool, hu⟩
    | false => exact second u hu
  | .add | .sub | .mul | .div | .eq | .strictEq | .ne | .strictNe | .lt | .le | .gt | .ge =>
    exact both

/-- A branch of a conditional, seen from outside. -/
theorem branch_keeps (h : D.Keeps ev) {label : Option String} {es : List Expr}
    (he : ∀ e ∈ es, D.expr (D.inBranch c label) e) (hs : D.state s) :
    (Run.branch label (Eval.block ev es) s).Meets D.Result (D.Leaves c) := by
  refine ((block_keeps h he hs).mono (fun _ t ht => ⟨L.unit, ht⟩) fun _ _ hx => hx).branch
    (fun _ t _ hx => ⟨L.unit, hx.2⟩) fun x t hx hj => ⟨?_, hj.2⟩
  match x with
  | .failed _ | .ret _ => exact hj.1
  | .breakTo target =>
    refine L.leaveBranch hj.1 fun _ hsome hl => ?_
    obtain ⟨l, rfl⟩ := Option.isSome_iff_exists.mp hsome
    exact hx l hl rfl
  | .continueTo target => exact L.leaveBranch hj.1 (by simp)

/-- A run of a loop's body, seen from outside. -/
theorem pass_keeps (h : D.Keeps ev) {label : Option String} {es : List Expr}
    (he : ∀ e ∈ es, D.expr (D.inLoop c label) e) (hs : D.state s) :
    (Run.pass label (Eval.block ev es) s).Meets (fun _ t => D.state t) (D.Leaves c) := by
  refine (block_keeps h he hs).pass (fun _ _ _ hx => hx.2) (fun _ _ _ hx => hx.2)
    fun x t hx hj => ⟨?_, hj.2⟩
  match x with
  | .failed _ | .ret _ => exact hj.1
  | .breakTo target =>
    exact L.leaveLoop hj.1 (Bool.eq_false_iff.mpr fun hf => (hx target hf).1 rfl)
  | .continueTo target =>
    exact L.leaveLoop hj.1 (Bool.eq_false_iff.mpr fun hf => (hx target hf).2 rfl)

theorem turn_keeps (h : D.Keeps ev) {label : Option String} {e : Expr} {es : List Expr}
    (he : D.expr c e) (hes : ∀ x ∈ es, D.expr (D.inLoop c label) x) (hs : D.state s) :
    (Eval.turn ev label e es s).Meets (fun _ t => D.state t) (D.Leaves c) := by
  refine Run.meets_bind (h c e s he hs) fun v t ⟨hv, ht⟩ => ?_
  refine Run.meets_bind (truth_keeps L hv ht) fun b u hu => ?_
  match b with
  | true => exact pass_keeps L h hes hu
  | false => exact hu

theorem iterate_keeps {x : Run Bool}
    (hx : ∀ t, D.state t → (x t).Meets (fun _ u => D.state u) (D.Leaves c)) (turns : Nat)
    (hs : D.state s) : (Run.iterate x turns s).Meets D.Result (D.Leaves c) := by
  refine Run.meets_iterate (I := D.state) (fun t ht => ?_) turns hs
  refine (hx t ht).mono (fun more u hu => ?_) fun _ _ hj => hj
  match more with
  | true => exact hu
  | false => exact ⟨L.unit, hu⟩

/-! ## Calls -/

/-- Binding parameters to values that may come up. -/
theorem enter_keeps {vs : List Value} (hv : ∀ v ∈ vs, D.value v) (params : List String)
    (hs : D.state s) : D.state { s with frame := s.frame.enter params vs } := by
  have bound : ∀ (ps : List (String × Value)) (f : Frame), (∀ p ∈ ps, D.value p.2) →
      D.state { s with frame := f } →
      D.state { s with frame := ps.foldl (fun f p => f.bind p.1 p.2) f } := by
    intro ps
    induction ps with
    | nil => exact fun _ _ hf => hf
    | cons p ps ih =>
      intro f hp hf
      exact ih _ (fun q hq => hp q (by simp [hq])) (L.bind hf (hp p (by simp)))
  exact bound _ _ (fun p hp => hv p.2 (List.of_mem_zip hp).2) (L.deeper hs)

theorem apply_keeps (h : D.Keeps ev) {name : String} {args : List Expr} {offset : Nat}
    (he : D.expr c (.call name args offset)) {f : Function} {es : List Expr} {vs : List Value}
    (hf : s.frame.functions.get? name = some f) (hb : f.body = .program es)
    (hv : ∀ v ∈ vs, D.value v) (hs : D.state s) :
    (Eval.apply ev f es vs offset s).Meets D.Result (D.Leaves c) := by
  refine Run.meets_bind (Q := fun g t => g = s.frame ∧ s = t) ⟨rfl, rfl⟩ ?_
  rintro _ _ ⟨rfl, rfl⟩
  by_cases hd : maxDepth ≤ s.frame.depth
  · rw [if_pos hd]
    exact ⟨L.tooDeep he, hs⟩
  · rw [if_neg hd]
    have inner := block_keeps h (L.body hs hf hb) (enter_keeps L hv (f.params.map (·.2)) hs)
    refine (inner.mono (fun _ t ht => ⟨L.unit, L.leave hs ht⟩) fun _ _ hx => hx).returnTo
      (fun v t hx => ⟨hx.1, L.leave hs hx.2⟩) fun x t hx hj => ⟨?_, L.leave hs hj.2⟩
    match x with
    | .failed _ => exact hj.1
    | .ret v => exact absurd rfl (hx v)
    | .breakTo _ | .continueTo _ => exact L.leaveCall hj.1

theorem native_keeps {n : Native} {vs : List Value} (hv : ∀ v ∈ vs, D.value v)
    (hs : D.state s) : (Eval.native n vs s).Meets D.Result (D.Leaves c) := by
  unfold Eval.native
  match hr : n.run vs s.frame s.console with
  | (.ok v, console) => exact ⟨L.native hs hv hr, L.console hs hv hr⟩
  | (.error e, console) => exact ⟨L.nativeFailure hs hv hr, L.console hs hv hr⟩

theorem call_keeps (h : D.Keeps ev) {name : String} {args : List Expr} {offset : Nat}
    (he : D.expr c (.call name args offset)) (hs : D.state s) :
    (Eval.call ev name args offset s).Meets D.Result (D.Leaves c) := by
  refine Run.meets_bind (all_keeps h (L.call he) hs) fun vs t ⟨hv, ht⟩ => ?_
  refine Run.meets_bind (Q := fun g u => g = t.frame ∧ t = u) ⟨rfl, rfl⟩ ?_
  rintro _ _ ⟨rfl, rfl⟩
  match hf : t.frame.functions.get? name with
  | none => exact ⟨L.unknownFunction he, ht⟩
  | some f =>
    refine Run.meets_bind (Q := fun _ u => t = u)
      (Run.meets_lift (fun _ _ => rfl) fun e hc => ⟨L.arguments he hc, ht⟩) ?_
    rintro _ _ rfl
    match hb : f.body with
    | .native n => exact native_keeps L hv ht
    | .program es => exact apply_keeps L h he hf hb hv ht

/-! ## Expressions -/

/-- **If the parts of an expression keep a lawful discipline, the expression does.** -/
theorem step_keeps (h : D.Keeps ev) (turns : Nat) : D.Keeps (Eval.step turns ev) := by
  intro c e s he hs
  match e with
  | .numeral x => exact ⟨L.numeral he, hs⟩
  | .text quoted offset => exact text_keeps L h he hs
  | .var name =>
    refine Run.meets_bind (Q := fun f t => f = s.frame ∧ s = t) ⟨rfl, rfl⟩ ?_
    rintro _ _ ⟨rfl, rfl⟩
    match hv : s.frame.vars.get? name with
    | some v => exact ⟨L.var hs hv, hs⟩
    | none => exact ⟨L.unknownVariable, hs⟩
  | .assign name value =>
    exact Run.meets_bind (h c value s (L.assign he) hs) fun v t ⟨hv, ht⟩ => ⟨L.unit, L.bind ht hv⟩
  | .binary op l r offset =>
    obtain ⟨hl, hr⟩ := L.binary he
    refine (operation_keeps L h hl hr hs).recover fun e t k hk _ hx => ⟨L.unit, ?_⟩
    subst hk
    exact L.report he hx.1 hx.2
  | .call name args offset => exact call_keeps L h he hs
  | .ret value offset =>
    refine Run.meets_bind (h c value s (L.ret he) hs) fun v t ⟨hv, ht⟩ => ?_
    refine Run.meets_bind (Q := fun f u => f = t.frame ∧ t = u) ⟨rfl, rfl⟩ ?_
    rintro _ _ ⟨rfl, rfl⟩
    by_cases hd : 0 < t.frame.depth
    · rw [if_pos hd]
      exact ⟨hv, ht⟩
    · rw [if_neg hd]
      exact ⟨hv, ht⟩
  | .branch label e yes no =>
    obtain ⟨hc, hy, hn⟩ := L.branch he
    refine Run.meets_bind (h c e s hc hs) fun v t ⟨hv, ht⟩ => ?_
    refine Run.meets_bind (truth_keeps L hv ht) fun b u hu => ?_
    match b with
    | true => exact branch_keeps L h hy hu
    | false => exact branch_keeps L h hn hu
  | .whileLoop label e body =>
    obtain ⟨hc, hb⟩ := L.whileLoop he
    exact iterate_keeps L (fun t ht => turn_keeps L h hc hb ht) turns hs
  | .loop label body =>
    exact iterate_keeps L (fun t ht => pass_keeps L h (L.loop he) ht) turns hs
  | .breakTo label => exact ⟨L.breakTo he, hs⟩
  | .continueTo label => exact ⟨L.continueTo he, hs⟩
  | .function name params returns body =>
    refine Run.meets_bind (Q := fun tags t => Eval.paramTags params = .ok tags ∧ s = t)
      (Run.meets_lift (fun _ ht => ⟨ht, rfl⟩) fun e hp => ⟨L.unknownTag hp, hs⟩) ?_
    rintro tags _ ⟨ht, rfl⟩
    exact ⟨L.unit, L.declare he ht hs⟩

/-- **Every evaluation keeps a lawful discipline.** -/
theorem eval_keeps (n : Nat) : D.Keeps (Expr.eval n) := by
  induction n with
  | zero => exact fun _ _ _ _ _ => trivial
  | succ n ih => exact step_keeps L ih n

/-- How a statement that stands alone ends: with a value, with a failure, or with a jump that
nothing caught. -/
theorem runStatement_keeps {n : Nat} {e : Expr} {r : Except RunError Value} {t : State}
    (he : D.expr c e) (hs : D.state s) (h : runStatement n e s = some (r, t)) :
    D.state t ∧ (∀ v, r = .ok v → D.value v) ∧
      ∀ err, r = .error err → D.failure err ∨
        ∃ jump label, err = .unmatchedJump jump label ∧ D.jump c jump label := by
  have hm := eval_keeps L n c e s he hs
  unfold runStatement at h
  match e.eval n s, hm, h with
  | .done v u, hm, h | .exit (.ret v) u, hm, h =>
    obtain ⟨rfl, rfl⟩ : .ok v = r ∧ u = t := by simpa [Outcome.outermost] using h
    exact ⟨hm.2, fun w hw => Except.ok.inj hw ▸ hm.1, by simp⟩
  | .exit (.failed err) u, hm, h =>
    obtain ⟨rfl, rfl⟩ : .error err = r ∧ u = t := by simpa [Outcome.outermost] using h
    exact ⟨hm.2, by simp, fun e' he' => .inl (Except.error.inj he' ▸ hm.1)⟩
  | .exit (.breakTo label) u, hm, h | .exit (.continueTo label) u, hm, h =>
    obtain ⟨rfl, rfl⟩ : .error (.unmatchedJump _ label) = r ∧ u = t := by
      simpa [Outcome.outermost] using h
    exact ⟨hm.2, by simp, fun e' he' => .inr ⟨_, label, (Except.error.inj he').symm, hm.1⟩⟩
  | .outOfFuel, _, h => exact absurd h (by simp [Outcome.outermost])

end Discipline

end Radix
