import Radix.Proofs.Eval.Failure
import Radix.Proofs.Eval.Visit

/-!
# Proofs/Eval/Raise — where a failure comes from

`Eval.Raises` says which failures an expression makes by itself, from results of its parts.  Every
other failure is handed on by a part (`Eval.traced_of_failed`), so a failure anywhere in an
evaluation, also one that an operator goes on to report, was raised at some expression that the
evaluation came by (`Expr.raises_of_unrecovered`).
-/

namespace Radix

namespace Run

variable {α β : Type} {x : Run α} {f : α → Run β} {s u : State}

theorem bind_eq_exit {e : Exit} : (x >>= f) s = .exit e u ↔
    x s = .exit e u ∨ ∃ a t, x s = .done a t ∧ f a t = .exit e u := by
  rw [bind_apply]
  match x s with
  | .done a t => simp [and_assoc]
  | .exit e t => simp
  | .outOfFuel => simp

theorem lift_eq_exit {x : Except RunError α} {e : Exit} :
    lift x s = .exit e u ↔ ∃ err, x = .error err ∧ e = .failed err ∧ u = s := by
  match x with
  | .ok a => simp
  | .error err => simp [eq_comm]

theorem lift_eq_done {x : Except RunError α} {a : α} :
    lift x s = .done a u ↔ x = .ok a ∧ s = u := by
  match x with
  | .ok a => simp
  | .error err => simp

end Run

namespace Eval

theorem truth_eq_exit {v : Value} {e : Exit} {s u : State} :
    truth v s = .exit e u ↔ ∃ cause, v.truth = .error cause ∧ e = .failed (.numeral cause) ∧
      u = s := by
  rw [truth, Run.lift_eq_exit]
  constructor
  · rintro ⟨err, he, rfl, rfl⟩
    obtain ⟨cause, hc, rfl⟩ := ofNumeral_eq_error.mp he
    exact ⟨cause, hc, rfl, rfl⟩
  · rintro ⟨cause, hc, rfl, rfl⟩
    exact ⟨_, ofNumeral_eq_error.mpr ⟨cause, hc, rfl⟩, rfl, rfl⟩

theorem truth_eq_done {v : Value} {b : Bool} {s u : State} :
    truth v s = .done b u ↔ v.truth = .ok b ∧ s = u := by
  rw [truth, Run.lift_eq_done, ofNumeral_eq_ok]

/-- The evaluation of `x` in `t` fails with `e`. -/
def Fails (ev : Expr → Run Value) (x : Expr) (t : State) (e : RunError) : Prop :=
  ∃ u, ev x t = .exit (.failed e) u

/-- The expression itself makes the failure, from what its parts give. -/
inductive Raises (turns : Nat) (ev : Expr → Run Value) : Expr → State → RunError → Prop
  | unread {quoted offset s e} : Template.parts quoted offset = .error e →
    Raises turns ev (.text quoted offset) s (.read e)
  | unknownVariable {name s} : s.frame.vars.get? name = none →
    Raises turns ev (.var name) s (.unknownVariable name)
  | refused {op l r offset s a t b u e} : ev l s = .done a t → ev r t = .done b u →
    op.apply a b = .error e → Raises turns ev (.binary op l r offset) s e
  | untrueLeft {op l r offset s a t e} : ev l s = .done a t → a.truth = .error e →
    Raises turns ev (.binary op l r offset) s (.numeral e)
  | untrueRight {op l r offset s a t b u e} : ev l s = .done a t → ev r t = .done b u →
    b.truth = .error e → Raises turns ev (.binary op l r offset) s (.numeral e)
  | untrueCondition {label c yes no s v t e} : ev c s = .done v t → v.truth = .error e →
    Raises turns ev (.branch label c yes no) s (.numeral e)
  | untrueTurn {label c body k s t v u e} : Goes (turn ev label c body) k s t → k < turns →
    ev c t = .done v u → v.truth = .error e →
    Raises turns ev (.whileLoop label c body) s (.numeral e)
  | unknownFunction {name args offset s vs t} : all ev args s = .done vs t →
    t.frame.functions.get? name = none →
    Raises turns ev (.call name args offset) s (.unknownFunction name offset)
  | arguments {name args offset s vs t f e} : all ev args s = .done vs t →
    t.frame.functions.get? name = some f → checkArguments f vs offset = .error e →
    Raises turns ev (.call name args offset) s e
  | native {name args offset s f vs t n e console} : Accepts ev name args offset s f vs t →
    f.body = .native n → n.run vs t.frame t.console = (.error e, console) →
    Raises turns ev (.call name args offset) s e
  | tooDeep {name args offset s f vs t body} : Accepts ev name args offset s f vs t →
    f.body = .program body → maxDepth ≤ t.frame.depth →
    Raises turns ev (.call name args offset) s (.depthExceeded f.name offset)
  | unknownTag {name params returns body s e} : paramTags params = .error e →
    Raises turns ev (.function name params returns body) s e

/-- The failure is raised by the expression or handed on by one of its parts. -/
def Traced (turns : Nat) (ev : Expr → Run Value) (x : Expr) (s : State) (e : RunError) : Prop :=
  Raises turns ev x s e ∨ ∃ y t, Part turns ev x s y t ∧ Fails ev y t e

/-- Evaluates an expression, but an operator hands on its failures. -/
def unrecovered (turns : Nat) (ev : Expr → Run Value) : Expr → Run Value
  | .binary op l r _ => operation ev op l r
  | e => step turns ev e

variable {turns : Nat} {ev : Expr → Run Value} {e : RunError} {s u : State}

/-! ## Sequences -/

theorem reaches_of_all {es : List Expr} (h : all ev es s = .exit (.failed e) u) :
    ∃ y t, Reaches ev es s y t ∧ Fails ev y t e := by
  induction es generalizing s with
  | nil => exact absurd h (by simp [all])
  | cons x es ih =>
    rcases Run.bind_eq_exit.mp h with hx | ⟨v, t, hx, h⟩
    · exact ⟨x, s, .head, u, hx⟩
    rcases Run.bind_eq_exit.mp h with hes | ⟨vs, w, -, h⟩
    · obtain ⟨y, w, hr, hf⟩ := ih hes
      exact ⟨y, w, .tail hx hr, hf⟩
    · exact absurd h (by simp)

theorem reaches_of_block {es : List Expr} (h : block ev es s = .exit (.failed e) u) :
    ∃ y t, Reaches ev es s y t ∧ Fails ev y t e := by
  induction es generalizing s with
  | nil => exact absurd h (by simp [block])
  | cons x es ih =>
    rcases Run.bind_eq_exit.mp h with hx | ⟨v, t, hx, h⟩
    · exact ⟨x, s, .head, u, hx⟩
    · obtain ⟨y, w, hr, hf⟩ := ih h
      exact ⟨y, w, .tail hx hr, hf⟩

theorem reaches_of_shown {ps : List Template.Part} (h : shown ev ps s = .exit (.failed e) u) :
    ∃ y t, Reaches ev (ps.filterMap (·.expr?)) s y t ∧ Fails ev y t e := by
  induction ps generalizing s with
  | nil => exact absurd h (by simp [shown])
  | cons p ps ih =>
    match p with
    | .chars cs =>
      rcases Run.bind_eq_exit.mp h with hps | ⟨str, w, -, h⟩
      · exact ih hps
      · exact absurd h (by simp)
    | .expr x =>
      rcases Run.bind_eq_exit.mp h with hx | ⟨v, t, hx, h⟩
      · exact ⟨x, s, .head, u, hx⟩
      rcases Run.bind_eq_exit.mp h with hps | ⟨str, w, -, h⟩
      · obtain ⟨y, w, hr, hf⟩ := ih hps
        exact ⟨y, w, .tail hx hr, hf⟩
      · exact absurd h (by simp)

/-! ## Catchers hand on failures as they are -/

theorem failed_of_branch {label : Option String} {o : Outcome Unit}
    (h : o.branch label = .exit (.failed e) u) : o = .exit (.failed e) u := by
  unfold Outcome.branch at h
  split at h
  · exact absurd h (by simp)
  · split at h <;> exact absurd h (by simp)
  · obtain ⟨rfl, rfl⟩ : _ = Exit.failed e ∧ _ = u := by simpa using h
    rfl
  · exact absurd h (by simp)

theorem failed_of_pass {label : Option String} {o : Outcome Unit}
    (h : o.pass label = .exit (.failed e) u) : o = .exit (.failed e) u := by
  unfold Outcome.pass at h
  split at h
  · exact absurd h (by simp)
  · split at h <;> exact absurd h (by simp)
  · split at h <;> exact absurd h (by simp)
  · obtain ⟨rfl, rfl⟩ : _ = Exit.failed e ∧ _ = u := by simpa using h
    rfl
  · exact absurd h (by simp)

theorem failed_of_returnTo {caller : Frame} {o : Outcome Unit}
    (h : o.returnTo caller = .exit (.failed e) u) : ∃ w, o = .exit (.failed e) w := by
  unfold Outcome.returnTo at h
  split at h
  · exact absurd h (by simp)
  · exact absurd h (by simp)
  · next x w _ =>
    obtain ⟨rfl, -⟩ : x = .failed e ∧ _ = u := by simpa using h
    exact ⟨w, rfl⟩
  · exact absurd h (by simp)

theorem failed_of_recover {offset : Option Nat} {o : Outcome Value}
    (h : o.recover offset = .exit (.failed e) u) : o = .exit (.failed e) u := by
  unfold Outcome.recover at h
  split at h
  · split at h
    · split at h
      · exact h
      · exact absurd h (by simp)
    · exact h
  · exact h

theorem failed_of_iterate {x : Run Bool} {n : Nat}
    (h : Run.iterate x n s = .exit (.failed e) u) :
    ∃ k t, k < n ∧ Goes x k s t ∧ x t = .exit (.failed e) u := by
  induction n generalizing s with
  | zero => exact absurd h (by simp [Run.iterate])
  | succ n ih =>
    rw [Run.iterate_succ] at h
    match hx : x s with
    | .done true t =>
      rw [hx] at h
      obtain ⟨k, w, hk, hg, hf⟩ := ih h
      exact ⟨k + 1, w, by omega, .turn hx hg, hf⟩
    | .done false t =>
      rw [hx] at h
      exact absurd h (by simp)
    | .exit x' t =>
      rw [hx] at h
      exact ⟨0, s, by omega, .start, hx.trans (by simpa using h)⟩
    | .outOfFuel =>
      rw [hx] at h
      exact absurd h (by simp)

/-! ## Expressions -/

theorem traced_of_operation {op : Operator} {l r : Expr} {offset : Option Nat}
    (h : operation ev op l r s = .exit (.failed e) u) :
    Traced turns ev (.binary op l r offset) s e := by
  rcases Run.bind_eq_exit.mp h with hl | ⟨a, t, hl, h⟩
  · exact .inr ⟨l, s, .left, u, hl⟩
  -- The right operand of a logical operator, once it is needed.
  have second : NeedsRight op a → (do
      let b ← ev r
      return .ofBool (← truth b) : Run Value) t = .exit (.failed e) u →
      Traced turns ev (.binary op l r offset) s e := by
    intro hn h
    rcases Run.bind_eq_exit.mp h with hr | ⟨b, w, hr, h⟩
    · exact .inr ⟨r, t, .right hl hn, u, hr⟩
    rcases Run.bind_eq_exit.mp h with hb | ⟨_, _, _, h⟩
    · obtain ⟨cause, hc, he, -⟩ := truth_eq_exit.mp hb
      obtain rfl := Exit.failed.inj he
      exact .inl (.untrueRight hl hr hc)
    · exact absurd h (by simp)
  have both : NeedsRight op a → (do
      let b ← ev r
      Run.lift (op.apply a b) : Run Value) t = .exit (.failed e) u →
      Traced turns ev (.binary op l r offset) s e := by
    intro hn h
    rcases Run.bind_eq_exit.mp h with hr | ⟨b, w, hr, h⟩
    · exact .inr ⟨r, t, .right hl hn, u, hr⟩
    · obtain ⟨err, ha, he, -⟩ := Run.lift_eq_exit.mp h
      obtain rfl := Exit.failed.inj he
      exact .inl (.refused hl hr ha)
  match op with
  | .and =>
    rcases Run.bind_eq_exit.mp h with ha | ⟨b, w, ha, h⟩
    · obtain ⟨cause, hc, he, -⟩ := truth_eq_exit.mp ha
      obtain rfl := Exit.failed.inj he
      exact .inl (.untrueLeft hl hc)
    · obtain ⟨hb, rfl⟩ := truth_eq_done.mp ha
      match b with
      | true => exact second ⟨fun _ => hb, by simp⟩ h
      | false => exact absurd h (by simp)
  | .or =>
    rcases Run.bind_eq_exit.mp h with ha | ⟨b, w, ha, h⟩
    · obtain ⟨cause, hc, he, -⟩ := truth_eq_exit.mp ha
      obtain rfl := Exit.failed.inj he
      exact .inl (.untrueLeft hl hc)
    · obtain ⟨hb, rfl⟩ := truth_eq_done.mp ha
      match b with
      | true => exact absurd h (by simp)
      | false => exact second ⟨by simp, fun _ => hb⟩ h
  | .add | .sub | .mul | .div | .eq | .strictEq | .ne | .strictNe | .lt | .le | .gt | .ge =>
    exact both ⟨by simp, by simp⟩ h

theorem traced_of_call {name : String} {args : List Expr} {offset : Nat}
    (h : call ev name args offset s = .exit (.failed e) u) :
    Traced turns ev (.call name args offset) s e := by
  rcases Run.bind_eq_exit.mp h with ha | ⟨vs, t, ha, h⟩
  · obtain ⟨y, t, hr, hf⟩ := reaches_of_all ha
    exact .inr ⟨y, t, .argument hr, hf⟩
  simp only [Run.bind_apply, Run.frame_apply] at h
  match hf : t.frame.functions.get? name with
  | none =>
    rw [hf] at h
    obtain ⟨rfl, -⟩ : RunError.unknownFunction name offset = e ∧ t = u := by simpa using h
    exact .inl (.unknownFunction ha hf)
  | some f =>
    rw [hf] at h
    rcases Run.bind_eq_exit.mp h with hc | ⟨_, w, hl, hrun⟩
    · obtain ⟨err, hc, he, -⟩ := Run.lift_eq_exit.mp hc
      obtain rfl := Exit.failed.inj he
      exact .inl (.arguments ha hf hc)
    obtain ⟨hc, rfl⟩ := Run.lift_eq_done.mp hl
    have accepts : Accepts ev name args offset s f vs t := ⟨ha, hf, hc⟩
    match hb : f.body with
    | .native n =>
      simp only [hb, native] at hrun
      match hr : n.run vs t.frame t.console with
      | (.ok v, console) => simp [hr] at hrun
      | (.error err, console) =>
        obtain ⟨rfl, -⟩ : err = e ∧ _ = u := by simpa [hr] using hrun
        exact .inl (.native accepts hb hr)
    | .program body =>
      simp only [hb, apply, Run.bind_apply, Run.frame_apply] at hrun
      split at hrun
      · next hd =>
        obtain ⟨rfl, -⟩ : RunError.depthExceeded f.name offset = e ∧ t = u := by simpa using hrun
        exact .inl (.tooDeep accepts hb hd)
      · next hd =>
        obtain ⟨w, hw⟩ := failed_of_returnTo hrun
        obtain ⟨y, w, hr, hf⟩ := reaches_of_block hw
        exact .inr ⟨y, w, .body ⟨f, vs, t, accepts, hb, by omega, rfl⟩ hr, hf⟩

theorem traced_of_conditional {label : Option String} {c : Expr} {yes : List Expr}
    {no : Option (List Expr)} (h : conditional ev label c yes no s = .exit (.failed e) u) :
    Traced turns ev (.branch label c yes no) s e := by
  rcases Run.bind_eq_exit.mp h with hc | ⟨v, t, hc, h⟩
  · exact .inr ⟨c, s, .condition, u, hc⟩
  rcases Run.bind_eq_exit.mp h with ht | ⟨b, w, ht, hb⟩
  · obtain ⟨cause, hv, he, -⟩ := truth_eq_exit.mp ht
    obtain rfl := Exit.failed.inj he
    exact .inl (.untrueCondition hc hv)
  obtain ⟨hv, rfl⟩ := truth_eq_done.mp ht
  match b with
  | true =>
    obtain ⟨y, w, hr, hf⟩ := reaches_of_block (failed_of_branch hb)
    exact .inr ⟨y, w, .yes hc hv hr, hf⟩
  | false =>
    obtain ⟨y, w, hr, hf⟩ := reaches_of_block (failed_of_branch hb)
    exact .inr ⟨y, w, .no hc hv hr, hf⟩

theorem traced_of_whileLoop {label : Option String} {c : Expr} {body : List Expr}
    (h : Run.iterate (turn ev label c body) turns s = .exit (.failed e) u) :
    Traced turns ev (.whileLoop label c body) s e := by
  obtain ⟨k, t, hk, hg, h⟩ := failed_of_iterate h
  rcases Run.bind_eq_exit.mp h with hc | ⟨v, w, hc, h⟩
  · exact .inr ⟨c, t, .turn hg hk, u, hc⟩
  rcases Run.bind_eq_exit.mp h with ht | ⟨b, x, ht, hb⟩
  · obtain ⟨cause, hv, he, -⟩ := truth_eq_exit.mp ht
    obtain rfl := Exit.failed.inj he
    exact .inl (.untrueTurn hg hk hc hv)
  obtain ⟨hv, rfl⟩ := truth_eq_done.mp ht
  match b with
  | true =>
    obtain ⟨y, x, hr, hf⟩ := reaches_of_block (failed_of_pass hb)
    exact .inr ⟨y, x, .turnBody hg hk hc hv hr, hf⟩
  | false => exact absurd hb (by simp)

/-- **A failure is raised here or handed on by a part.** -/
theorem traced_of_failed {x : Expr} (h : unrecovered turns ev x s = .exit (.failed e) u) :
    Traced turns ev x s e := by
  match x with
  | .numeral x => exact absurd h (by simp [unrecovered, step])
  | .text quoted offset =>
    simp only [unrecovered, step, text] at h
    match hp : Template.parts quoted offset with
    | .error err =>
      obtain ⟨rfl, -⟩ : RunError.read err = e ∧ s = u := by simpa [hp] using h
      exact .inl (.unread hp)
    | .ok ps =>
      rw [hp] at h
      rcases Run.bind_eq_exit.mp h with hs | ⟨str, w, -, h⟩
      · obtain ⟨y, t, hr, hf⟩ := reaches_of_shown hs
        exact .inr ⟨y, t, .text hp hr, hf⟩
      · exact absurd h (by simp)
  | .var name =>
    simp only [unrecovered, step, lookup, Run.bind_apply, Run.frame_apply] at h
    match hv : s.frame.vars.get? name with
    | some v => simp [hv] at h
    | none =>
      obtain ⟨rfl, -⟩ : RunError.unknownVariable name = e ∧ s = u := by simpa [hv] using h
      exact .inl (.unknownVariable hv)
  | .assign name value =>
    rcases Run.bind_eq_exit.mp h with hv | ⟨v, t, -, h⟩
    · exact .inr ⟨value, s, .assign, u, hv⟩
    · exact absurd h (by simp)
  | .binary op l r offset => exact traced_of_operation h
  | .call name args offset => exact traced_of_call h
  | .ret value offset =>
    rcases Run.bind_eq_exit.mp h with hv | ⟨v, t, -, h⟩
    · exact .inr ⟨value, s, .ret, u, hv⟩
    · simp only [Run.bind_apply, Run.frame_apply] at h
      split at h <;> exact absurd h (by simp)
  | .branch label c yes no => exact traced_of_conditional h
  | .whileLoop label c body => exact traced_of_whileLoop h
  | .loop label body =>
    obtain ⟨k, t, hk, hg, h⟩ := failed_of_iterate h
    obtain ⟨y, w, hr, hf⟩ := reaches_of_block (failed_of_pass h)
    exact .inr ⟨y, w, .pass hg hk hr, hf⟩
  | .breakTo label => exact absurd h (by simp [unrecovered, step])
  | .continueTo label => exact absurd h (by simp [unrecovered, step])
  | .function name params returns body =>
    rcases Run.bind_eq_exit.mp h with hp | ⟨tags, t, -, h⟩
    · obtain ⟨err, hp, he, -⟩ := Run.lift_eq_exit.mp hp
      obtain rfl := Exit.failed.inj he
      exact .inl (.unknownTag hp)
    · exact absurd h (by simp)

theorem unrecovered_of_step {x : Expr} (h : step turns ev x s = .exit (.failed e) u) :
    unrecovered turns ev x s = .exit (.failed e) u := by
  match x with
  | .binary op l r offset => exact failed_of_recover h
  | .numeral _ | .text _ _ | .var _ | .assign _ _ | .call _ _ _ | .ret _ _ | .branch _ _ _ _
  | .whileLoop _ _ _ | .loop _ _ | .breakTo _ | .continueTo _ | .function _ _ _ _ => exact h

end Eval

/-- **Every failure is raised at an expression that the evaluation comes by**, whether an operator
reports it or not. -/
theorem Expr.raises_of_unrecovered {n : Nat} {x : Expr} {s u : State} {e : RunError}
    (h : Eval.unrecovered n (Expr.eval n) x s = .exit (.failed e) u) :
    ∃ m y t, x.Visits (n + 1) s (m + 1) y t ∧ Eval.Raises m (Expr.eval m) y t e := by
  induction n generalizing x s u with
  | zero =>
    rcases Eval.traced_of_failed h with hr | ⟨y, t, -, w, hf⟩
    · exact ⟨0, x, s, .here, hr⟩
    · exact absurd hf (by simp)
  | succ n ih =>
    rcases Eval.traced_of_failed h with hr | ⟨y, t, hp, w, hf⟩
    · exact ⟨n + 1, x, s, .here, hr⟩
    · obtain ⟨m, z, w, hv, hr⟩ := ih (Eval.unrecovered_of_step hf)
      exact ⟨m, z, w, .part hp hv, hr⟩

end Radix
