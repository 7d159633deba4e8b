import Mathlib.Data.List.Forall2
import Radix.Proofs.Eval.Trace
import Radix.Proofs.Scope

/-!
# Proofs/Calls — calls are checked before they act

    arguments, left to right ──▸ look-up ──▸ count ──▸ tags ──▸ depth ──▸ the function runs

Arguments are arbitrary expressions: they may jump, fail, write, or declare the very function that
is being called.  So it matters that a call looks at nothing before the last of them is done, and
that nothing happens between that moment and the first statement of the function.  `Eval.Evaluates`
says what the arguments give, `Eval.Rejects` why nothing is run then, and `Frame.Bound` where a
function starts if nothing stands against it.  The rest is that a call has no other way to go
(`Expr.call_checked_before_run`).
-/

namespace Radix

namespace Eval

/-! ## Arguments -/

/-- The expressions are evaluated one after the other, each where the one before it was done, and
give the values. -/
inductive Evaluates (ev : Expr → Run Value) : List Expr → State → List Value → State → Prop
  | nil {s} : Evaluates ev [] s [] s
  | cons {e es s v t vs u} : ev e s = .done v t → Evaluates ev es t vs u →
    Evaluates ev (e :: es) s (v :: vs) u

section Arguments

variable {ev : Expr → Run Value} {s t u : State} {vs : List Value} {before after es : List Expr}
  {e : Expr} {x : Exit}

theorem Evaluates.all_eq (h : Evaluates ev es s vs t) : all ev es s = .done vs t := by
  induction h with
  | nil => rfl
  | cons hv _ ih => simp only [all, Run.bind_apply, hv, ih, Run.pure_apply]

/-- The first expression that leaves early ends the list. -/
theorem Evaluates.all_eq_exit (h : Evaluates ev before s vs t) (hx : ev e t = .exit x u) :
    all ev (before ++ e :: after) s = .exit x u := by
  induction h with
  | nil => simp only [List.nil_append, all, Run.bind_apply, hx]
  | cons hv _ ih => simp only [List.cons_append, all, Run.bind_apply, hv, ih hx]

/-- It is the last one that is asked for. -/
theorem Evaluates.asked_eq (h : Evaluates ev before s vs t) (hx : ev e t = .exit x u) :
    asked ev (before ++ e :: after) s = asked ev before s ++ [(e, t)] := by
  induction h with
  | nil => simp only [List.nil_append, asked, next, hx]
  | cons hv _ ih => simp only [List.cons_append, asked, next, hv, ih hx]

/-- With enough fuel there is no third way. -/
theorem evaluates_or_exits (h : all ev es s ≠ .outOfFuel) : (∃ vs t, Evaluates ev es s vs t) ∨
    ∃ before e after vs t x u, es = before ++ e :: after ∧ Evaluates ev before s vs t ∧
      ev e t = .exit x u := by
  induction es generalizing s with
  | nil => exact .inl ⟨[], s, .nil⟩
  | cons e es ih =>
    cases he : ev e s with
    | outOfFuel => exact absurd (by simp only [all, Run.bind_apply, he]) h
    | exit x u => exact .inr ⟨[], e, es, [], s, x, u, rfl, .nil, he⟩
    | done v t =>
      have rest : all ev es t ≠ .outOfFuel := fun ho =>
        h (by simp only [all, Run.bind_apply, he, ho])
      rcases ih rest with ⟨vs, u, hvs⟩ | ⟨before, y, after, vs, u, x, w, rfl, hvs, hx⟩
      · exact .inl ⟨v :: vs, u, .cons he hvs⟩
      · exact .inr ⟨e :: before, y, after, v :: vs, u, x, w, rfl, .cons he hvs, hx⟩

end Arguments

/-! ## Checks -/

/-- There are as many values as parameters, and each is admitted by the tag in its place. -/
def Fits (params : List (Tag × String)) (values : List Value) : Prop :=
  List.Forall₂ (fun p v => p.1.accepts v = true) params values

/-- The value at the index is the first that is not admitted by the tag in its place. -/
structure Misfits (params : List (Tag × String)) (values : List Value) (i : Nat) (tag : Tag)
    (v : Value) : Prop where
  tag_at : (params.map (·.1))[i]? = some tag
  value_at : values[i]? = some v
  refused : tag.accepts v = false
  least : ∀ j < i, ∀ tag' w, (params.map (·.1))[j]? = some tag' → values[j]? = some w →
    tag'.accepts w = true

section Checks

variable {params : List (Tag × String)} {p : Tag × String} {vs : List Value} {v w : Value}
  {tag : Tag} {i offset position : Nat} {name : String}

theorem Misfits.cons (h : Misfits params vs i tag w) (hp : p.1.accepts v = true) :
    Misfits (p :: params) (v :: vs) (i + 1) tag w where
  tag_at := h.tag_at
  value_at := h.value_at
  refused := h.refused
  least j hj tag' w' ht hw := by
    cases j with
    | zero =>
      obtain rfl : p.1 = tag' := Option.some.inj ht
      obtain rfl : v = w' := Option.some.inj hw
      exact hp
    | succ j => exact h.least j (Nat.lt_of_succ_lt_succ hj) tag' w' ht hw

theorem Misfits.of_cons (h : Misfits (p :: params) (v :: vs) (i + 1) tag w) :
    p.1.accepts v = true ∧ Misfits params vs i tag w :=
  ⟨h.least 0 (Nat.succ_pos i) p.1 v rfl rfl, h.tag_at, h.value_at, h.refused,
    fun j hj => h.least (j + 1) (Nat.succ_lt_succ hj)⟩

theorem fits_or_misfits (h : vs.length = params.length) :
    Fits params vs ∨ ∃ i tag v, Misfits params vs i tag v := by
  induction params generalizing vs with
  | nil =>
    obtain rfl := List.length_eq_zero_iff.mp h
    exact .inl .nil
  | cons p params ih =>
    obtain ⟨v, vs, rfl⟩ := List.exists_cons_of_length_eq_add_one h
    by_cases hp : p.1.accepts v = true
    · rcases ih (Nat.succ.inj h) with hfit | ⟨i, tag, w, hmis⟩
      · exact .inl (.cons hp hfit)
      · exact .inr ⟨i + 1, tag, w, hmis.cons hp⟩
    · exact .inr ⟨0, p.1, v, rfl, rfl, by simpa using hp, fun j hj => absurd hj (Nat.not_lt_zero j)⟩

theorem Fits.checkTags_eq (h : Fits params vs) :
    checkTags name offset position params vs = .ok () := by
  unfold Fits at h
  induction h generalizing position with
  | nil => rfl
  | cons hp _ ih => rw [checkTags, if_pos hp, ih]

/-- **The first value that does not fit is named**, with its place counted from the given one. -/
theorem Misfits.checkTags_eq (h : Misfits params vs i tag v) :
    checkTags name offset position params vs =
      .error (.argumentType name (position + i) tag v.kind offset) := by
  induction i generalizing params vs position with
  | zero =>
    match params, vs, h with
    | p :: params, w :: vs, h =>
      obtain rfl : p.1 = tag := Option.some.inj h.tag_at
      obtain rfl : w = v := Option.some.inj h.value_at
      rw [checkTags, if_neg (by simp [h.refused]), Nat.add_zero]
  | succ i ih =>
    match params, vs, h with
    | p :: params, w :: vs, h =>
      obtain ⟨hp, htail⟩ := h.of_cons
      rw [checkTags, if_pos hp, ih htail, Nat.add_assoc, Nat.add_comm 1 i]

variable {f : Function}

theorem checkArguments_of_count (h : vs.length ≠ f.params.length) :
    checkArguments f vs offset =
      .error (.argumentCount f.name f.params.length vs.length offset) := if_neg h

theorem Misfits.checkArguments_eq (hc : vs.length = f.params.length)
    (h : Misfits f.params vs i tag v) :
    checkArguments f vs offset = .error (.argumentType f.name (i + 1) tag v.kind offset) := by
  rw [checkArguments, if_pos hc, h.checkTags_eq, Nat.add_comm]

/-- **Arguments pass the checks exactly if they fit.** -/
theorem checkArguments_eq_ok : checkArguments f vs offset = .ok () ↔ Fits f.params vs := by
  constructor
  · intro h
    by_cases hc : vs.length = f.params.length
    · rcases fits_or_misfits hc with hfit | ⟨i, tag, v, hmis⟩
      · exact hfit
      · exact absurd (hmis.checkArguments_eq hc ▸ h) (by simp)
    · exact absurd (checkArguments_of_count hc ▸ h) (by simp)
  · intro h
    rw [checkArguments, if_pos (List.Forall₂.length_eq h).symm, h.checkTags_eq]

end Checks

/-! ## Refusals -/

/-- Why a call whose arguments gave the values in the frame runs nothing. -/
inductive Rejects (f : Frame) (name : String) (offset : Nat) (vs : List Value) : RunError → Prop
  | unknown : f.functions.get? name = none → Rejects f name offset vs (.unknownFunction name offset)
  | count {fn} : f.functions.get? name = some fn → vs.length ≠ fn.params.length →
    Rejects f name offset vs (.argumentCount fn.name fn.params.length vs.length offset)
  | type {fn i tag v} : f.functions.get? name = some fn → vs.length = fn.params.length →
    Misfits fn.params vs i tag v →
    Rejects f name offset vs (.argumentType fn.name (i + 1) tag v.kind offset)
  | tooDeep {fn body} : f.functions.get? name = some fn → Fits fn.params vs →
    fn.body = .program body → maxDepth ≤ f.depth →
    Rejects f name offset vs (.depthExceeded fn.name offset)

section Refusals

variable {ev : Expr → Run Value} {name : String} {offset : Nat} {vs : List Value} {t : State}
  {err : RunError} {fn : Function} {body : List Expr}

theorem Rejects.invoke_eq (h : Rejects t.frame name offset vs err) :
    invoke ev name offset vs t = .exit (.failed err) t := by
  cases h with
  | unknown hf => simp only [invoke, Run.bind_apply, Run.frame_apply, hf, Run.fail_apply]
  | count hf hc =>
    simp only [invoke, Run.bind_apply, Run.frame_apply, hf, checkArguments_of_count hc,
      Run.lift_error]
  | type hf hc hm =>
    simp only [invoke, Run.bind_apply, Run.frame_apply, hf, hm.checkArguments_eq hc, Run.lift_error]
  | tooDeep hf hfit hb hd =>
    simp only [invoke, Run.bind_apply, Run.frame_apply, hf, checkArguments_eq_ok.mpr hfit,
      Run.lift_ok, hb, apply, if_pos hd, Run.fail_apply]

theorem Rejects.askedCall_eq (h : Rejects t.frame name offset vs err) :
    askedCall ev name offset vs t = [] := by
  cases h with
  | unknown hf => simp only [askedCall, hf]
  | count hf hc => simp only [askedCall, hf, checkArguments_of_count hc, next, Run.lift_error]
  | type hf hc hm => simp only [askedCall, hf, hm.checkArguments_eq hc, next, Run.lift_error]
  | tooDeep hf hfit hb hd =>
    simp only [askedCall, hf, checkArguments_eq_ok.mpr hfit, next, Run.lift_ok, askedBody, hb,
      if_pos hd]

/-- Nothing stands against a call exactly if the function is there, takes the values and, if it is a
declared one, may be called once more. -/
theorem not_rejects_iff {f : Frame} : (∀ err, ¬ Rejects f name offset vs err) ↔
    ∃ fn, f.functions.get? name = some fn ∧ Fits fn.params vs ∧
      ∀ body, fn.body = .program body → f.depth < maxDepth := by
  constructor
  · intro h
    match hf : f.functions.get? name with
    | none => exact absurd (.unknown hf) (h _)
    | some fn =>
      have hc : vs.length = fn.params.length := by
        by_contra hc
        exact h _ (.count hf hc)
      have hfit : Fits fn.params vs := by
        rcases fits_or_misfits hc with hfit | ⟨i, tag, v, hmis⟩
        · exact hfit
        · exact absurd (.type hf hc hmis) (h _)
      refine ⟨fn, rfl, hfit, fun body hb => ?_⟩
      by_contra hd
      exact h _ (.tooDeep hf hfit hb (Nat.not_lt.mp hd))
  · rintro ⟨fn, hf, hfit, hd⟩ err hr
    have same {g : Function} (hg : f.functions.get? name = some g) : g = fn :=
      Option.some.inj (hg.symm.trans hf)
    cases hr with
    | unknown hg => exact absurd (hg.symm.trans hf) (by simp)
    | count hg hc =>
      obtain rfl := same hg
      exact hc (List.Forall₂.length_eq hfit).symm
    | type hg hc hmis =>
      obtain rfl := same hg
      have refused : checkArguments _ vs offset = .error _ := hmis.checkArguments_eq hc
      exact absurd (refused.symm.trans (checkArguments_eq_ok.mpr hfit)) (by simp)
    | tooDeep hg _ hb hdeep =>
      obtain rfl := same hg
      exact absurd (hd _ hb) (Nat.not_lt.mpr hdeep)

theorem invoke_native {native : Native} (hf : t.frame.functions.get? name = some fn)
    (hfit : Fits fn.params vs) (hb : fn.body = .native native) :
    invoke ev name offset vs t = Eval.native native vs t := by
  simp only [invoke, Run.bind_apply, Run.frame_apply, hf, checkArguments_eq_ok.mpr hfit,
    Run.lift_ok, hb]

theorem invoke_program (hf : t.frame.functions.get? name = some fn) (hfit : Fits fn.params vs)
    (hb : fn.body = .program body) (hd : t.frame.depth < maxDepth) :
    invoke ev name offset vs t =
      (block ev body { t with frame := t.frame.enter (fn.params.map (·.2)) vs }).returnTo
        t.frame := by
  simp only [invoke, Run.bind_apply, Run.frame_apply, hf, checkArguments_eq_ok.mpr hfit,
    Run.lift_ok, hb, apply, if_neg (Nat.not_le.mpr hd), Run.within]

end Refusals

end Eval

/-! ## Calls -/

namespace Expr

open Eval

variable {n : Nat} {name : String} {args before after : List Expr} {e : Expr} {offset : Nat}
  {vs : List Value} {s t u : State} {x : Exit}

theorem all_ne_outOfFuel (h : (call name args offset).eval (n + 1) s ≠ .outOfFuel) :
    all (eval n) args s ≠ .outOfFuel := fun ho =>
  h (by rw [eval_succ, step, call_eq, Run.bind_apply, ho])

theorem call_of_evaluates (h : Evaluates (eval n) args s vs t) :
    (call name args offset).eval (n + 1) s = invoke (eval n) name offset vs t := by
  rw [eval_succ, step, call_eq, Run.bind_apply, h.all_eq]

theorem call_of_exit (h : Evaluates (eval n) before s vs t) (hx : e.eval n t = .exit x u) :
    (call name (before ++ e :: after) offset).eval (n + 1) s = .exit x u := by
  rw [eval_succ, step, call_eq, Run.bind_apply, h.all_eq_exit hx]

theorem trace_call_of_exit (h : Evaluates (eval n) before s vs t) (hx : e.eval n t = .exit x u) :
    (call name (before ++ e :: after) offset).trace (n + 1) s =
      (n + 1, call name (before ++ e :: after) offset, s) ::
        (asked (eval n) before s ++ [(e, t)]).flatMap fun r => r.1.trace n r.2 := by
  rw [trace, asks, h.asked_eq hx, next, h.all_eq_exit hx, List.append_nil]

theorem trace_call_of_rejects {err : RunError} (h : Evaluates (eval n) args s vs t)
    (hr : Rejects t.frame name offset vs err) :
    (call name args offset).trace (n + 1) s = (n + 1, call name args offset, s) ::
      (asked (eval n) args s).flatMap fun r => r.1.trace n r.2 := by
  rw [trace, asks, next, h.all_eq]
  simp only [hr.askedCall_eq, List.append_nil]

/-- **Calls are checked before they act.**

Arguments are evaluated from left to right; if there is fuel, all of them give values, or one is the
first that leaves early.  That one ends the call just so: no later argument is evaluated, and no
statement of a function.  If all give values, the function is looked up where the last one was done.
If there is none of that name, if it takes another number of arguments, if its tags do not admit all
of the values, or if calls are nested too deep already, the call fails, with the first of these
reasons, in the very state the arguments left, and nothing else is evaluated.  Otherwise a native
function runs on just these values, or a declared one in a copy of the frame, one call deeper, with
its parameters bound to them.  However that ends, the frame is the one the arguments left. -/
theorem call_checked_before_run (n : Nat) (name : String) (args : List Expr) (offset : Nat)
    (s : State) :
    ((call name args offset).eval (n + 1) s ≠ .outOfFuel →
      (∃ vs t, Evaluates (eval n) args s vs t) ∨ ∃ before e after vs t x u,
        args = before ++ e :: after ∧ Evaluates (eval n) before s vs t ∧ e.eval n t = .exit x u) ∧
    (∀ before e after vs t x u, args = before ++ e :: after →
      Evaluates (eval n) before s vs t → e.eval n t = .exit x u →
      (call name args offset).eval (n + 1) s = .exit x u ∧
        (call name args offset).trace (n + 1) s = (n + 1, call name args offset, s) ::
          (asked (eval n) before s ++ [(e, t)]).flatMap fun r => r.1.trace n r.2) ∧
    ∀ vs t, Evaluates (eval n) args s vs t →
      (∀ err, Rejects t.frame name offset vs err →
        (call name args offset).eval (n + 1) s = .exit (.failed err) t ∧
          (call name args offset).trace (n + 1) s = (n + 1, call name args offset, s) ::
            (asked (eval n) args s).flatMap fun r => r.1.trace n r.2) ∧
      ((∀ err, ¬ Rejects t.frame name offset vs err) →
        ∃ fn, t.frame.functions.get? name = some fn ∧ Fits fn.params vs ∧
          ((∃ native, fn.body = .native native ∧
            (call name args offset).eval (n + 1) s = Eval.native native vs t) ∨
          ∃ body inner, fn.body = .program body ∧
            Frame.Bound { t.frame with depth := t.frame.depth + 1 } (fn.params.map (·.2)) vs inner ∧
            (call name args offset).eval (n + 1) s =
              (runBlock n body { t with frame := inner }).returnTo t.frame)) ∧
      ((call name args offset).eval (n + 1) s).Meets (fun _ u => u.frame = t.frame)
        fun _ u => u.frame = t.frame := by
  refine ⟨fun hfuel => evaluates_or_exits (all_ne_outOfFuel hfuel), ?_,
    fun vs t hvs => ⟨fun err hr => ?_, fun hno => ?_, ?_⟩⟩
  · rintro before e after vs t x u rfl hvs hx
    exact ⟨call_of_exit hvs hx, trace_call_of_exit hvs hx⟩
  · exact ⟨(call_of_evaluates hvs).trans hr.invoke_eq, trace_call_of_rejects hvs hr⟩
  · obtain ⟨fn, hf, hfit, hd⟩ := not_rejects_iff.mp hno
    refine ⟨fn, hf, hfit, ?_⟩
    rw [call_of_evaluates hvs]
    cases hb : fn.body with
    | native native => exact .inl ⟨native, rfl, invoke_native hf hfit hb⟩
    | program body =>
      exact .inr ⟨body, _, rfl, t.frame.bound_enter _ vs, invoke_program hf hfit hb (hd body hb)⟩
  · rw [call_of_evaluates hvs]
    exact frame_of_invoke (eval n) name offset vs t

/-! The first argument declares the function that is called, with two parameters of one name. -/

def declaringArgument : Expr :=
  .branch none (.numeral ⟨10, ['1']⟩)
    [.function "f" [⟨"b16", "x"⟩, ⟨"b16", "x"⟩] none [.ret (.var "x") 0]] none

def undeclared : State where
  frame := Frame.initial { text := [], filename := "", origin := "" }
  console := { feed := .script [] }

/-- The declared function: it gives back its last argument. -/
def lastOfTwo : Function where
  name := "f"
  params := [(.exactBase 16, "x"), (.exactBase 16, "x")]
  returns := none
  body := .program [.ret (.var "x") 0]

def declared : State := { undeclared with frame := undeclared.frame.declare lastOfTwo }

theorem declaringArgument_eval : declaringArgument.eval 2 undeclared = .done .unit declared := rfl

/-- A break in the second argument ends the call, and the third argument is not evaluated.  Without
it the call fails because of its first argument, which its function refuses.  On two values that fit
the second one is bound last. -/
theorem call_checked_before_run_declaring :
    ((call "f" [declaringArgument, breakTo none, call "f" [] 9] 0).eval 3 undeclared =
        .exit (.breakTo none) declared ∧
      (call "f" [declaringArgument, breakTo none, call "f" [] 9] 0).trace 3 undeclared =
        (3, call "f" [declaringArgument, breakTo none, call "f" [] 9] 0, undeclared) ::
          (declaringArgument.trace 2 undeclared ++ [(2, breakTo none, declared)])) ∧
    (call "f" [declaringArgument, .numeral ⟨10, ['7']⟩] 0).eval 3 undeclared =
      .exit (.failed (.argumentType "f" 1 (.exactBase 16) .unit 0)) declared ∧
    (call "f" [.numeral ⟨16, ['a']⟩, .numeral ⟨16, ['b']⟩] 0).eval 3 declared =
      .done (.numeral ⟨16, ['b']⟩) declared := by
  have one : Evaluates (eval 2) [declaringArgument] undeclared [.unit] declared :=
    .cons declaringArgument_eval .nil
  have two : Evaluates (eval 2) [declaringArgument, .numeral ⟨10, ['7']⟩] undeclared
      [.unit, .numeral ⟨10, ['7']⟩] declared := .cons declaringArgument_eval (.cons rfl .nil)
  have fit : Evaluates (eval 2) [.numeral ⟨16, ['a']⟩, .numeral ⟨16, ['b']⟩] declared
      [.numeral ⟨16, ['a']⟩, .numeral ⟨16, ['b']⟩] declared := .cons rfl (.cons rfl .nil)
  have known : declared.frame.functions.get? "f" = some lastOfTwo := rfl
  have refused : Rejects declared.frame "f" 0 [.unit, .numeral ⟨10, ['7']⟩]
      (.argumentType "f" 1 (.exactBase 16) .unit 0) :=
    .type (i := 0) (v := .unit) known rfl
      ⟨rfl, rfl, rfl, fun j hj => absurd hj (Nat.not_lt_zero j)⟩
  have taken : ∀ err, ¬ Rejects declared.frame "f" 0
      [.numeral ⟨16, ['a']⟩, .numeral ⟨16, ['b']⟩] err :=
    not_rejects_iff.mpr ⟨lastOfTwo, known, .cons rfl (.cons rfl .nil), fun _ _ => by decide⟩
  refine ⟨(call_checked_before_run 2 "f" _ 0 undeclared).2.1 [declaringArgument] (breakTo none)
    [call "f" [] 9] [.unit] declared (.breakTo none) declared rfl one rfl,
    (((call_checked_before_run 2 "f" _ 0 undeclared).2.2 _ declared two).1 _ refused).1, ?_⟩
  obtain ⟨fn, hfn, -, ⟨native, hnative, -⟩ | ⟨body, inner, hbody, hinner, heval⟩⟩ :=
    ((call_checked_before_run 2 "f" _ 0 declared).2.2 _ declared fit).2.1 taken
  all_goals obtain rfl : lastOfTwo = fn := Option.some.inj hfn
  · exact absurd hnative (by simp [lastOfTwo])
  · obtain rfl := Body.program.inj hbody
    have last : inner.vars.get? "x" = some (.numeral ⟨16, ['b']⟩) :=
      hinner.last 1 "x" _ rfl rfl fun j hj => by
        have : lastOfTwo.params.length ≤ j := hj
        simp [List.getElem?_eq_none this]
    rw [heval]
    simp [runBlock, block, eval_succ, step, Eval.ret, lookup, last, hinner.depth, Outcome.returnTo]

end Expr

end Radix
