import Radix.Proofs.Eval.Meets

/-!
# Proofs/Eval/Stays — computations that keep an invariant of the state

`x.Stays F I` says that a computation which begins in a state with `I` ends in one, whether it is
done or leaves early.  `F` is what follows if it runs out of fuel: with `True` nothing is said about
that, and with `False` it cannot happen.  There is one rule for each construct, so an invariant is
left with what it says of assignments, declarations, reports and calls.
-/

namespace Radix

variable {α β : Type} {F : Prop} {I : State → Prop}

namespace Outcome

/-- The invariant holds at the end, and `F` if there is none. -/
def Stays (F : Prop) (I : State → Prop) : Outcome α → Prop
  | .done _ s => I s
  | .exit _ s => I s
  | .outOfFuel => F

theorem Stays.meets {o : Outcome α} (h : o.Stays F I) : o.Meets (fun _ => I) fun _ => I :=
  match o, h with
  | .done _ _, h | .exit _ _, h => h
  | .outOfFuel, _ => trivial

theorem Stays.ne_outOfFuel {o : Outcome α} (h : o.Stays False I) : o ≠ .outOfFuel := by
  rintro rfl
  exact h

theorem Stays.recover {offset : Option Nat} {o : Outcome Value} (h : o.Stays F I)
    (report : ∀ s e k, I s → I (s.report e k)) : (o.recover offset).Stays F I := by
  match o, h with
  | .done _ _, h | .outOfFuel, h | .exit (.ret _) _, h | .exit (.breakTo _) _, h
  | .exit (.continueTo _) _, h => exact h
  | .exit (.failed e) s, h =>
    match offset with
    | none => exact h
    | some k =>
      rw [Outcome.recover]
      split
      · exact h
      · exact report s e (e.offset.getD k) h

theorem Stays.branch {label : Option String} {o : Outcome Unit} (h : o.Stays F I) :
    (o.branch label).Stays F I := by
  match o, h with
  | .done () _, h | .outOfFuel, h | .exit (.failed _) _, h | .exit (.ret _) _, h
  | .exit (.continueTo _) _, h | .exit (.breakTo none) _, h => exact h
  | .exit (.breakTo (some target)) s, h =>
    rw [Outcome.branch]
    split
    · exact h
    · exact h

theorem Stays.pass {label : Option String} {o : Outcome Unit} (h : o.Stays F I) :
    (o.pass label).Stays F I := by
  match o, h with
  | .done () _, h | .outOfFuel, h | .exit (.failed _) _, h | .exit (.ret _) _, h => exact h
  | .exit (.continueTo target) s, h =>
    rw [Outcome.pass]
    split
    · exact h
    · exact h
  | .exit (.breakTo target) s, h =>
    rw [Outcome.pass]
    split
    · exact h
    · exact h

/-- A call is back in its caller's frame, whatever the body did. -/
theorem Stays.returnTo {J : State → Prop} {caller : Frame} {o : Outcome Unit} (h : o.Stays F J)
    (back : ∀ t, J t → I { t with frame := caller }) : (o.returnTo caller).Stays F I := by
  match o, h with
  | .outOfFuel, h => exact h
  | .done () t, h | .exit (.ret _) t, h | .exit (.failed _) t, h | .exit (.breakTo _) t, h
  | .exit (.continueTo _) t, h => exact back t h

end Outcome

namespace Run

/-- The computation keeps the invariant, and `F` follows if it runs out of fuel. -/
def Stays (F : Prop) (I : State → Prop) (x : Run α) : Prop := ∀ s, I s → (x s).Stays F I

theorem stays_true (x : Run α) : x.Stays True fun _ => True := by
  intro s _
  match x s with
  | .done _ _ | .exit _ _ | .outOfFuel => trivial

theorem stays_pure (a : α) : (pure a : Run α).Stays F I := fun _ hs => hs

theorem stays_leave (x : Exit) : (leave x : Run α).Stays F I := fun _ hs => hs

theorem stays_lift (x : Except RunError α) : (lift x).Stays F I := by
  match x with
  | .ok a => exact stays_pure a
  | .error e => exact stays_leave (.failed e)

theorem Stays.bind {x : Run α} {f : α → Run β} (hx : x.Stays F I) (hf : ∀ a, (f a).Stays F I) :
    (x >>= f).Stays F I := by
  intro s hs
  have h := hx s hs
  rw [bind_apply]
  match x s, h with
  | .done a t, h => exact hf a t h
  | .exit _ _, h => exact h
  | .outOfFuel, h => exact h

/-- A computation that looks at the frame. -/
theorem stays_frame_bind {f : Frame → Run α} (h : ∀ s, I s → (f s.frame s).Stays F I) :
    (frame >>= f).Stays F I := fun s hs => h s hs

theorem stays_modifyFrame {f : Frame → Frame} (h : ∀ s, I s → I { s with frame := f s.frame }) :
    (modifyFrame f).Stays F I := h

theorem Stays.recover {x : Run Value} {offset : Option Nat} (hx : x.Stays F I)
    (report : ∀ s e k, I s → I (s.report e k)) : (recover offset x).Stays F I :=
  fun s hs => (hx s hs).recover report

theorem Stays.branch {x : Run Unit} {label : Option String} (hx : x.Stays F I) :
    (branch label x).Stays F I := fun s hs => (hx s hs).branch

theorem Stays.pass {x : Run Unit} {label : Option String} (hx : x.Stays F I) :
    (pass label x).Stays F I := fun s hs => (hx s hs).pass

/-- A loop keeps what each of its turns keeps, but it may run out of fuel. -/
theorem Stays.iterate {x : Run Bool} (hx : x.Stays True I) (n : Nat) :
    (iterate x n).Stays True I := by
  induction n with
  | zero => exact fun _ _ => trivial
  | succ n ih =>
    intro s hs
    have h := hx s hs
    rw [iterate_succ]
    match x s, h with
    | .done true t, h => exact ih t h
    | .done false _, h | .exit _ _, h => exact h
    | .outOfFuel, _ => trivial

end Run

namespace Eval

open Run

variable {ev : Expr → Run Value}

theorem stays_all {es : List Expr} (h : ∀ e ∈ es, (ev e).Stays F I) : (all ev es).Stays F I := by
  induction es with
  | nil => exact stays_pure []
  | cons e es ih =>
    obtain ⟨he, hes⟩ := List.forall_mem_cons.mp h
    exact he.bind fun v => (ih hes).bind fun vs => stays_pure (v :: vs)

theorem stays_block {es : List Expr} (h : ∀ e ∈ es, (ev e).Stays F I) :
    (block ev es).Stays F I := by
  induction es with
  | nil => exact stays_pure ()
  | cons e es ih =>
    obtain ⟨he, hes⟩ := List.forall_mem_cons.mp h
    exact he.bind fun _ => ih hes

theorem stays_shown {ps : List Template.Part} (h : ∀ e, .expr e ∈ ps → (ev e).Stays F I) :
    (shown ev ps).Stays F I := by
  induction ps with
  | nil => exact stays_pure ""
  | cons p ps ih =>
    have rest := ih fun e he => h e (List.mem_cons_of_mem p he)
    match p with
    | .chars cs => exact rest.bind fun s => stays_pure (String.ofList cs ++ s)
    | .expr e =>
      exact (h e List.mem_cons_self).bind fun v => rest.bind fun s => stays_pure (v.toText ++ s)

theorem stays_truth (v : Value) : (truth v).Stays F I := stays_lift _

theorem stays_text {quoted : QuotedText} {offset : Nat}
    (h : ∀ ps e, Template.parts quoted offset = .ok ps → .expr e ∈ ps → (ev e).Stays F I) :
    (text ev quoted offset).Stays F I := by
  unfold text
  match hp : Template.parts quoted offset with
  | .ok ps => exact (stays_shown fun e he => h ps e hp he).bind fun s => stays_pure (Value.text s)
  | .error e => exact stays_leave (.failed (.read e))

theorem stays_operation {op : Operator} {l r : Expr} (hl : (ev l).Stays F I)
    (hr : (ev r).Stays F I) : (operation ev op l r).Stays F I := by
  have second : (do let b ← ev r; return .ofBool (← truth b) : Run Value).Stays F I :=
    hr.bind fun b => (stays_truth b).bind fun c => stays_pure (Value.ofBool c)
  refine hl.bind fun a => ?_
  match op with
  | .and =>
    refine (stays_truth a).bind fun b => ?_
    match b with
    | true => exact second
    | false => exact stays_pure (Value.ofBool false)
  | .or =>
    refine (stays_truth a).bind fun b => ?_
    match b with
    | true => exact stays_pure (Value.ofBool true)
    | false => exact second
  | .add | .sub | .mul | .div | .eq | .strictEq | .ne | .strictNe | .lt | .le | .gt | .ge =>
    exact hr.bind fun b => stays_lift _

theorem stays_conditional {label : Option String} {c : Expr} {yes : List Expr}
    {no : Option (List Expr)} (hc : (ev c).Stays F I) (hy : ∀ e ∈ yes, (ev e).Stays F I)
    (hn : ∀ e ∈ no.getD [], (ev e).Stays F I) : (conditional ev label c yes no).Stays F I := by
  refine hc.bind fun v => (stays_truth v).bind fun b => ?_
  match b with
  | true => exact (stays_block hy).branch
  | false => exact (stays_block hn).branch

theorem stays_turn {label : Option String} {c : Expr} {body : List Expr} (hc : (ev c).Stays F I)
    (hb : ∀ e ∈ body, (ev e).Stays F I) : (turn ev label c body).Stays F I := by
  refine hc.bind fun v => (stays_truth v).bind fun b => ?_
  match b with
  | true => exact (stays_block hb).pass
  | false => exact stays_pure false

theorem stays_lookup (name : String) : (lookup name).Stays F I := by
  refine stays_frame_bind fun s hs => ?_
  match s.frame.vars.get? name with
  | some _ | none => exact hs

theorem stays_assign {name : String} {value : Expr} (hv : (ev value).Stays F I)
    (bind : ∀ s v, I s → I { s with frame := s.frame.bind name v }) :
    (assign ev name value).Stays F I :=
  hv.bind fun v => (stays_modifyFrame fun s => bind s v).bind fun _ => stays_pure Value.unit

theorem stays_ret {e : Expr} (he : (ev e).Stays F I) : (ret ev e).Stays F I := by
  refine he.bind fun v => stays_frame_bind fun s hs => ?_
  split
  · exact hs
  · exact hs

theorem stays_declare {name : String} {params : List Param} {returns : Option String}
    {body : List Expr} (declare : ∀ s tags, I s →
      I { s with frame := s.frame.declare ⟨name, tags, returns, .program body⟩ }) :
    (Eval.declare name params returns body).Stays F I :=
  (stays_lift _).bind fun tags =>
    (stays_modifyFrame fun s => declare s tags).bind fun _ => stays_pure Value.unit

/-- A native function changes nothing but the console. -/
theorem stays_native {n : Native} {values : List Value}
    (console : ∀ s c, I s → I { s with console := c }) : (native n values).Stays F I := by
  intro s hs
  unfold native
  match n.run values s.frame s.console with
  | (.ok _, c) | (.error _, c) => exact console s c hs

/-- What a call does with the values of its arguments. -/
def invoke (ev : Expr → Run Value) (name : String) (offset : Nat) (values : List Value) :
    Run Value := do
  let frame ← Run.frame
  match frame.functions.get? name with
  | none => Run.fail (.unknownFunction name offset)
  | some f =>
    Run.lift (checkArguments f values offset)
    match f.body with
    | .native n => native n values
    | .program body => apply ev f body values offset

theorem call_eq (ev : Expr → Run Value) (name : String) (args : List Expr) (offset : Nat) :
    call ev name args offset = (do
      let values ← all ev args
      invoke ev name offset values) := rfl

/-- A call keeps what does not depend on the console, if the body of a function, run in its own
frame, keeps some invariant of its own. -/
theorem stays_invoke {name : String} {offset : Nat} {vs : List Value}
    (console : ∀ s c, I s → I { s with console := c })
    (body : ∀ s f es, I s → s.frame.functions.get? name = some f → f.body = .program es →
      s.frame.depth < maxDepth → ∃ J : State → Prop,
        J { s with frame := s.frame.enter (f.params.map (·.2)) vs } ∧
          ∀ e ∈ es, (ev e).Stays F J) :
    (invoke ev name offset vs).Stays F I := by
  refine stays_frame_bind fun s hs => ?_
  match hf : s.frame.functions.get? name with
  | none => exact hs
  | some f =>
    dsimp only
    rw [bind_apply]
    match checkArguments f vs offset with
    | .error _ => exact hs
    | .ok () =>
      rw [lift_ok]
      dsimp only
      match hb : f.body with
      | .native n => exact stays_native console s hs
      | .program es =>
        dsimp only
        rw [apply, bind_apply, frame_apply]
        dsimp only
        split
        · exact hs
        · next hdepth =>
          obtain ⟨J, hJ, hes⟩ := body s f es hs hf hb (by omega)
          exact (stays_block hes _ hJ).returnTo fun t _ => console s t.console hs

end Eval

end Radix
