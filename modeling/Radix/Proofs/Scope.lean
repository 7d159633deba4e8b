import Radix.Proofs.Eval.Extends
import Radix.Proofs.Eval.Stays
import Radix.Proofs.Template.Flat

/-!
# Proofs/Scope — what an evaluation can change

An expression assigns the variables of the assignments that stand in it, and in the interpolations
of its texts, and it declares the functions of the declarations that stand in it.  The bodies of
declared functions do not count: they run in calls, and a call works on a copy of its caller's frame
in which the parameters are bound (`Frame.bound_enter`).  However an evaluation ends, nothing else in
the frame is changed, and nothing is taken out of it (`Expr.eval_framed`).
-/

namespace Radix

/-! ## Assignments and declarations -/

namespace Expr

/-- The expressions that stand directly inside and are evaluated along with it: the body of a
declared function is not. -/
def within : Expr → List Expr
  | .function _ _ _ _ => []
  | e => e.parts

/-- The expression may assign the variable: an assignment to it stands in the expression or in an
interpolation of one of its texts. -/
inductive Assigns : Expr → String → Prop
  | assign {x e} : Assigns (.assign x e) x
  | inside {e y x} : y ∈ e.within → Assigns y x → Assigns e x
  | text {q o ps e x} : Template.parts q o = .ok ps → .expr e ∈ ps → Assigns e x →
    Assigns (.text q o) x

/-- The expression may declare the function: a declaration of it stands in the expression. -/
inductive Declares : Expr → String → Prop
  | function {f params returns body} : Declares (.function f params returns body) f
  | inside {e y f} : y ∈ e.within → Declares y f → Declares e f

theorem parts_of_within {e y : Expr} (h : y ∈ e.within) : y ∈ e.parts := by
  match e with
  | .function _ _ _ _ => exact absurd h List.not_mem_nil
  | .numeral _ | .text _ _ | .var _ | .assign _ _ | .binary _ _ _ _ | .call _ _ _ | .ret _ _
  | .branch _ _ _ _ | .whileLoop _ _ _ | .loop _ _ | .breakTo _ | .continueTo _ => exact h

/-- Where there is no block, nothing is declared. -/
theorem Flat.not_declares {e : Expr} (h : e.Flat) (f : String) : ¬ e.Declares f := by
  intro hd
  induction hd with
  | function => exact nomatch h.self
  | inside hy _ ih => exact ih (h.part (parts_of_within hy))

end Expr

/-! ## Frames -/

/-- The second frame is the first one, up to the variables in `A` and the functions in `D`, and has
all of its names. -/
structure Frame.Within (A D : String → Prop) (f g : Frame) : Prop where
  depth : g.depth = f.depth
  source : g.source = f.source
  bound : ∀ x, (f.vars.get? x).isSome → (g.vars.get? x).isSome
  declared : ∀ x, (f.functions.get? x).isSome → (g.functions.get? x).isSome
  vars : ∀ x, ¬ A x → g.vars.get? x = f.vars.get? x
  functions : ∀ x, ¬ D x → g.functions.get? x = f.functions.get? x

namespace Frame

variable {A D : String → Prop} {f g h : Frame}

theorem Within.refl (f : Frame) : f.Within A D f where
  depth := rfl
  source := rfl
  bound _ hx := hx
  declared _ hx := hx
  vars _ _ := rfl
  functions _ _ := rfl

theorem Within.trans (hfg : f.Within A D g) (hgh : g.Within A D h) : f.Within A D h where
  depth := hgh.depth.trans hfg.depth
  source := hgh.source.trans hfg.source
  bound x hx := hgh.bound x (hfg.bound x hx)
  declared x hx := hgh.declared x (hfg.declared x hx)
  vars x hx := (hgh.vars x hx).trans (hfg.vars x hx)
  functions x hx := (hgh.functions x hx).trans (hfg.functions x hx)

/-- The names of a table are still there after an insertion. -/
theorem get?_insert_isSome {α : Type} (t : Table α) (x : String) (a : α) {y : String}
    (hy : (t.get? y).isSome) : ((t.insert x a).get? y).isSome := by
  rw [Table.get?_insert]
  split
  · rfl
  · exact hy

theorem within_bind {x : String} (hx : A x) (f : Frame) (v : Value) :
    f.Within A D (f.bind x v) where
  depth := rfl
  source := rfl
  bound _ hy := get?_insert_isSome f.vars x v hy
  declared _ hy := hy
  vars y hy := Table.get?_insert_of_ne f.vars (fun he : y = x => hy (he ▸ hx)) v
  functions _ _ := rfl

theorem within_declare {fn : Function} (hfn : D fn.name) (f : Frame) :
    f.Within A D (f.declare fn) where
  depth := rfl
  source := rfl
  bound _ hy := hy
  declared _ hy := get?_insert_isSome f.functions fn.name fn hy
  vars _ _ := rfl
  functions y hy := Table.get?_insert_of_ne f.functions (fun he : y = fn.name => hy (he ▸ hfn)) fn

/-- The second frame is the first one with the parameters bound to the values, the later ones over
the earlier ones. -/
structure Bound (f : Frame) (params : List String) (values : List Value) (g : Frame) :
    Prop where
  depth : g.depth = f.depth
  source : g.source = f.source
  functions : g.functions = f.functions
  last : ∀ (i : Nat) x v, params[i]? = some x → values[i]? = some v →
    (∀ j, i < j → params[j]? ≠ some x) → g.vars.get? x = some v
  rest : ∀ x ∉ params, g.vars.get? x = f.vars.get? x

theorem bound_foldl (f : Frame) (params : List String) (values : List Value) :
    f.Bound params values ((params.zip values).foldl (fun f p => f.bind p.1 p.2) f) := by
  induction params generalizing values f with
  | nil => exact ⟨rfl, rfl, rfl, fun i _ _ hx => absurd hx (by simp), fun _ _ => rfl⟩
  | cons p params ih =>
    cases values with
    | nil => exact ⟨rfl, rfl, rfl, fun i _ _ _ hv => absurd hv (by simp), fun _ _ => rfl⟩
    | cons v values =>
      have h := ih (f.bind p v) values
      refine ⟨h.depth, h.source, h.functions, fun i x w hx hw hlast => ?_, fun x hx => ?_⟩
      · cases i with
        | zero =>
          obtain rfl : p = x := Option.some.inj hx
          obtain rfl : v = w := Option.some.inj hw
          have hp : p ∉ params := fun hm => by
            obtain ⟨j, hj⟩ := List.mem_iff_getElem?.mp hm
            exact hlast (j + 1) (Nat.succ_pos j) hj
          exact (h.rest p hp).trans (Table.get?_insert_self f.vars p v)
        | succ i => exact h.last i x w hx hw fun j hj => hlast (j + 1) (Nat.succ_lt_succ hj)
      · exact (h.rest x (List.not_mem_of_not_mem_cons hx)).trans
          (Table.get?_insert_of_ne f.vars (List.ne_of_not_mem_cons hx) v)

/-- **Where the body of a function starts.** -/
theorem bound_enter (f : Frame) (params : List String) (values : List Value) :
    Bound { f with depth := f.depth + 1 } params values (f.enter params values) :=
  bound_foldl _ params values

end Frame

/-! ## Evaluations -/

open Run Eval

/-- Whatever an expression may assign is in `A`, and whatever it may declare in `D`. -/
structure Expr.Touches (A D : String → Prop) (e : Expr) : Prop where
  assigns : ∀ x, e.Assigns x → A x
  declares : ∀ f, e.Declares f → D f

section Step

variable {A D : String → Prop}

theorem Expr.Touches.inside {e y : Expr} (h : e.Touches A D) (hy : y ∈ e.within) :
    y.Touches A D where
  assigns x hx := h.assigns x (.inside hy hx)
  declares f hf := h.declares f (.inside hy hf)

/-- A text assigns what its interpolations assign, and they declare nothing. -/
theorem Expr.Touches.interpolation {q : QuotedText} {o : Nat} {ps : List Template.Part} {e : Expr}
    (h : (Expr.text q o).Touches A D) (hp : Template.parts q o = .ok ps) (he : .expr e ∈ ps) :
    e.Touches A D where
  assigns x hx := h.assigns x (.text hp he hx)
  declares f hf := absurd hf ((Template.flat_of_parts hp he).not_declares f)

/-- The frame of the state is the given one, up to the variables in `A` and the functions in `D`. -/
def Frame.Covers (f : Frame) (A D : String → Prop) (s : State) : Prop := f.Within A D s.frame

/-- If the parts of an expression change only what they touch, the expression does. -/
theorem step_stays {f : Frame} {ev : Expr → Run Value}
    (h : ∀ e : Expr, e.Touches A D → (ev e).Stays True (f.Covers A D)) (turns : Nat) (e : Expr)
    (he : e.Touches A D) : (step turns ev e).Stays True (f.Covers A D) := by
  have inside : ∀ y ∈ e.within, (ev y).Stays True (f.Covers A D) := fun y hy => h y (he.inside hy)
  match e with
  | .numeral x => exact stays_pure (Value.numeral x)
  | .text q o => exact stays_text fun ps y hp hy => h y (he.interpolation hp hy)
  | .var name => exact stays_lookup name
  | .assign name value =>
    refine stays_assign (inside value ?_) fun s v hs => hs.trans ?_
    · simp [Expr.within, Expr.parts]
    · exact Frame.within_bind (he.assigns name .assign) s.frame v
  | .binary op l r offset =>
    refine (stays_operation (inside l ?_) (inside r ?_)).recover fun _ _ _ hs => hs
    · simp [Expr.within, Expr.parts]
    · simp [Expr.within, Expr.parts]
  | .call name args offset =>
    -- The body of a function may do what it likes: it works on its own frame.
    refine (stays_all inside).bind fun vs => stays_invoke (fun _ _ hs => hs) ?_
    exact fun _ _ _ _ _ _ _ => ⟨fun _ => True, trivial, fun y _ => stays_true (ev y)⟩
  | .ret value _ => exact stays_ret (inside value (by simp [Expr.within, Expr.parts]))
  | .branch label c yes no =>
    refine stays_conditional (inside c ?_) (fun y hy => inside y ?_) fun y hy => inside y ?_
    · simp [Expr.within, Expr.parts]
    · simp [Expr.within, Expr.parts, hy]
    · simp [Expr.within, Expr.parts, hy]
  | .whileLoop label c body =>
    refine Stays.iterate (stays_turn (inside c ?_) fun y hy => inside y ?_) turns
    · simp [Expr.within, Expr.parts]
    · simp [Expr.within, Expr.parts, hy]
  | .loop label body => exact Stays.iterate (stays_block inside).pass turns
  | .breakTo label => exact stays_leave (.breakTo label)
  | .continueTo label => exact stays_leave (.continueTo label)
  | .function name params returns body =>
    exact stays_declare fun s tags hs =>
      hs.trans (Frame.within_declare (he.declares name .function) s.frame)

theorem Expr.eval_stays (f : Frame) (n : Nat) (e : Expr) (he : e.Touches A D) :
    (e.eval n).Stays True (f.Covers A D) := by
  induction n generalizing e with
  | zero => exact fun _ _ => trivial
  | succ n ih => exact step_stays ih n e he

end Step

/-- The second state is the first one, up to what the expression may assign and declare, and with
more written, reported and read on the console. -/
structure Expr.Framed (e : Expr) (s t : State) : Prop where
  frame : s.frame.Within e.Assigns e.Declares t.frame
  console : s.console.Extends t.console

theorem Expr.framed_of_eval (n : Nat) (e : Expr) (s : State) :
    (e.eval n s).Meets (fun _ => e.Framed s) fun _ => e.Framed s := by
  have hf := e.eval_stays s.frame n ⟨fun _ hx => hx, fun _ hf => hf⟩ s (.refl _)
  have hc := e.eval_extends_console n s
  match e.eval n s, hf, hc with
  | .done _ _, hf, hc | .exit _ _, hf, hc => exact ⟨hf, hc⟩
  | .outOfFuel, _, _ => trivial

/-- **A call leaves its caller's frame alone**, once its arguments are evaluated. -/
theorem frame_of_invoke (ev : Expr → Run Value) (name : String) (offset : Nat)
    (vs : List Value) (s : State) : (invoke ev name offset vs s).Meets
      (fun _ t => t.frame = s.frame) fun _ t => t.frame = s.frame := by
  refine Outcome.Stays.meets (F := True) (stays_invoke (I := (·.frame = s.frame)) ?_ ?_ s rfl)
  · exact fun _ _ ht => ht
  · exact fun _ _ _ _ _ _ _ => ⟨fun _ => True, trivial, fun y _ => stays_true (ev y)⟩

/-- **What an evaluation can change.**  However it ends, the frame is the one at its start, up to the
variables that the expression may assign and the functions that it may declare; no name is taken out
of it; and the console is only extended.  A call gives back the very frame in which its arguments
were evaluated. -/
theorem Expr.eval_framed (n : Nat) (s : State) :
    (∀ e : Expr, (e.eval n s).Meets (fun _ => e.Framed s) fun _ => e.Framed s) ∧
    ∀ name args offset, (Eval.all (Expr.eval n) args s).Meets
      (fun _ t => ((Expr.call name args offset).eval (n + 1) s).Meets
        (fun _ u => u.frame = t.frame) fun _ u => u.frame = t.frame)
      fun x t => (Expr.call name args offset).eval (n + 1) s = .exit x t := by
  refine ⟨fun e => e.framed_of_eval n s, fun name args offset => ?_⟩
  rw [Expr.eval_succ, step, call_eq, bind_apply]
  match all (Expr.eval n) args s with
  | .done values t => exact frame_of_invoke (Expr.eval n) name offset values t
  | .exit x t => exact rfl
  | .outOfFuel => trivial

end Radix
