import Radix.Eval.Fuel
import Radix.Proofs.Scope

/-!
# Proofs/Termination — programs without loops end

Functions may call themselves and each other, and declare others while they run, so without loops it
is the limit on nested calls alone that ends an evaluation.  `Expr.Nests k e` says that evaluating
`e`, calls apart, nests at most `k` deep.  Inside `d` calls of the `maxDepth` that are allowed, and
if no function body nests deeper than `bound`, the fuel `(maxDepth - d) * bound + k` is enough for
`e` (`Expr.eval_endsOn`): each call costs one of the calls that are left and nests no deeper than
`bound`.
-/

namespace Radix

/-! ## Loops -/

/-- Is the expression a loop? -/
def Expr.isLoop : Expr → Bool
  | .whileLoop _ _ _ | .loop _ _ => true
  | _ => false

/-- There is no loop in the expression. -/
def Expr.LoopFree (e : Expr) : Prop := e.Everywhere (·.isLoop = false)

/-- There is no loop in the functions in sight. -/
def Frame.LoopFree (f : Frame) : Prop :=
  ∀ name fn es, f.functions.get? name = some fn → fn.body = .program es → ∀ e ∈ es, e.LoopFree

/-- Where there is no block, there is no loop. -/
theorem Expr.Flat.loopFree {e : Expr} (h : e.Flat) : e.LoopFree := by
  refine h.mono fun y hy => ?_
  match y with
  | .whileLoop _ _ _ | .loop _ _ => exact nomatch hy
  | .numeral _ | .text _ _ | .var _ | .assign _ _ | .binary _ _ _ _ | .call _ _ _ | .ret _ _
  | .branch _ _ _ _ | .breakTo _ | .continueTo _ | .function _ _ _ _ => rfl

/-! ## Nesting -/

/-- The parts of the expression, and the expressions in its interpolations, are nested at most `n`
deep. -/
inductive Expr.Nests : Nat → Expr → Prop
  | intro {n e} : (∀ x ∈ e.parts, Nests n x) → (∀ q o ps x, e = .text q o →
    Template.parts q o = .ok ps → .expr x ∈ ps → Nests n x) → Nests (n + 1) e

theorem Expr.Nests.mono {m n : Nat} {e : Expr} (h : e.Nests m) (hmn : m ≤ n) : e.Nests n := by
  induction h generalizing n with
  | intro _ _ ih ih' =>
    obtain ⟨n, rfl⟩ : ∃ k, n = k + 1 := ⟨n - 1, by omega⟩
    exact .intro (fun x hx => ih x hx (by omega)) fun q o ps x he hp hx =>
      ih' q o ps x he hp hx (by omega)

theorem Expr.Nests.part {n : Nat} {e x : Expr} (h : e.Nests (n + 1)) (hx : x ∈ e.parts) :
    x.Nests n := by
  cases h with
  | intro hparts _ => exact hparts x hx

theorem Expr.Nests.interpolation {n : Nat} {q : QuotedText} {o : Nat} {ps : List Template.Part}
    {x : Expr} (h : (Expr.text q o).Nests (n + 1)) (hp : Template.parts q o = .ok ps)
    (hx : .expr x ∈ ps) : x.Nests n := by
  cases h with
  | intro _ htexts => exact htexts q o ps x rfl hp hx

/-- Bounds for the members of a list give a common one. -/
theorem exists_common_bound {α : Type} {P : Nat → α → Prop}
    (mono : ∀ m n a, m ≤ n → P m a → P n a) (xs : List α) (h : ∀ x ∈ xs, ∃ n, P n x) :
    ∃ n, ∀ x ∈ xs, P n x := by
  induction xs with
  | nil => exact ⟨0, nofun⟩
  | cons x xs ih =>
    obtain ⟨⟨m, hm⟩, hxs⟩ := List.forall_mem_cons.mp h
    obtain ⟨n, hn⟩ := ih hxs
    exact ⟨max m n, List.forall_mem_cons.mpr
      ⟨mono m _ x (Nat.le_max_left m n) hm, fun y hy => mono n _ y (Nat.le_max_right m n) (hn y hy)⟩⟩

theorem nests_all (es : List Expr) (h : ∀ e ∈ es, ∃ n, e.Nests n) : ∃ n, ∀ e ∈ es, e.Nests n :=
  exists_common_bound (fun _ _ _ hmn h => h.mono hmn) es h

/-- **Every expression is nested only so deep.** -/
theorem Expr.exists_nests (e : Expr) : ∃ n, e.Nests n := by
  induction e using interpolation_induction with
  | step e ih ih' =>
    obtain ⟨m, hm⟩ := nests_all e.parts ih
    have texts : ∃ n, ∀ q o ps x, e = .text q o → Template.parts q o = .ok ps → .expr x ∈ ps →
        x.Nests n := by
      by_cases he : ∃ q o ps, e = .text q o ∧ Template.parts q o = .ok ps
      · obtain ⟨q, o, ps, rfl, hp⟩ := he
        obtain ⟨n, hn⟩ := exists_common_bound (P := fun n p => ∀ x, p = .expr x → x.Nests n)
          (fun _ _ _ hmn h x hx => (h x hx).mono hmn) ps fun p hmem => by
            match p with
            | .chars _ => exact ⟨0, nofun⟩
            | .expr x =>
              obtain ⟨n, hn⟩ := ih' q o ps x rfl hp hmem
              exact ⟨n, fun y hy => Template.Part.expr.inj hy ▸ hn⟩
        refine ⟨n, fun q' o' ps' x he hp' hx => hn _ ?_ x rfl⟩
        obtain ⟨rfl, rfl⟩ := Expr.text.inj he
        rwa [Except.ok.inj (hp.symm.trans hp')]
      · exact ⟨0, fun q o ps x heq hp _ => absurd ⟨q, o, ps, heq, hp⟩ he⟩
    obtain ⟨n, hn⟩ := texts
    exact ⟨max m n + 1, .intro (fun x hx => (hm x hx).mono (Nat.le_max_left m n))
      fun q o ps x he hp hx => (hn q o ps x he hp hx).mono (Nat.le_max_right m n)⟩

/-- So are the bodies of all functions in sight. -/
theorem Frame.exists_nests (f : Frame) : ∃ n, ∀ name fn es, f.functions.get? name = some fn →
    fn.body = .program es → ∀ e ∈ es, e.Nests n := by
  obtain ⟨n, hn⟩ := exists_common_bound
    (P := fun n fn => ∀ es, fn.body = .program es → ∀ e ∈ es, e.Nests n)
    (fun _ _ _ hmn h es hb e he => (h es hb e he).mono hmn) f.functions.values fun fn _ => by
      match hb : fn.body with
      | .native _ => exact ⟨0, nofun⟩
      | .program es =>
        obtain ⟨n, hn⟩ := nests_all es fun e _ => e.exists_nests
        exact ⟨n, fun es' he => Body.program.inj he ▸ hn⟩
  exact ⟨n, fun name fn es hf => hn fn (Table.mem_values_of_get? hf) es⟩

/-! ## Evaluations -/

open Run Eval

/-- The state stands inside `d` calls, and the functions in sight have no loops and nest at most
`bound` deep. -/
structure State.Bounded (bound d : Nat) (s : State) : Prop where
  depth : s.frame.depth = d
  bodies : ∀ name fn es, s.frame.functions.get? name = some fn → fn.body = .program es →
    ∀ e ∈ es, e.LoopFree ∧ e.Nests bound

variable {bound d : Nat}

theorem State.Bounded.enter {s : State} (h : s.Bounded bound d) (params : List String)
    (values : List Value) :
    State.Bounded bound (d + 1) { s with frame := s.frame.enter params values } where
  depth := (s.frame.bound_enter params values).depth.trans (congrArg (· + 1) h.depth)
  bodies name fn es hf := h.bodies name fn es (by
    rwa [(s.frame.bound_enter params values).functions] at hf)

theorem State.Bounded.declare {s : State} (h : s.Bounded bound d) {name : String}
    {tags : List (Tag × String)} {returns : Option String} {body : List Expr}
    (hbody : ∀ e ∈ body, e.LoopFree ∧ e.Nests bound) :
    State.Bounded bound d
      { s with frame := s.frame.declare ⟨name, tags, returns, .program body⟩ } where
  depth := h.depth
  bodies k fn es hf hb := by
    rcases Frame.eq_or_get?_of_declare hf with rfl | hf
    · obtain rfl := Body.program.inj hb
      exact hbody
    · exact h.bodies k fn es hf hb

section Step

variable {n k : Nat} {ev : Expr → Run Value}

/-- The evaluator ends on what nests at most `k` deep, if it is asked inside `d` calls. -/
def EndsOn (bound d k : Nat) (ev : Expr → Run Value) : Prop :=
  ∀ e : Expr, e.LoopFree → e.Nests k → (ev e).Stays False (State.Bounded bound d)

/-- If the evaluator for the parts ends on them, and on function bodies inside one more call, the
evaluation of an expression ends. -/
theorem step_ends (hparts : EndsOn bound d k ev)
    (hbody : d < maxDepth → EndsOn bound (d + 1) bound ev) (hbound : k ≤ bound) (turns : Nat) :
    EndsOn bound d (k + 1) (step turns ev) := by
  intro e hfree hnests
  have part : ∀ x ∈ e.parts, (ev x).Stays False (State.Bounded bound d) :=
    fun x hx => hparts x (hfree.part hx) (hnests.part hx)
  cases e with
  | numeral x => exact stays_pure (Value.numeral x)
  | text q o =>
    exact stays_text fun ps x hp hx =>
      hparts x (Template.flat_of_parts hp hx).loopFree (hnests.interpolation hp hx)
  | var name => exact stays_lookup name
  | assign name value =>
    exact stays_assign (part value (by simp [Expr.parts])) fun _ _ hs => ⟨hs.depth, hs.bodies⟩
  | binary op l r offset =>
    refine (stays_operation (part l ?_) (part r ?_)).recover fun _ _ _ hs => ⟨hs.depth, hs.bodies⟩
    · simp [Expr.parts]
    · simp [Expr.parts]
  | call name args offset =>
    refine (stays_all part).bind fun vs => stays_invoke (fun _ _ hs => ⟨hs.depth, hs.bodies⟩) ?_
    intro s f es hs hf hb hdepth
    refine ⟨State.Bounded bound (d + 1), hs.enter _ vs, fun x hx => ?_⟩
    obtain ⟨hfree, hnests⟩ := hs.bodies name f es hf hb x hx
    exact hbody (hs.depth ▸ hdepth) x hfree hnests
  | ret value _ => exact stays_ret (part value (by simp [Expr.parts]))
  | branch label c yes no =>
    refine stays_conditional (part c ?_) (fun x hx => part x ?_) fun x hx => part x ?_
    · simp [Expr.parts]
    · simp [Expr.parts, hx]
    · simp [Expr.parts, hx]
  | whileLoop | loop => exact absurd hfree.self (by simp [Expr.isLoop])
  | breakTo label => exact stays_leave (.breakTo label)
  | continueTo label => exact stays_leave (.continueTo label)
  | function name params returns body =>
    exact stays_declare fun s tags hs => hs.declare fun x hx =>
      ⟨hfree.part hx, (hnests.part hx).mono hbound⟩

end Step

/-- **Without loops so much fuel is enough.** -/
theorem Expr.eval_endsOn {n k : Nat} (hbound : k ≤ bound)
    (hn : (maxDepth - d) * bound + k ≤ n) : EndsOn bound d k (Expr.eval n) := by
  induction n generalizing d k with
  | zero =>
    intro e _ hnests
    cases hnests with
    | intro => omega
  | succ n ih =>
    match k with
    | 0 => exact fun e _ hnests => nomatch hnests
    | k + 1 =>
      refine step_ends (ih (by omega) (by omega)) (fun hdepth => ih (Nat.le_refl _) ?_)
        (by omega) n
      -- One call is used up, and its body has `bound` of the fuel for itself.
      obtain ⟨r, hr⟩ : ∃ r, maxDepth - d = r + 1 := ⟨maxDepth - d - 1, by omega⟩
      rw [hr, Nat.succ_mul] at hn
      rw [show maxDepth - (d + 1) = r by omega]
      omega

/-- **An expression without loops ends, if the functions in sight have none.**  There is an amount
of fuel with which its evaluation gives a result, a jump or a failure, and more fuel gives the
same. -/
theorem Expr.ends_of_loopFree {e : Expr} {s : State} (he : e.LoopFree) (hs : s.frame.LoopFree) :
    ∃ n o, o ≠ .outOfFuel ∧ ∀ m, n ≤ m → e.eval m s = o := by
  obtain ⟨k, hk⟩ := e.exists_nests
  obtain ⟨b, hb⟩ := s.frame.exists_nests
  have hbodies : ∀ name fn es, s.frame.functions.get? name = some fn → fn.body = .program es →
      ∀ x ∈ es, x.LoopFree ∧ x.Nests (max k b) := fun name fn es hf hbody x hx =>
    ⟨hs name fn es hf hbody x hx, (hb name fn es hf hbody x hx).mono (Nat.le_max_right k b)⟩
  have hends := eval_endsOn (Nat.le_max_left k b) (Nat.le_refl _) e he hk s ⟨rfl, hbodies⟩
  exact ⟨_, _, hends.ne_outOfFuel, fun m hm => e.eval_extends hm s hends.ne_outOfFuel⟩

/-! A function that does nothing but call itself. -/

def endlessCall : Expr := .call "again" [] 0

def againState : State where
  frame := (Frame.initial ⟨[], "", ""⟩).declare ⟨"again", [], none, .program [endlessCall]⟩
  console := { feed := .script [] }

theorem endlessCall_loopFree : endlessCall.LoopFree := .intro rfl nofun

theorem againState_loopFree : againState.frame.LoopFree := by
  intro name fn es hf hb
  rcases Frame.eq_or_get?_of_declare hf with rfl | hf
  · obtain rfl := Body.program.inj hb
    simpa using endlessCall_loopFree
  · exact absurd hb (Frame.body_of_get?_initial hf)

theorem endlessCall_ends :
    (endlessCall.LoopFree ∧ againState.frame.LoopFree) ∧
      ∃ n o, o ≠ .outOfFuel ∧ ∀ m, n ≤ m → endlessCall.eval m againState = o :=
  ⟨⟨endlessCall_loopFree, againState_loopFree⟩,
    Expr.ends_of_loopFree endlessCall_loopFree againState_loopFree⟩

end Radix
