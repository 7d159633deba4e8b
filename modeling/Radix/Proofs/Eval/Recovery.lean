import Radix.Proofs.Eval.Extends
import Radix.Proofs.Eval.Lockstep

/-!
# Proofs/Eval/Recovery — operators that report change nothing as long as none does

An operator with an offset reports a failure and goes on; one without lets it pass.  So removing
the offsets from an expression and from the functions in sight (`Expr.unanchored`,
`State.unanchored`) gives another way of treating failures.  `Expr.eval_unanchored` compares the
two: they agree on every evaluation in which nothing is reported, and what is evaluated without
failures and without reports when failures pass, is evaluated in the same way when they do not.

Texts keep their offsets, and the expressions inside them report in both runs.  A function that is
declared on the way keeps its offsets in one run and has none in the other; so the functions at the
end are the same up to offsets only.
-/

namespace Radix

/-! ## Removing offsets -/

/-- The table with every value changed. -/
def Table.map {α β : Type} (f : α → β) (t : Table α) : Table β :=
  ⟨t.entries.map fun p => (p.1, f p.2)⟩

/-- The body with the offset of every operator removed. -/
def Body.unanchored : Body → Body
  | .native n => .native n
  | .program es => .program (es.map Expr.unanchored)

/-- The function with the offset of every operator removed. -/
def Function.unanchored (f : Function) : Function := { f with body := f.body.unanchored }

/-- The state with the offset of every operator removed, in all functions in sight. -/
def State.unanchored (s : State) : State :=
  { s with frame := { s.frame with functions := s.frame.functions.map Function.unanchored } }

namespace Outcome

variable {α : Type}

/-- The same end, in the state without offsets. -/
def unanchored : Outcome α → Outcome α
  | .done a s => .done a s.unanchored
  | .exit x s => .exit x s.unanchored
  | .outOfFuel => .outOfFuel

/-- The computation ends, and the diagnostics are still those of the console. -/
def Quiet (c : Console) : Outcome α → Prop
  | .done _ s | .exit _ s => s.console.diagnostics = c.diagnostics
  | .outOfFuel => False

instance (c : Console) : (o : Outcome α) → Decidable (o.Quiet c)
  | .done _ s | .exit _ s => inferInstanceAs (Decidable (s.console.diagnostics = c.diagnostics))
  | .outOfFuel => isFalse id

/-- The computation ends with a failure. -/
def Fails : Outcome α → Prop
  | .exit (.failed _) _ => True
  | _ => False

instance : (o : Outcome α) → Decidable o.Fails
  | .exit (.failed _) _ => isTrue trivial
  | .exit (.ret _) _ | .exit (.breakTo _) _ | .exit (.continueTo _) _ | .done _ _ | .outOfFuel =>
    isFalse id

end Outcome

/-! ## Expressions with and without offsets -/

/-- Nothing differs but that operators may have lost their offset. -/
def Likeness.unanchoring : Likeness where
  text q o q' o' := q = q' ∧ o = o'
  offset o o' := o = o'
  anchor o o' := o' = none ∨ o' = o

theorem Expr.alike_unanchored (e : Expr) : e.Alike .unanchoring e.unanchored := by
  induction e using Expr.parts_induction with
  | step e ih =>
    have all : ∀ es : List Expr, (∀ x ∈ es, x ∈ e.parts) →
        List.Forall₂ (Alike .unanchoring) es (unanchoredList es) := by
      intro es h
      rw [unanchoredList_eq_map, List.forall₂_map_right_iff, List.forall₂_same]
      exact fun x hx => ih x (h x hx)
    cases e with
    | numeral x => exact .numeral x
    | text q o => exact .text ⟨rfl, rfl⟩
    | var name => exact .var name
    | assign name value => exact .assign (ih value (by simp [parts]))
    | binary op l r o =>
      exact .binary (ih l (by simp [parts])) (ih r (by simp [parts])) (.inl rfl)
    | call name args o => exact .call (all args fun _ h => h) rfl
    | ret value o => exact .ret (ih value (by simp [parts])) rfl
    | branch label c yes no =>
      have hc := ih c (by simp [parts])
      have hy := all yes fun x h => by simp [parts, h]
      cases no with
      | none => exact .branch hc hy
      | some no => exact .branchElse hc hy (all no fun x h => by simp [parts, h])
    | whileLoop label c body =>
      exact .whileLoop (ih c (by simp [parts])) (all body fun x h => by simp [parts, h])
    | loop label body => exact .loop (all body fun _ h => h)
    | breakTo label => exact .breakTo label
    | continueTo label => exact .continueTo label
    | function name params returns body => exact .function (all body fun _ h => h)

theorem map_unanchored_eq {es es' : List Expr} (h : List.Forall₂ (Expr.Alike .unanchoring) es es')
    (ih : ∀ x ∈ es, ∀ x', x.Alike .unanchoring x' → x.unanchored = x'.unanchored) :
    es.map Expr.unanchored = es'.map Expr.unanchored := by
  induction h with
  | nil => rfl
  | cons hx _ rest =>
    rw [List.map_cons, List.map_cons, ih _ (by simp) _ hx,
      rest fun y hy => ih y (List.mem_cons_of_mem _ hy)]

/-- Expressions that are alike in this way are the same without offsets. -/
theorem Expr.Alike.unanchored_eq {e e' : Expr} (h : e.Alike .unanchoring e') :
    e.unanchored = e'.unanchored := by
  induction e using Expr.parts_induction generalizing e' with
  | step e ih =>
    have all : ∀ {es es' : List Expr}, List.Forall₂ (Alike .unanchoring) es es' →
        (∀ x ∈ es, x ∈ e.parts) → unanchoredList es = unanchoredList es' := by
      intro es es' h hp
      rw [unanchoredList_eq_map, unanchoredList_eq_map]
      exact map_unanchored_eq h fun x hx x' => ih x (hp x hx)
    cases h with
    | numeral | var | breakTo | continueTo => rfl
    | text h =>
      obtain ⟨rfl, rfl⟩ := h
      rfl
    | assign h => rw [unanchored, unanchored, ih _ (by simp [parts]) h]
    | binary hl hr _ =>
      rw [unanchored, unanchored, ih _ (by simp [parts]) hl, ih _ (by simp [parts]) hr]
    | call ha ho => rw [unanchored, unanchored, all ha fun _ h => h, ho]
    | ret h ho => rw [unanchored, unanchored, ih _ (by simp [parts]) h, ho]
    | branch hc hy =>
      rw [unanchored, unanchored, ih _ (by simp [parts]) hc, all hy fun x h => by simp [parts, h]]
    | branchElse hc hy hn =>
      rw [unanchored, unanchored, ih _ (by simp [parts]) hc, all hy fun x h => by simp [parts, h],
        all hn fun x h => by simp [parts, h]]
    | whileLoop hc hb =>
      rw [unanchored, unanchored, ih _ (by simp [parts]) hc, all hb fun x h => by simp [parts, h]]
    | loop hb => rw [unanchored, unanchored, all hb fun _ h => h]
    | function hb => rw [unanchored, unanchored, all hb fun _ h => h]

theorem Body.alike_unanchored (b : Body) : b.Alike .unanchoring b.unanchored := by
  cases b with
  | native n => exact .native n
  | program es =>
    refine .program ?_
    rw [List.forall₂_map_right_iff, List.forall₂_same]
    exact fun e _ => e.alike_unanchored

theorem Body.Alike.unanchored_eq {b b' : Body} (h : b.Alike .unanchoring b') :
    b.unanchored = b'.unanchored := by
  cases h with
  | native n => rfl
  | program h =>
    exact congrArg Body.program (map_unanchored_eq h fun _ _ _ h => h.unanchored_eq)

theorem Function.Alike.unanchored_eq {f f' : Function} (h : f.Alike .unanchoring f') :
    f.unanchored = f'.unanchored := by
  obtain ⟨name, params, returns, body⟩ := f
  obtain ⟨name', params', returns', body'⟩ := f'
  obtain ⟨rfl, rfl, rfl, hb⟩ := h
  exact congrArg (Function.mk name params returns) hb.unanchored_eq

/-! ## The two runs -/

namespace Astray

/-- Something was reported after the first `k` diagnostics. -/
def loud (k : Nat) : Astray where
  console c := k < c.diagnostics.length
  failure _ _ := False
  report _ h := by simpa [Console.report] using Nat.lt_succ_of_lt h
  native n vs f h := by rwa [Native.run_diagnostics]
  reported _ h := h.elim

/-- Something was reported after the first `k` diagnostics, or a failure is on its way. -/
def failing (k : Nat) : Astray where
  console c := k < c.diagnostics.length
  failure _ c := k ≤ c.diagnostics.length
  report _ h := by simpa [Console.report] using Nat.lt_succ_of_lt h
  native n vs f h := by rwa [Native.run_diagnostics]
  reported _ h _ := by simpa [Console.report] using Nat.lt_succ_of_le h

end Astray

namespace Lockstep

/-- The two runs are the same, until an operator on the left reports a failure that the one on the
right lets pass. -/
def recovery (k : Nat) : Lockstep where
  like := .unanchoring
  depth d d' := d = d'
  source u u' := u = u'
  console c c' := c = c' ∧ k ≤ c.diagnostics.length
  failure e e' := e = e'
  left := .loud k
  right := .failing k

theorem recovery_recover (k : Nat) {o o' : Option Nat} (ho : o' = none ∨ o' = o) (e : RunError)
    {s s' : State} (hs : (recovery k).States s s') :
    (recovery k).Together (Outcome.recover o (.exit (.failed e) s))
      (Outcome.recover o' (.exit (.failed e) s')) := by
  obtain ⟨hc, hk⟩ : s.console = s'.console ∧ k ≤ s.console.diagnostics.length := hs.console
  have passed : (recovery k).Together (.exit (.failed e) s : Outcome Value)
      (.exit (.failed e) s') :=
    .inl (.exit (.failed rfl) hs)
  match o, o', ho with
  | none, none, _ => exact passed
  | some o, none, _ =>
    rw [Outcome.recover_some]
    split
    · exact passed
    · refine .inr ⟨?_, .inr ⟨e, rfl, ?_⟩⟩
      · show k < (s.console.diagnostics ++ [_]).length
        simpa using Nat.lt_succ_of_le hk
      · show k ≤ s'.console.diagnostics.length
        rwa [← hc]
  | some o, some _, .inr rfl =>
    rw [Outcome.recover_some, Outcome.recover_some]
    split
    · exact passed
    · have hu : s.frame.source = s'.frame.source := hs.frame.source
      refine .inl (.done ⟨hs.frame, ?_, ?_⟩)
      · rw [State.report, State.report, hc, hu]
      · simpa [State.report, Console.report] using Nat.le_succ_of_le hk

theorem recovery_lawful (k : Nat) : (recovery k).Lawful where
  deeper h := congrArg (· + 1) h
  called h := by rw [show _ = _ from h]
  limit h hd := by rwa [show _ = _ from h]
  outrun h hd hd' := by
    obtain rfl := h
    omega
  write t h := by
    obtain ⟨rfl, hk⟩ := h
    exact ⟨rfl, rfl, by rwa [Console.write_diagnostics]⟩
  readLine h := by
    obtain ⟨rfl, hk⟩ := h
    exact ⟨rfl, rfl, by rwa [Console.readLine_diagnostics]⟩
  wait n h := by
    obtain ⟨rfl, hk⟩ := h
    exact ⟨rfl, hk⟩
  same _ := rfl
  unknownFunction _ h := by rw [show _ = _ from h]; rfl
  argumentCount _ _ _ h := by rw [show _ = _ from h]; rfl
  argumentType _ _ _ _ h := by rw [show _ = _ from h]; rfl
  depthExceeded _ h := by rw [show _ = _ from h]; rfl
  parts h hp := by
    obtain ⟨rfl, rfl⟩ := h
    refine ⟨_, hp, List.forall₂_same.mpr fun p _ => ?_⟩
    match p with
    | .chars cs => exact .chars cs
    | .expr e =>
      exact .expr (Expr.alike_self (L := .unanchoring) (fun _ _ => ⟨rfl, rfl⟩) (fun _ => rfl)
        (fun _ => .inr rfl) e)
  unread h he := by
    obtain ⟨rfl, rfl⟩ := h
    exact ⟨_, he, rfl⟩
  recover ho he hs := by
    obtain rfl := he
    exact recovery_recover k ho _ hs

variable {k : Nat} {s s' : State}

theorem recovery_states (s : State) :
    (recovery s.console.diagnostics.length).States s s.unanchored where
  frame :=
    { vars := rfl
      functions := by
        show List.Forall₂ _ _ (List.map _ _)
        rw [List.forall₂_map_right_iff, List.forall₂_same]
        exact fun p _ => ⟨rfl, rfl, rfl, rfl, p.2.body.alike_unanchored⟩
      depth := rfl
      source := rfl }
  console := ⟨rfl, Nat.le_refl _⟩

theorem States.unanchored_eq (h : (recovery k).States s s') : s.unanchored = s'.unanchored := by
  obtain ⟨⟨vars, ⟨fs⟩, depth, source⟩, console⟩ := s
  obtain ⟨⟨vars', ⟨fs'⟩, depth', source'⟩, console'⟩ := s'
  obtain ⟨⟨rfl, hf, rfl, rfl⟩, rfl, -⟩ := h
  have functions : fs.map (fun p => (p.1, p.2.unanchored)) =
      fs'.map fun p => (p.1, p.2.unanchored) := by
    replace hf : List.Forall₂ (fun p p' => p.1 = p'.1 ∧ p.2.Alike .unanchoring p'.2) fs fs' := hf
    induction hf with
    | nil => rfl
    | cons h _ ih => rw [List.map_cons, List.map_cons, ih, h.1, h.2.unanchored_eq]
  exact congrArg (fun fs => State.mk ⟨vars, ⟨fs⟩, depth, source⟩ console) functions

theorem Matches.unanchored_eq {α : Type} {o o' : Outcome α} (h : (recovery k).Matches o o') :
    o.unanchored = o'.unanchored := by
  cases h with
  | done hs => exact congrArg (Outcome.done _) hs.unanchored_eq
  | @exit x x' _ _ hx hs =>
    have : x = x' := by
      cases hx with
      | failed he => exact congrArg Exit.failed he
      | ret | breakTo | continueTo => rfl
    rw [this]
    exact congrArg (Outcome.exit _) hs.unanchored_eq
  | outOfFuel => rfl

end Lockstep

/-! ## Conservativity -/

theorem Outcome.Quiet.not_loud {α : Type} {c : Console} {o : Outcome α} (h : o.Quiet c) :
    ¬ (Astray.loud c.diagnostics.length).Off o := by
  intro hoff
  match o, h, hoff with
  | .done _ s, h, hoff =>
    exact absurd hoff (by simp [Astray.Off, Astray.loud, show s.console.diagnostics = _ from h])
  | .exit x s, h, hoff =>
    exact absurd hoff (by simp [Astray.Off, Astray.loud, show s.console.diagnostics = _ from h])

theorem Outcome.Quiet.not_failing {α : Type} {c : Console} {o : Outcome α} (h : o.Quiet c)
    (hf : ¬ o.Fails) : ¬ (Astray.failing c.diagnostics.length).Off o := by
  intro hoff
  match o, h, hoff with
  | .done _ s, h, hoff =>
    exact absurd hoff (by simp [Astray.Off, Astray.failing, show s.console.diagnostics = _ from h])
  | .exit x s, h, hoff =>
    rcases hoff with hc | ⟨e, rfl, -⟩
    · exact absurd hc (by simp [Astray.failing, show s.console.diagnostics = _ from h])
    · exact hf trivial

/-- **Recovery is conservative.**  Where nothing is reported, an evaluation ends as it does when
operators let failures pass.  Where nothing is reported and nothing fails when operators let
failures pass, it ends in the same way when they do not. -/
theorem Expr.eval_unanchored (fuel : Nat) (e : Expr) (s : State) :
    ((e.eval fuel s).Quiet s.console →
      (e.unanchored.eval fuel s.unanchored).unanchored = (e.eval fuel s).unanchored) ∧
    ((e.unanchored.eval fuel s.unanchored).Quiet s.console →
      ¬ (e.unanchored.eval fuel s.unanchored).Fails →
      (e.eval fuel s).unanchored = (e.unanchored.eval fuel s.unanchored).unanchored) := by
  have pairs := Lockstep.eval_pairs (Lockstep.recovery_lawful s.console.diagnostics.length) fuel
  rcases pairs.together e.alike_unanchored (Lockstep.recovery_states s) with h | ⟨hl, hr⟩
  · exact ⟨fun _ => h.unanchored_eq.symm, fun _ _ => h.unanchored_eq⟩
  · exact ⟨fun hq => absurd hl hq.not_loud, fun hq hf => absurd hr (hq.not_failing hf)⟩

/-- A function with an operator whose right operand would fail. -/
def either : Function where
  name := "either"
  params := [(.anyBase, "t")]
  returns := none
  body := .program [.ret (.binary .or (.var "t") (.var "y") (some 9)) 3]

/-- Nothing is bound but `x` and the function. -/
def eitherState : State where
  frame :=
    { vars := Table.ofList [("x", .ofBool true)]
      functions := Table.ofList [("either", either)]
      depth := 0
      source := { text := [], filename := "", origin := "" } }
  console := { feed := .script [] }

/-- Calls the function, and combines its result under another operator. -/
def eitherCall : Expr :=
  .assign "z" (.binary .and (.call "either" [.var "x"] 2) (.var "x") (some 7))

/-- The right operand is not evaluated, so no operator fails, with or without its offset. -/
theorem eitherCall_quiet :
    ((eitherCall.eval 6 eitherState).Quiet eitherState.console ∧
      (eitherCall.unanchored.eval 6 eitherState.unanchored).unanchored =
        (eitherCall.eval 6 eitherState).unanchored) ∧
    ((eitherCall.unanchored.eval 6 eitherState.unanchored).Quiet eitherState.console ∧
      ¬ (eitherCall.unanchored.eval 6 eitherState.unanchored).Fails ∧
      (eitherCall.eval 6 eitherState).unanchored =
        (eitherCall.unanchored.eval 6 eitherState.unanchored).unanchored) :=
  have quiet : (eitherCall.eval 6 eitherState).Quiet eitherState.console := by decide
  have quiet' : (eitherCall.unanchored.eval 6 eitherState.unanchored).Quiet
      eitherState.console := by
    decide
  have fine : ¬ (eitherCall.unanchored.eval 6 eitherState.unanchored).Fails := by decide
  ⟨⟨quiet, (Expr.eval_unanchored 6 eitherCall eitherState).1 quiet⟩,
    quiet', fine, (Expr.eval_unanchored 6 eitherCall eitherState).2 quiet' fine⟩

end Radix
