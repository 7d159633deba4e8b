import Radix.Eval.Fuel
import Radix.Proofs.Eval.Extends
import Radix.Proofs.Eval.Stays
import Radix.Proofs.Eval.Trace
import Radix.Proofs.Layout

/-!
# Proofs/DepthLimit — the one failure that crosses operators

An operator with an offset reports what fails inside it and goes on, unless calls are nested too
deep.  So there are two kinds of failures.  Where a call is one too deep the whole evaluation ends
at once, however far out it began, and nothing is reported for it on the way; any other failure ends
at the innermost operator with an offset (`Expr.depthExceeded_passes`).
-/

namespace Radix

/-! ## Consoles -/

/-- The property of a console is kept by native functions, and when an operator reports. -/
structure Console.Lasting (P : Console → Prop) : Prop where
  native {c : Console} (n : Native) (vs : List Value) (f : Frame) : P c → P (n.run vs f c).2
  report {s : State} {e : RunError} (k : Nat) : e.isDepthExceeded = false → P s.console →
    P (s.report e k).console

/-- A computation that keeps an invariant and is done. -/
theorem Run.Stays.done {α : Type} {F : Prop} {I : State → Prop} {x : Run α} {a : α} {s t : State}
    (h : x.Stays F I) (hs : I s) (hd : x s = .done a t) : I t := by
  have ht := h s hs
  rwa [hd] at ht

namespace Console.Lasting

open Eval

variable {P : Console → Prop} {ev : Expr → Run Value}

theorem stays_native (L : Lasting P) (n : Native) (vs : List Value) :
    (Eval.native n vs).Stays True fun s => P s.console := by
  intro s hs
  have hc := L.native n vs s.frame hs
  unfold Eval.native
  match hr : n.run vs s.frame s.console with
  | (.ok v, console) | (.error e, console) =>
    rw [hr] at hc
    exact hc

theorem stays_call (L : Lasting P) (h : ∀ x, (ev x).Stays True fun s => P s.console)
    (name : String) (args : List Expr) (offset : Nat) :
    (call ev name args offset).Stays True fun s => P s.console := by
  refine (stays_all fun x _ => h x).bind fun vs => Run.stays_frame_bind fun s hs => ?_
  match s.frame.functions.get? name with
  | none => exact hs
  | some f =>
    refine (Run.stays_lift _).bind (fun _ => ?_) s hs
    match f.body with
    | .native n => exact L.stays_native n vs
    | .program body =>
      refine Run.stays_frame_bind fun t ht => ?_
      split
      · exact ht
      · exact Outcome.Stays.returnTo (J := fun s => P s.console)
          (stays_block (fun x _ => h x) _ ht) fun _ hu => hu

theorem stays_step (L : Lasting P) (h : ∀ x, (ev x).Stays True fun s => P s.console)
    (turns : Nat) (e : Expr) : (step turns ev e).Stays True fun s => P s.console := by
  match e with
  | .numeral x => exact Run.stays_pure _
  | .text quoted offset => exact stays_text fun _ x _ _ => h x
  | .var name => exact stays_lookup name
  | .assign name value => exact stays_assign (h value) fun _ _ hs => hs
  | .binary op l r offset =>
    intro s hs
    have inner : (operation ev op l r s).Stays True fun t => P t.console :=
      stays_operation (h l) (h r) s hs
    have kept : ((operation ev op l r s).recover offset).Meets (fun _ t => P t.console)
        fun _ t => P t.console := inner.meets.recover fun _ _ _ _ hd ht => L.report _ hd ht
    show ((operation ev op l r s).recover offset).Stays True _
    match (operation ev op l r s).recover offset, kept with
    | .done _ _, kept | .exit _ _, kept => exact kept
    | .outOfFuel, _ => trivial
  | .call name args offset => exact L.stays_call h name args offset
  | .ret value offset => exact stays_ret (h value)
  | .branch label c yes no => exact stays_conditional (h c) (fun x _ => h x) fun x _ => h x
  | .whileLoop label c body => exact (stays_turn (h c) fun x _ => h x).iterate turns
  | .loop label body => exact (stays_block fun x _ => h x).pass.iterate turns
  | .breakTo label => exact Run.stays_leave _
  | .continueTo label => exact Run.stays_leave _
  | .function name params returns body => exact stays_declare fun _ _ hs => hs

theorem stays_eval (L : Lasting P) (n : Nat) (e : Expr) :
    (e.eval n).Stays True fun s => P s.console := by
  induction n generalizing e with
  | zero => exact fun _ _ => trivial
  | succ n ih => exact L.stays_step ih n e

variable {s t : State} {x : Expr}

theorem of_reaches (h : ∀ x, (ev x).Stays True fun s => P s.console) {es : List Expr}
    (hr : Reaches ev es s x t) (hs : P s.console) : P t.console := by
  induction hr with
  | head => exact hs
  | tail hd _ ih => exact ih ((h _).done hs hd)

theorem of_goes {y : Run Bool} (h : y.Stays True fun s => P s.console) {k : Nat}
    (hg : Goes y k s t) (hs : P s.console) : P t.console := by
  induction hg with
  | start => exact hs
  | turn hd _ ih => exact ih (h.done hs hd)

theorem of_part (h : ∀ x, (ev x).Stays True fun s => P s.console) {turns : Nat} {e : Expr}
    (hp : Part turns ev e s x t) (hs : P s.console) : P t.console := by
  have turned : ∀ {label c body k u}, Goes (turn ev label c body) k s u → P u.console :=
    fun hg => of_goes (stays_turn (h _) fun x _ => h x) hg hs
  match hp with
  | .assign | .left | .ret | .condition => exact hs
  | .text _ hr | .argument hr => exact of_reaches h hr hs
  | .right hd _ => exact (h _).done hs hd
  | .body ⟨_, _, _, ha, _, _, hu⟩ hr =>
    have accepted : P _ := (stays_all fun x _ => h x).done hs ha.values
    exact of_reaches h hr (hu ▸ accepted)
  | .yes hd _ hr | .no hd _ hr => exact of_reaches h hr ((h _).done hs hd)
  | .turn hg _ => exact turned hg
  | .turnBody hg _ hd _ hr => exact of_reaches h hr ((h _).done (turned hg) hd)
  | .pass hg _ hr => exact of_reaches h hr (of_goes (stays_block fun x _ => h x).pass hg hs)

/-- **What lasts holds wherever an evaluation comes by.** -/
theorem of_visits (L : Lasting P) {n m : Nat} {e : Expr} (hv : e.Visits n s m x t)
    (hs : P s.console) : P t.console := by
  induction hv with
  | here => exact hs
  | part hp _ ih => exact ih (of_part (L.stays_eval _) hp hs)

end Console.Lasting

/-! ## Reports -/

/-- Nothing that was reported after the first console has the label. -/
def Console.Spares (label : String) (c d : Console) : Prop :=
  ∃ ds, d.diagnostics = c.diagnostics ++ ds ∧ ∀ x ∈ ds, x.label ≠ label

theorem RunError.label_ne_of_not_depth {e : RunError} (h : e.isDepthExceeded = false) :
    e.kind.label ≠ "RecursionError" := by
  have hk : e.kind ≠ .depth := fun hk => by simp [e.isDepthExceeded_iff.mpr hk] at h
  match hl : e.kind with
  | .depth => exact absurd hl hk
  | .lexical | .grammar | .value | .name | .arity | .type | .jump | .console => decide

theorem Console.spares_lasting (c : Console) : Lasting (c.Spares "RecursionError") where
  native n vs f h := by
    unfold Spares
    rwa [n.run_diagnostics]
  report {s e} k hd h := by
    obtain ⟨ds, hds, hall⟩ := h
    refine ⟨ds ++ [_], by rw [State.report, Console.report, hds, List.append_assoc], ?_⟩
    exact List.forall_mem_append.mpr ⟨hall, fun x hx =>
      List.mem_singleton.mp hx ▸ RunError.label_ne_of_not_depth hd⟩

/-- **No evaluation reports nesting that is too deep**, before or after any evaluation inside. -/
theorem Expr.eval_spares {n m : Nat} {e x : Expr} {s t : State} (hv : e.Visits n s m x t) :
    s.console.Spares "RecursionError" t.console ∧
      (x.eval m t).Meets (fun _ u => s.console.Spares "RecursionError" u.console)
        fun _ u => s.console.Spares "RecursionError" u.console := by
  have ht := s.console.spares_lasting.of_visits hv ⟨[], by simp, nofun⟩
  exact ⟨ht, (s.console.spares_lasting.stays_eval m x t ht).meets⟩

/-! ## Calls -/

namespace Eval

variable {ev : Expr → Run Value} {name : String} {args : List Expr} {offset : Nat} {s t : State}
  {f : Function} {vs : List Value} {body : List Expr}

/-- A call that is one too deep fails where its arguments were accepted. -/
theorem call_tooDeep (h : Accepts ev name args offset s f vs t) (hb : f.body = .program body)
    (hd : maxDepth ≤ t.frame.depth) :
    call ev name args offset s = .exit (.failed (.depthExceeded f.name offset)) t := by
  simp only [call, Run.bind_apply, h.values, Run.frame_apply, h.known, h.checked, Run.lift_ok, hb,
    apply, if_pos hd, Run.fail_apply]

/-- It asks for its arguments only. -/
theorem asks_tooDeep (h : Accepts ev name args offset s f vs t) (hb : f.body = .program body)
    (hd : maxDepth ≤ t.frame.depth) (turns : Nat) :
    asks turns ev (.call name args offset) s = asked ev args s := by
  have nothing : next (all ev args) (askedCall ev name offset) s = [] := by
    simp only [next, h.values, askedCall, h.known, h.checked, Run.lift_ok, askedBody, hb, if_pos hd]
  rw [asks, nothing, List.append_nil]

end Eval

/-! ## Operators -/

theorem RunError.isDepthExceeded_eq_true {e : RunError} (h : e.isDepthExceeded = true) :
    ∃ name offset, e = .depthExceeded name offset := by
  match e, h with
  | .depthExceeded name offset, _ => exact ⟨name, offset, rfl⟩

/-- An operator with an offset fails with nothing else. -/
theorem Outcome.depthExceeded_of_recover {k : Nat} {o : Outcome Value} {e : RunError} {t : State}
    (h : o.recover (some k) = .exit (.failed e) t) : e.isDepthExceeded = true := by
  obtain rfl := Eval.failed_of_recover h
  by_cases hd : e.isDepthExceeded = true
  · exact hd
  · rw [recover, if_neg hd] at h
    exact absurd h (by simp)

/-- **Only nesting that is too deep crosses an operator.**

If the evaluation of an expression comes to a call of a declared function where calls are nested as
deep as they may be, it fails with just that, with the console as it is then and with any more fuel;
and of all the evaluations inside, the last to start are that call and its arguments.  No evaluation
reports a failure with that label, at whatever moment.  And an operator with an offset fails with
nothing else: any other failure of its operands or of its own adds one report, at the offset of the
failure or else at that of the operator, and gives unit. -/
theorem Expr.depthExceeded_passes (n : Nat) (e : Expr) (s : State) :
    (∀ m name args offset t f vs u body, e.Visits n s (m + 1) (.call name args offset) t →
      Eval.Accepts (eval m) name args offset t f vs u → f.body = .program body →
      maxDepth ≤ u.frame.depth →
      ∃ w, w.console = u.console ∧
        (∀ k, n ≤ k → e.eval k s = .exit (.failed (.depthExceeded f.name offset)) w) ∧
        ∃ before, e.trace n s = before ++ (m + 1, .call name args offset, t) ::
          (Eval.asked (eval m) args t).flatMap fun r => r.1.trace m r.2) ∧
    (∀ m x t, e.Visits n s m x t → s.console.Spares "RecursionError" t.console ∧
      (x.eval m t).Meets (fun _ u => s.console.Spares "RecursionError" u.console)
        fun _ u => s.console.Spares "RecursionError" u.console) ∧
    ∀ op l r k,
      (∀ err t, (binary op l r (some k)).eval (n + 1) s = .exit (.failed err) t →
        ∃ name offset, err = .depthExceeded name offset) ∧
      ∀ err t, Eval.operation (eval n) op l r s = .exit (.failed err) t →
        (∀ name offset, err ≠ .depthExceeded name offset) →
        (binary op l r (some k)).eval (n + 1) s = .done .unit
          { t with console := { t.console with diagnostics := t.console.diagnostics ++
            [.placed t.frame.source.text (err.offset.getD k) err.kind.label err.message
              t.frame.source.filename] } } := by
  refine ⟨fun m name args offset t f vs u body hv ha hb hd => ?_, fun m x t => eval_spares,
    fun op l r k => ⟨fun err t h => ?_, fun err t h hne => ?_⟩⟩
  · obtain ⟨⟨before, htrace⟩, w, hw, hc⟩ :=
      trace_of_depthExceeded hv rfl (Eval.call_tooDeep ha hb hd)
    refine ⟨w, hc, fun k hk => ?_, before, ?_⟩
    · rw [e.eval_extends hk s (by simp [hw]), hw]
    · rw [htrace, trace, Eval.asks_tooDeep ha hb hd]
  · exact RunError.isDepthExceeded_eq_true (Outcome.depthExceeded_of_recover h)
  · have hd : ¬ err.isDepthExceeded = true := fun hd => by
      obtain ⟨name, offset, rfl⟩ := RunError.isDepthExceeded_eq_true hd
      exact hne name offset rfl
    show (Eval.operation (eval n) op l r s).recover (some k) = _
    rw [h, Outcome.recover, if_neg hd]
    rfl

/-! A loop calls a function under an operator.  The function adds to a variable that is not bound,
and then calls itself under another operator; there are so many calls already that this one is too
deep. -/

def digging : List Expr :=
  [.binary .add (.var "y") (.var "y") (some 8), .binary .add (.call "f" [] 11) (.var "y") (some 14)]

def digger : Function where
  name := "f"
  params := []
  returns := none
  body := .program digging

def diggingState : State where
  frame :=
    { vars := ∅
      functions := Table.ofList [("f", digger)]
      depth := 999
      source :=
        { text := "fn f()\x7by+y\nf()+y\x7d\nloop\x7bf()&&y\x7d".toList
          filename := ""
          origin := "" } }
  console := { feed := .script [] }

def diggingLoop : Expr := .loop none [.binary .and (.call "f" [] 23) (.var "y") (some 26)]

/-- Where the body of the function starts. -/
def dugIn : State := { diggingState with frame := diggingState.frame.enter [] [] }

/-- After its first statement. -/
def dugUnit : State := dugIn.report (.unknownVariable "y") 8

theorem digging_unit :
    (Expr.binary .add (.var "y") (.var "y") (some 8)).eval 2 dugIn = .done .unit dugUnit :=
  rfl

theorem diggingLoop_visits :
    diggingLoop.Visits 5 diggingState (0 + 1) (.call "f" [] 11) dugUnit :=
  .part (.pass .start (by decide) .head) <| .part .left <|
    .part (.body ⟨digger, [], diggingState, ⟨rfl, rfl, rfl⟩, rfl, by decide, rfl⟩
      (.tail digging_unit .head)) <| .part .left .here

/-- The first statement of the function reports its failure and gives unit; the call in the second
one ends the loop, and is not reported. -/
theorem diggingLoop_fails :
    (diggingLoop.Visits 5 diggingState (0 + 1) (.call "f" [] 11) dugUnit ∧
      maxDepth ≤ dugUnit.frame.depth ∧
      ∃ w, w.console = dugUnit.console ∧
        (∀ k, 5 ≤ k → diggingLoop.eval k diggingState =
          .exit (.failed (.depthExceeded "f" 11)) w) ∧
        ∃ before, diggingLoop.trace 5 diggingState = before ++ [(1, .call "f" [] 11, dugUnit)]) ∧
    diggingState.console.Spares "RecursionError" dugUnit.console ∧
    Eval.operation (Expr.eval 1) .add (.var "y") (.var "y") dugIn =
      .exit (.failed (.unknownVariable "y")) dugIn ∧
    (Expr.binary .add (.var "y") (.var "y") (some 8)).eval 2 dugIn = .done .unit
      { dugIn with console := { dugIn.console with diagnostics := dugIn.console.diagnostics ++
        [.placed dugIn.frame.source.text 8 "NameError" (RunError.unknownVariable "y").message
          ""] } } := by
  obtain ⟨ends, spares, -⟩ := Expr.depthExceeded_passes 5 diggingLoop diggingState
  obtain ⟨-, -, operators⟩ := Expr.depthExceeded_passes 1 diggingLoop dugIn
  have deep : maxDepth ≤ dugUnit.frame.depth := by decide
  have fails : Eval.operation (Expr.eval 1) .add (.var "y") (.var "y") dugIn =
      .exit (.failed (.unknownVariable "y")) dugIn := rfl
  have accepted : Eval.Accepts (Expr.eval 0) "f" [] 11 dugUnit digger [] dugUnit := ⟨rfl, rfl, rfl⟩
  exact ⟨⟨diggingLoop_visits, deep, ends _ _ _ _ _ _ _ _ _ diggingLoop_visits accepted rfl deep⟩,
    (spares _ _ _ diggingLoop_visits).1, fails,
    (operators .add (.var "y") (.var "y") 8).2 (.unknownVariable "y") dugIn fails nofun⟩

end Radix
