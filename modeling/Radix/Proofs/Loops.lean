import Radix.Proofs.Eval.Meets
import Radix.Proofs.Operation

/-!
# Proofs/Loops — a loop without a condition is one whose condition is always true

    loop body              ──turn──▸ block body ──pass──▸ go on, end, or leave
    while (numeral) body   ──turn──▸ numeral, true ──▸ block body ──pass──▸ the same

The two loops repeat different turns, but a numeral other than zero leaves the state alone and
counts as true, so the turns are equal as computations and with them the loops, for any fuel
(`Expr.eval_loop`).  What can leave a loop is then said of one of them: every turn catches the jumps
without a label and those to the loop's own, and repeating turns adds no exit of its own
(`Expr.loop_escapes`).
-/

namespace Radix

/-! ## Turns -/

namespace Eval

variable {ev : Expr → Run Value} {c : Expr} {v : Value}

/-- A turn whose condition does nothing and is true is a run of the body. -/
theorem turn_of_true (hc : ∀ s, ev c s = .done v s) (hv : v.truth = .ok true)
    (label : Option String) (body : List Expr) :
    turn ev label c body = Run.pass label (block ev body) := by
  funext s
  simp only [turn, Run.bind_apply, hc, truth, hv, ofNumeral, Run.lift_ok, ↓reduceIte]

end Eval

/-- The exits that the loop with the label does not catch. -/
def Exit.Escapes (label : Option String) : Exit → Prop
  | .failed _ | .ret _ => True
  | .breakTo target | .continueTo target => ∃ l, target = some l ∧ label ≠ some l

theorem escapes_of_not_isFor {label target : Option String} (h : ¬ isFor label target = true) :
    ∃ l, target = some l ∧ label ≠ some l := by
  match target with
  | none => exact absurd rfl h
  | some l => exact ⟨l, rfl, fun hl => h (by simp [isFor, hl])⟩

theorem Outcome.pass_escapes (label : Option String) (o : Outcome Unit) :
    (o.pass label).Meets (fun _ _ => True) fun x _ => x.Escapes label := by
  have any : o.Meets (fun _ _ => True) fun _ _ => True := by cases o <;> trivial
  refine any.pass (fun _ _ _ _ => trivial) (fun _ _ _ _ => trivial) fun x s hx _ => ?_
  cases x with
  | failed e => trivial
  | ret v => trivial
  | breakTo target => exact escapes_of_not_isFor fun h => (hx target h).1 rfl
  | continueTo target => exact escapes_of_not_isFor fun h => (hx target h).2 rfl

/-! ## Loops -/

namespace Expr

/-- The evaluation ends, and it ends so. -/
def EndsIn (e : Expr) (s : State) (o : Outcome Value) : Prop :=
  o ≠ .outOfFuel ∧ ∃ n, e.eval n s = o

/-- **With any fuel the loops are the same computation.** -/
theorem eval_loop {x : Numeral} (hx : x.WellFormed) (h0 : x.value ≠ 0) (label : Option String)
    (body : List Expr) (n : Nat) :
    (loop label body).eval n = (whileLoop label (.numeral x) body).eval n := by
  match n with
  | 0 | 1 => rfl
  | n + 2 =>
    have truth : (Value.numeral x).truth = .ok true := by
      rw [hx.truth_numeral, bne_iff_ne.mpr h0]
    have turns : Eval.turn (eval (n + 1)) label (.numeral x) body = _ :=
      Eval.turn_of_true (fun _ => rfl) truth label body
    rw [eval_succ, eval_succ, Eval.step, Eval.step, turns]

/-- **What leaves a loop.** -/
theorem loop_escapes (label : Option String) (body : List Expr) (n : Nat) (s : State) :
    ((loop label body).eval n s).Meets (fun v _ => v = .unit) fun x _ => x.Escapes label := by
  match n with
  | 0 => trivial
  | n + 1 =>
    refine Run.meets_iterate (I := fun _ => True) (fun t _ => ?_) n trivial
    exact (Outcome.pass_escapes label _).mono (fun more _ _ => by cases more <;> trivial)
      fun _ _ hx => hx

/-- **A loop without a condition is one whose condition is a number other than zero.**  It ends
exactly if that one ends, and then in the same way: with the same result, failure or jump and in the
same state.  If it does not fail, it is done and gives unit, or it is left by a return, or by a jump
to a label that is not its own; a jump without a label never leaves it. -/
theorem loop_is_whileTrue {x : Numeral} (hx : x.WellFormed) (h0 : x.value ≠ 0)
    (label : Option String) (body : List Expr) (s : State) (o : Outcome Value) :
    ((loop label body).EndsIn s o ↔ (whileLoop label (.numeral x) body).EndsIn s o) ∧
    ((loop label body).EndsIn s o → (∀ err t, o ≠ .exit (.failed err) t) →
      (∃ t, o = .done .unit t) ∨ (∃ v t, o = .exit (.ret v) t) ∨
        ∃ l t, label ≠ some l ∧
          (o = .exit (.breakTo (some l)) t ∨ o = .exit (.continueTo (some l)) t)) := by
  refine ⟨?_, fun ⟨hfuel, n, hn⟩ hfailed => ?_⟩
  · simp only [EndsIn, eval_loop hx h0]
  · have leaves := hn ▸ loop_escapes label body n s
    match o with
    | .outOfFuel => exact absurd rfl hfuel
    | .done v t => exact .inl ⟨t, by rw [show v = .unit from leaves]⟩
    | .exit (.failed err) t => exact absurd rfl (hfailed err t)
    | .exit (.ret v) t => exact .inr (.inl ⟨v, t, rfl⟩)
    | .exit (.breakTo target) t =>
      obtain ⟨l, rfl, hl⟩ := leaves
      exact .inr (.inr ⟨l, t, hl, .inl rfl⟩)
    | .exit (.continueTo target) t =>
      obtain ⟨l, rfl, hl⟩ := leaves
      exact .inr (.inr ⟨l, t, hl, .inr rfl⟩)

/-! The body goes on as long as lines have characters, and then leaves for another loop. -/

def readingBody : List Expr :=
  [.branch none (.call "in" [] 0) [.continueTo none] none, .breakTo (some "outer")]

def twoLines : State where
  frame := Frame.initial { text := [], filename := "", origin := "" }
  console := { feed := .script ["line", ""] }

def allRead : State := { twoLines with console := { feed := .script [] } }

/-- After one whole turn and a part of another both loops are left by the break to the outer label,
with both lines read. -/
theorem loop_is_whileTrue_reading :
    (whileLoop (some "inner") (.numeral ⟨2, ['0', '1', '0']⟩) readingBody).EndsIn twoLines
        (.exit (.breakTo (some "outer")) allRead) ∧
      ∃ l t, some "inner" ≠ some l ∧
        ((.exit (.breakTo (some "outer")) allRead : Outcome Value) = .exit (.breakTo (some l)) t ∨
          (.exit (.breakTo (some "outer")) allRead : Outcome Value) =
            .exit (.continueTo (some l)) t) := by
  have two : Numeral.WellFormed ⟨2, ['0', '1', '0']⟩ := Numeral.wellFormed_iff_all.mpr (by decide)
  have ends : (loop (some "inner") readingBody).EndsIn twoLines
      (.exit (.breakTo (some "outer")) allRead) := ⟨by simp, 4, rfl⟩
  obtain ⟨same, leaves⟩ := loop_is_whileTrue two (by decide) (some "inner") readingBody twoLines
    (.exit (.breakTo (some "outer")) allRead)
  refine ⟨same.mp ends, ?_⟩
  rcases leaves ends (by simp) with ⟨t, ht⟩ | ⟨v, t, ht⟩ | jump
  · exact absurd ht (by simp)
  · exact absurd ht (by simp)
  · exact jump

end Expr

end Radix
