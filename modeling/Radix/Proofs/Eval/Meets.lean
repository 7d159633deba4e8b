import Radix.Eval.Basic

/-!
# Proofs/Eval/Meets — what holds however a computation ends

`Outcome.Meets Q E` says that `Q` holds of the result and the state, if the computation is done, and
that `E` holds of the exit and the state, if it leaves early; about a computation that is out of
fuel it says nothing.  There is one rule for each way of building computations, and the catchers of
exits each say which exits they still let pass.
-/

namespace Radix

namespace Outcome

variable {α : Type} {Q Q' : α → State → Prop} {E E' : Exit → State → Prop}

/-- `Q` holds of a result and `E` of an exit. -/
def Meets (Q : α → State → Prop) (E : Exit → State → Prop) : Outcome α → Prop
  | .done a s => Q a s
  | .exit x s => E x s
  | .outOfFuel => True

@[simp] theorem meets_done (a : α) (s : State) : (done a s).Meets Q E ↔ Q a s := Iff.rfl

@[simp] theorem meets_exit (x : Exit) (s : State) :
    (exit x s : Outcome α).Meets Q E ↔ E x s := Iff.rfl

@[simp] theorem meets_outOfFuel : (outOfFuel : Outcome α).Meets Q E := trivial

theorem Meets.mono {o : Outcome α} (h : o.Meets Q E) (hQ : ∀ a s, Q a s → Q' a s)
    (hE : ∀ x s, E x s → E' x s) : o.Meets Q' E' :=
  match o, h with
  | .done a s, h => hQ a s h
  | .exit x s, h => hE x s h
  | .outOfFuel, _ => trivial

/-- An operator lets pass what it does not report. -/
theorem Meets.recover {Q : Value → State → Prop} {offset : Option Nat} {o : Outcome Value}
    (h : o.Meets Q E)
    (reported : ∀ e s k, offset = some k → e.isDepthExceeded = false → E (.failed e) s →
      Q .unit (s.report e (e.offset.getD k))) : (o.recover offset).Meets Q E := by
  match o, h with
  | .done _ _, h => exact h
  | .outOfFuel, _ => trivial
  | .exit (.ret _) _, h => exact h
  | .exit (.breakTo _) _, h => exact h
  | .exit (.continueTo _) _, h => exact h
  | .exit (.failed e) s, h =>
    match offset with
    | none => exact h
    | some k =>
      rw [Outcome.recover]
      by_cases hd : e.isDepthExceeded = true
      · rw [if_pos hd]
        exact h
      · rw [if_neg hd]
        exact reported e s k rfl (by simpa using hd) h

/-- A conditional lets pass every exit but a break to its label. -/
theorem Meets.branch {Q : Value → State → Prop} {label : Option String} {o : Outcome Unit}
    (h : o.Meets (fun _ => Q .unit) E)
    (caught : ∀ target s, label = some target → E (.breakTo (some target)) s → Q .unit s)
    (passed : ∀ x s, (∀ target, label = some target → x ≠ .breakTo (some target)) → E x s →
      E' x s) : (o.branch label).Meets Q E' := by
  match o, h with
  | .done () _, h => exact h
  | .outOfFuel, _ => trivial
  | .exit (.failed _) s, h => exact passed _ s (by simp) h
  | .exit (.ret _) s, h => exact passed _ s (by simp) h
  | .exit (.continueTo _) s, h => exact passed _ s (by simp) h
  | .exit (.breakTo none) s, h => exact passed _ s (by simp) h
  | .exit (.breakTo (some target)) s, h =>
    rw [Outcome.branch]
    by_cases hl : label = some target
    · rw [if_pos hl]
      exact caught target s hl h
    · rw [if_neg hl]
      refine passed _ s (fun l hl' he => hl ?_) h
      rw [hl', Option.some.inj (Exit.breakTo.inj he)]

/-- A loop lets pass failures, returns, and the jumps that are not for it. -/
theorem Meets.pass {Q : Bool → State → Prop} {label : Option String} {o : Outcome Unit}
    (h : o.Meets (fun _ => Q true) E)
    (continued : ∀ target s, isFor label target = true → E (.continueTo target) s → Q true s)
    (broken : ∀ target s, isFor label target = true → E (.breakTo target) s → Q false s)
    (passed : ∀ x s, (∀ target, isFor label target = true →
      x ≠ .breakTo target ∧ x ≠ .continueTo target) → E x s → E' x s) :
    (o.pass label).Meets Q E' := by
  match o, h with
  | .done () _, h => exact h
  | .outOfFuel, _ => trivial
  | .exit (.failed _) s, h => exact passed _ s (by simp) h
  | .exit (.ret _) s, h => exact passed _ s (by simp) h
  | .exit (.continueTo target) s, h =>
    rw [Outcome.pass]
    by_cases hl : isFor label target = true
    · rw [if_pos hl]
      exact continued target s hl h
    · rw [if_neg hl]
      refine passed _ s (fun l hl' => ⟨by simp, fun he => hl ?_⟩) h
      rwa [Exit.continueTo.inj he]
  | .exit (.breakTo target) s, h =>
    rw [Outcome.pass]
    by_cases hl : isFor label target = true
    · rw [if_pos hl]
      exact broken target s hl h
    · rw [if_neg hl]
      refine passed _ s (fun l hl' => ⟨fun he => hl ?_, by simp⟩) h
      rwa [Exit.breakTo.inj he]

/-- A call lets pass every exit but a return, and puts its caller's frame back. -/
theorem Meets.returnTo {Q : Value → State → Prop} {caller : Frame} {o : Outcome Unit}
    (h : o.Meets (fun _ s => Q .unit { s with frame := caller }) E)
    (returned : ∀ v s, E (.ret v) s → Q v { s with frame := caller })
    (passed : ∀ x s, (∀ v, x ≠ .ret v) → E x s → E' x { s with frame := caller }) :
    (o.returnTo caller).Meets Q E' := by
  match o, h with
  | .done () _, h => exact h
  | .outOfFuel, _ => trivial
  | .exit (.ret v) s, h => exact returned v s h
  | .exit (.failed _) s, h => exact passed _ s (by simp) h
  | .exit (.breakTo _) s, h => exact passed _ s (by simp) h
  | .exit (.continueTo _) s, h => exact passed _ s (by simp) h

end Outcome

namespace Run

variable {α β : Type} {E : Exit → State → Prop} {s : State}

theorem meets_bind {x : Run α} {f : α → Run β} {Q : α → State → Prop} {R : β → State → Prop}
    (hx : (x s).Meets Q E) (hf : ∀ a t, Q a t → (f a t).Meets R E) :
    ((x >>= f) s).Meets R E := by
  rw [bind_apply]
  match h : x s with
  | .done a t => exact hf a t (by rwa [h] at hx)
  | .exit e t => rwa [h] at hx
  | .outOfFuel => trivial

theorem meets_lift {x : Except RunError α} {Q : α → State → Prop}
    (ok : ∀ a, x = .ok a → Q a s) (error : ∀ e, x = .error e → E (.failed e) s) :
    ((lift x) s).Meets Q E :=
  match x with
  | .ok a => ok a rfl
  | .error e => error e rfl

theorem iterate_succ (x : Run Bool) (n : Nat) (s : State) :
    iterate x (n + 1) s = match x s with
      | .done true t => iterate x n t
      | .done false t => .done .unit t
      | .exit e t => .exit e t
      | .outOfFuel => .outOfFuel := rfl

/-- **A loop keeps what each of its turns keeps.** -/
theorem meets_iterate {x : Run Bool} {I : State → Prop} {Q : Value → State → Prop}
    (turn : ∀ t, I t → (x t).Meets (fun more u => if more then I u else Q .unit u) E) (n : Nat)
    (hs : I s) : (iterate x n s).Meets Q E := by
  induction n generalizing s with
  | zero => trivial
  | succ n ih =>
    have hx := turn s hs
    rw [iterate_succ]
    match h : x s with
    | .done true t => exact ih (by simpa [h] using hx)
    | .done false t => simpa [h] using hx
    | .exit e t => rwa [h] at hx
    | .outOfFuel => trivial

end Run

end Radix
