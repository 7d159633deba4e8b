import Radix.Eval.State

/-!
# Eval/Run — computations that may leave early

A computation changes the state and ends in one of three ways: it is done and gives a result, it
exits, by a failure or a jump, with the state as it then is, or it is out of fuel.  Exits pass
through everything that does not catch them.
-/

namespace Radix

/-- Why a computation ends before its result. -/
inductive Exit where
  | failed (e : RunError)
  | ret (v : Value)
  | breakTo (label : Option String)
  | continueTo (label : Option String)
  deriving Repr, DecidableEq

/-- How a computation ends. -/
inductive Outcome (α : Type) where
  | done (a : α) (s : State)
  | exit (x : Exit) (s : State)
  | outOfFuel

/-- A computation on the state. -/
def Run (α : Type) := State → Outcome α

namespace Run

variable {α β : Type}

@[always_inline, inline] protected def pure (a : α) : Run α := fun s => .done a s

@[always_inline, inline] protected def bind (x : Run α) (f : α → Run β) : Run β := fun s =>
  match x s with
  | .done a s => f a s
  | .exit e s => .exit e s
  | .outOfFuel => .outOfFuel

@[always_inline] instance : Monad Run where
  pure := Run.pure
  bind := Run.bind

/-- Exits at once. -/
@[always_inline, inline] def leave (x : Exit) : Run α := fun s => .exit x s

/-- Fails at once. -/
@[always_inline, inline] def fail (e : RunError) : Run α := leave (.failed e)

/-- The state of the names in sight. -/
@[always_inline, inline] def frame : Run Frame := fun s => .done s.frame s

/-- Changes the names in sight. -/
@[always_inline, inline] def modifyFrame (f : Frame → Frame) : Run Unit := fun s =>
  .done () { s with frame := f s.frame }

/-- The result, or the failure. -/
@[always_inline, inline] def lift (x : Except RunError α) : Run α :=
  match x with
  | .ok a => pure a
  | .error e => fail e

/-- The computation that never has enough fuel. -/
@[always_inline, inline] def starve : Run α := fun _ => .outOfFuel

@[simp] theorem pure_apply (a : α) (s : State) : (pure a : Run α) s = .done a s := rfl

@[simp] theorem bind_apply (x : Run α) (f : α → Run β) (s : State) :
    (x >>= f) s = match x s with
      | .done a s => f a s
      | .exit e s => .exit e s
      | .outOfFuel => .outOfFuel := rfl

@[simp] theorem leave_apply (x : Exit) (s : State) : (leave x : Run α) s = .exit x s := rfl

@[simp] theorem fail_apply (e : RunError) (s : State) :
    (fail e : Run α) s = .exit (.failed e) s := rfl

@[simp] theorem frame_apply (s : State) : frame s = .done s.frame s := rfl

@[simp] theorem modifyFrame_apply (f : Frame → Frame) (s : State) :
    modifyFrame f s = .done () { s with frame := f s.frame } := rfl

@[simp] theorem lift_ok (a : α) (s : State) : lift (.ok a) s = .done a s := rfl

@[simp] theorem lift_error (e : RunError) (s : State) :
    (lift (.error e) : Run α) s = .exit (.failed e) s := rfl

@[simp] theorem starve_apply (s : State) : (starve : Run α) s = .outOfFuel := rfl

instance : LawfulMonad Run := LawfulMonad.mk' Run
  (fun x => by
    funext s
    show (match x s with | .done a s => .done a s | .exit e s => .exit e s | .outOfFuel => _) = x s
    cases x s <;> rfl)
  (fun _ _ => rfl)
  (fun x f g => by
    funext s
    simp only [bind_apply]
    cases x s <;> rfl)

end Run

end Radix
