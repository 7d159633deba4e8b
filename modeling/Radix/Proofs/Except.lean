/-!
# Proofs/Except — taking apart computations that may be refused

A sequence gives a result exactly if its first step gives one from which the rest does, and it is
refused where the first refusal is.
-/

namespace Radix

variable {ε α β : Type}

theorem bind_eq_ok {x : Except ε α} {f : α → Except ε β} {b : β} :
    x >>= f = .ok b ↔ ∃ a, x = .ok a ∧ f a = .ok b := by
  match x with
  | .ok a => simp [bind, Except.bind]
  | .error e => simp [bind, Except.bind]

theorem bind_eq_error {x : Except ε α} {f : α → Except ε β} {e : ε} :
    x >>= f = .error e ↔ x = .error e ∨ ∃ a, x = .ok a ∧ f a = .error e := by
  match x with
  | .ok a => simp [bind, Except.bind]
  | .error e' => simp [bind, Except.bind]

theorem map_eq_ok {x : Except ε α} {f : α → β} {b : β} :
    x.map f = .ok b ↔ ∃ a, x = .ok a ∧ f a = b := by
  cases x <;> simp [Except.map]

theorem map_eq_error {x : Except ε α} {f : α → β} {e : ε} :
    x.map f = .error e ↔ x = .error e := by
  cases x <;> simp [Except.map]

theorem ne_error_of_ok {x : Except ε α} {e : ε} (h : ∃ a, x = .ok a) : x ≠ .error e := by
  obtain ⟨a, rfl⟩ := h
  simp

end Radix
