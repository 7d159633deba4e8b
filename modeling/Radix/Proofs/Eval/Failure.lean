import Radix.Eval.Basic
import Radix.Proofs.Except

/-!
# Proofs/Eval/Failure — which failures come from where

Each source of failures makes failures of its own kinds only: operators and truth values pass on
what numerals refuse, natives add the console, and the checks of calls and declarations name what
they found.
-/

namespace Radix

theorem ofNumeral_eq_error {α : Type} {x : Except NumeralError α} {e : RunError} :
    ofNumeral x = .error e ↔ ∃ cause, x = .error cause ∧ e = .numeral cause := by
  match x with
  | .ok a => simp [ofNumeral]
  | .error cause => simp [ofNumeral, eq_comm]

theorem ofNumeral_eq_ok {α : Type} {x : Except NumeralError α} {a : α} :
    ofNumeral x = .ok a ↔ x = .ok a := by
  match x with
  | .ok b => simp [ofNumeral]
  | .error cause => simp [ofNumeral]

/-- An operator fails because numerals refuse it or because its operands have no such kinds. -/
theorem Operator.apply_error {op : Operator} {a b : Value} {e : RunError}
    (h : op.apply a b = .error e) :
    (∃ cause, e = .numeral cause) ∨ e = .operands op a.kind b.kind := by
  have refused : ∀ {x : Except NumeralError Value}, ofNumeral x = .error e →
      (∃ cause, e = .numeral cause) ∨ e = .operands op a.kind b.kind := fun hx => by
    obtain ⟨cause, -, rfl⟩ := ofNumeral_eq_error.mp hx
    exact .inl ⟨cause, rfl⟩
  unfold Operator.apply at h
  split at h
  all_goals first
    | exact refused h
    | exact .inr (Except.error.inj h).symm
    | exact absurd h (by simp)

namespace Native

theorem textArg_error {args : List Value} {i : Nat} {e : RunError}
    (h : textArg args i = .error e) : ∃ found, e = .nativeArgument .text found := by
  unfold textArg at h
  split at h
  · exact absurd h (by simp)
  · exact ⟨_, (Except.error.inj h).symm⟩

theorem numeralArg_error {args : List Value} {i : Nat} {e : RunError}
    (h : numeralArg args i = .error e) : ∃ found, e = .nativeArgument .anyBase found := by
  unfold numeralArg at h
  split at h
  · exact absurd h (by simp)
  · exact ⟨_, (Except.error.inj h).symm⟩

/-- The failures of natives: an argument of the wrong kind, a refusal of numerals, or the
console. -/
inductive Failure : RunError → Prop
  | argument {expected found} : Failure (.nativeArgument expected found)
  | numeral {cause} : Failure (.numeral cause)
  | console {cause} : Failure (.console cause)

theorem failure_of_bind {α β : Type} {x : Except RunError α} {f : α → Except RunError β}
    {e : RunError} (hx : ∀ e, x = .error e → Failure e) (hf : ∀ a e, f a = .error e → Failure e)
    (h : x >>= f = .error e) : Failure e := by
  rcases bind_eq_error.mp h with he | ⟨a, -, he⟩
  · exact hx e he
  · exact hf a e he

theorem failure_of_textArg {args : List Value} {i : Nat} (e : RunError)
    (h : textArg args i = .error e) : Failure e := by
  obtain ⟨found, rfl⟩ := textArg_error h
  exact .argument

theorem failure_of_numeralArg {args : List Value} {i : Nat} (e : RunError)
    (h : numeralArg args i = .error e) : Failure e := by
  obtain ⟨found, rfl⟩ := numeralArg_error h
  exact .argument

theorem failure_of_ofNumeral {α : Type} {x : Except NumeralError α} (e : RunError)
    (h : ofNumeral x = .error e) : Failure e := by
  obtain ⟨cause, -, rfl⟩ := ofNumeral_eq_error.mp h
  exact .numeral

theorem failure_of_writing {s : String} {c c' : Console} {e : RunError}
    (h : writing s c = (.error e, c')) : Failure e := by
  unfold writing at h
  split at h
  · exact absurd h (by simp)
  · obtain ⟨rfl, -⟩ : RunError.console _ = e ∧ _ = c' := by simpa using h
    exact .console

/-- **A native fails in no other way.** -/
theorem failure_of_run {n : Native} {args : List Value} {f : Frame} {c c' : Console}
    {e : RunError} (h : n.run args f c = (.error e, c')) : Failure e := by
  match n with
  | .out =>
    simp only [run] at h
    split at h
    · exact failure_of_writing h
    · next e' ht =>
      obtain ⟨rfl, -⟩ : e' = e ∧ c = c' := by simpa using h
      exact failure_of_textArg e' ht
  | .input =>
    simp only [run] at h
    split at h
    · exact absurd h (by simp)
    · obtain ⟨rfl, -⟩ : RunError.console _ = e ∧ _ = c' := by simpa using h
      exact .console
  | .len =>
    exact failure_of_bind failure_of_textArg (fun _ => failure_of_ofNumeral) (Prod.mk.inj h).1
  | .str =>
    exact failure_of_bind failure_of_numeralArg
      (fun _ _ hx => absurd hx (by simp [pure, Except.pure])) (Prod.mk.inj h).1
  | .number =>
    exact failure_of_bind failure_of_textArg (fun _ => failure_of_ofNumeral) (Prod.mk.inj h).1
  | .sqrt =>
    exact failure_of_bind failure_of_numeralArg (fun _ => failure_of_ofNumeral) (Prod.mk.inj h).1
  | .rebase =>
    exact failure_of_bind failure_of_numeralArg
      (fun _ _ => failure_of_bind failure_of_numeralArg fun _ => failure_of_ofNumeral)
      (Prod.mk.inj h).1
  | .funcs => exact failure_of_writing h
  | .wait =>
    simp only [run] at h
    split at h
    · exact absurd h (by simp)
    · next e' hs =>
      obtain ⟨rfl, -⟩ : e' = e ∧ c = c' := by simpa using h
      exact failure_of_bind failure_of_numeralArg (fun _ => failure_of_ofNumeral) hs

end Native

namespace Eval

theorem paramTags_error {params : List Param} {e : RunError}
    (h : paramTags params = .error e) : ∃ word, e = .unknownTag word := by
  induction params with
  | nil => exact absurd h (by simp [paramTags])
  | cons p ps ih =>
    unfold paramTags at h
    split at h
    · exact ⟨_, (Except.error.inj h).symm⟩
    · match hp : paramTags ps with
      | .ok tags => simp [hp, Except.map] at h
      | .error e' =>
        obtain rfl : e' = e := by simpa [hp, Except.map] using h
        exact ih hp

theorem checkTags_error {name : String} {offset position : Nat} {params : List (Tag × String)}
    {values : List Value} {e : RunError}
    (h : checkTags name offset position params values = .error e) :
    ∃ i tag kind, e = .argumentType name i tag kind offset := by
  fun_induction checkTags name offset position params values with
  | case1 position tag _ ps v vs hv ih => exact ih h
  | case2 position tag _ ps v vs hv => exact ⟨position, tag, v.kind, (Except.error.inj h).symm⟩
  | case3 => exact absurd h (by simp)

theorem checkArguments_error {f : Function} {values : List Value} {offset : Nat} {e : RunError}
    (h : checkArguments f values offset = .error e) :
    (e = .argumentCount f.name f.params.length values.length offset) ∨
      ∃ i tag kind, e = .argumentType f.name i tag kind offset := by
  unfold checkArguments at h
  split at h
  · exact .inr (checkTags_error h)
  · exact .inl (Except.error.inj h).symm

end Eval

end Radix
