import Radix.Proofs.Eval.Failure
import Radix.Proofs.Numeral.WellFormed

/-!
# Proofs/Eval/Refusal — operators and natives on well-formed values

On well-formed values operators and natives give well-formed values.  Where numerals refuse, it is
for a reason that well-formed operands still leave: for operators a difference below zero or a
divisor of zero (`Operator.apply_numeral_error`), and for natives one that each names for itself
(`Native.Refuses`).
-/

namespace Radix

/-! ## Operators -/

theorem Value.WellFormed.truth_ok {v : Value} (h : v.WellFormed) : ∃ b, v.truth = .ok b :=
  match v with
  | .numeral _ => Numeral.WellFormed.isNonzero_ok h
  | .text s => ⟨!s.isEmpty, rfl⟩
  | .unit => ⟨false, rfl⟩

theorem Value.ofBool_wellFormed (b : Bool) : (Value.ofBool b).WellFormed := by
  obtain ⟨x, hx⟩ := Numeral.ofNat_ok (by decide : IsBase 10) b.toNat
  have h := Value.ofBool_eq_ofNat b
  rw [hx] at h
  rw [← Except.ok.inj h]
  exact Numeral.wellFormed_of_ofNat hx

/-- A numeral that is given is the value that is given. -/
theorem Value.wellFormed_of_map {x : Except NumeralError Numeral} {v : Value}
    (hx : ∀ z, x = .ok z → z.WellFormed) (h : ofNumeral (x.map .numeral) = .ok v) :
    v.WellFormed := by
  match x with
  | .error e => simp [Except.map, ofNumeral] at h
  | .ok z =>
    obtain rfl : Value.numeral z = v := by simpa [Except.map, ofNumeral] using h
    exact hx z rfl

theorem Value.wellFormed_of_bool {α : Type} {x : Except NumeralError α} {f : α → Bool} {v : Value}
    (h : ofNumeral (x.map fun a => .ofBool (f a)) = .ok v) : v.WellFormed := by
  match x with
  | .error e => simp [Except.map, ofNumeral] at h
  | .ok a =>
    obtain rfl : Value.ofBool (f a) = v := by simpa [Except.map, ofNumeral] using h
    exact ofBool_wellFormed _

theorem Value.wellFormed_of_and {x y : Except NumeralError Bool} {v : Value}
    (h : ofNumeral (do if ← x then return .ofBool (← y) else return .ofBool false) = .ok v) :
    v.WellFormed := by
  match x, y, ofNumeral_eq_ok.mp h with
  | .ok true, .ok b, h =>
    obtain rfl := Except.ok.inj h
    exact ofBool_wellFormed b
  | .ok false, _, h =>
    obtain rfl := Except.ok.inj h
    exact ofBool_wellFormed false

theorem Value.wellFormed_of_or {x y : Except NumeralError Bool} {v : Value}
    (h : ofNumeral (do if ← x then return .ofBool true else return .ofBool (← y)) = .ok v) :
    v.WellFormed := by
  match x, y, ofNumeral_eq_ok.mp h with
  | .ok false, .ok b, h =>
    obtain rfl := Except.ok.inj h
    exact ofBool_wellFormed b
  | .ok true, _, h =>
    obtain rfl := Except.ok.inj h
    exact ofBool_wellFormed true

/-- **Operators give well-formed values.** -/
theorem Operator.wellFormed_of_apply {op : Operator} {a b v : Value}
    (h : op.apply a b = .ok v) : v.WellFormed := by
  unfold Operator.apply at h
  split at h
  all_goals first
    | exact Value.wellFormed_of_map (fun _ => Numeral.wellFormed_of_combine) h
    | exact Value.wellFormed_of_bool h
    | exact Value.wellFormed_of_and h
    | exact Value.wellFormed_of_or h
    | (obtain rfl := Except.ok.inj h
       first | trivial | exact Value.ofBool_wellFormed _)
    | exact absurd h (by simp)

theorem error_of_map {α β : Type} {x : Except NumeralError α} {f : α → β} {e : NumeralError}
    (h : ofNumeral (x.map f) = .error (.numeral e)) : x = .error e := by
  match x, ofNumeral_eq_error.mp h with
  | .error e', ⟨_, rfl, he⟩ => rw [RunError.numeral.inj he]

/-- On well-formed operands the numerals refuse an operator only because a difference would be
negative or a divisor is zero. -/
theorem Operator.apply_numeral_error {op : Operator} {a b : Value} {e : NumeralError}
    (ha : a.WellFormed) (hb : b.WellFormed) (h : op.apply a b = .error (.numeral e)) :
    e = .negative ∨ e = .divisionByZero := by
  obtain ⟨x, hx⟩ := ha.truth_ok
  obtain ⟨y, hy⟩ := hb.truth_ok
  unfold Operator.apply at h
  split at h
  all_goals first
    | exact .inl (ha.sub_error hb (error_of_map h))
    | exact .inr (ha.div_error hb (error_of_map h))
    | exact absurd (error_of_map h) (ne_error_of_ok (ha.add_ok hb))
    | exact absurd (error_of_map h) (ne_error_of_ok (ha.mul_ok hb))
    | exact absurd (error_of_map h) (ne_error_of_ok (ha.sameNumber_ok hb))
    | exact absurd (error_of_map h) (ne_error_of_ok (ha.order_ok hb))
    | (obtain ⟨cause, he, -⟩ := ofNumeral_eq_error.mp h
       rw [hx, hy] at he
       match x, he with
       | true, he => exact absurd he (by simp [bind, Except.bind, pure, Except.pure])
       | false, he => exact absurd he (by simp [bind, Except.bind, pure, Except.pure]))
    | exact absurd h (by simp)

/-! ## Native functions -/

namespace Native

theorem wellFormed_of_rebased {args : List Value} {v : Value} (h : rebased args = .ok v) :
    v.WellFormed := by
  obtain ⟨x, -, h⟩ := bind_eq_ok.mp h
  obtain ⟨y, -, h⟩ := bind_eq_ok.mp h
  rw [ofNumeral_eq_ok] at h
  obtain ⟨n, -, h⟩ := bind_eq_ok.mp h
  obtain ⟨base, -, h⟩ := bind_eq_ok.mp h
  obtain ⟨z, hz, h⟩ := bind_eq_ok.mp h
  obtain rfl := Except.ok.inj h
  exact Numeral.wellFormed_of_rebase hz

/-- **Native functions give well-formed values.** -/
theorem wellFormed_of_run {n : Native} {args : List Value} {f : Frame} {c c' : Console}
    {v : Value} (h : n.run args f c = (.ok v, c')) : v.WellFormed := by
  have written : ∀ {s : String}, writing s c = (.ok v, c') → v.WellFormed := by
    intro s hw
    unfold writing at hw
    split at hw
    · obtain ⟨rfl, -⟩ : Value.unit = v ∧ _ = c' := by simpa using hw
      trivial
    · exact absurd hw (by simp)
  match n with
  | .out =>
    simp only [run] at h
    split at h
    · exact written h
    · exact absurd h (by simp)
  | .input =>
    simp only [run] at h
    split at h
    · obtain ⟨rfl, -⟩ : Value.text _ = v ∧ _ = c' := by simpa using h
      trivial
    · exact absurd h (by simp)
  | .len =>
    obtain ⟨s, -, hs⟩ := bind_eq_ok.mp (Prod.mk.inj h).1
    exact Value.wellFormed_of_map (fun _ => Numeral.wellFormed_of_ofNat) hs
  | .str =>
    obtain ⟨x, -, hx⟩ := bind_eq_ok.mp (Prod.mk.inj h).1
    obtain rfl := Except.ok.inj hx
    trivial
  | .number =>
    obtain ⟨s, -, hs⟩ := bind_eq_ok.mp (Prod.mk.inj h).1
    exact Value.wellFormed_of_map (fun _ => Numeral.wellFormed_of_ofDigits) hs
  | .sqrt =>
    obtain ⟨x, -, hx⟩ := bind_eq_ok.mp (Prod.mk.inj h).1
    exact Value.wellFormed_of_map (fun _ => Numeral.wellFormed_of_sqrt) hx
  | .rebase => exact wellFormed_of_rebased (Prod.mk.inj h).1
  | .funcs => exact written h
  | .wait =>
    simp only [run] at h
    split at h
    · obtain ⟨rfl, -⟩ : Value.unit = v ∧ _ = c' := by simpa using h
      trivial
    · exact absurd h (by simp)

/-- What the numerals of well-formed arguments can refuse a native function. -/
inductive Refuses : Native → NumeralError → Prop
  | digit {c} : Refuses .number (.invalidDigit c 10)
  | empty : Refuses .number (.noDigits 10)
  | base {b} : Refuses .rebase (.baseOutOfRange b)
  | overflow : Refuses .wait .overflow

theorem numeralArg_wellFormed {args : List Value} (ha : ∀ v ∈ args, v.WellFormed) {i : Nat}
    {x : Numeral} (h : numeralArg args i = .ok x) : x.WellFormed := by
  unfold numeralArg at h
  split at h
  · next y hy =>
    obtain rfl := Except.ok.inj h
    exact ha _ (List.mem_of_getElem? hy)
  · exact absurd h (by simp)

/-- A refusal does not come from the check of an argument. -/
theorem refusal_of_bind {α β : Type} {x : Except RunError α} {f : α → Except RunError β}
    {e : NumeralError} (hx : ∀ e', x = .error e' → ∃ tag found, e' = .nativeArgument tag found)
    (h : x >>= f = .error (.numeral e)) : ∃ a, x = .ok a ∧ f a = .error (.numeral e) := by
  rcases bind_eq_error.mp h with he | ha
  · obtain ⟨tag, found, heq⟩ := hx _ he
    exact absurd heq (by simp)
  · exact ha

theorem refuses_of_rebased {args : List Value} (ha : ∀ v ∈ args, v.WellFormed) {e : NumeralError}
    (h : rebased args = .error (.numeral e)) : ∃ b, e = .baseOutOfRange b := by
  obtain ⟨x, hx, h⟩ := refusal_of_bind (fun _ he => ⟨_, numeralArg_error he⟩) h
  obtain ⟨y, hy, h⟩ := refusal_of_bind (fun _ he => ⟨_, numeralArg_error he⟩) h
  obtain ⟨n, hn⟩ := (numeralArg_wellFormed ha hy).toNat_ok
  obtain ⟨e', h, he⟩ := ofNumeral_eq_error.mp h
  obtain rfl := RunError.numeral.inj he
  simp only [hn, bind, Except.bind] at h
  match hb : checkBase n with
  | .error e' =>
    obtain rfl : e' = e := by simpa [hb] using h
    exact ⟨n, (checkBase_eq_error.mp hb).2⟩
  | .ok base =>
    obtain ⟨hbase, rfl⟩ := checkBase_eq_ok.mp hb
    obtain ⟨z, hz⟩ := (numeralArg_wellFormed ha hx).rebase_ok hbase
    simp [hb, hz, pure, Except.pure] at h

theorem refuses_of_secondsOf {args : List Value} (ha : ∀ v ∈ args, v.WellFormed)
    {e : NumeralError} (h : secondsOf args = .error (.numeral e)) : e = .overflow := by
  obtain ⟨x, hx, h⟩ := refusal_of_bind (fun _ he => ⟨_, numeralArg_error he⟩) h
  obtain ⟨n, hn⟩ := (numeralArg_wellFormed ha hx).toNat_ok
  obtain ⟨e', h, he⟩ := ofNumeral_eq_error.mp h
  obtain rfl := RunError.numeral.inj he
  simp only [hn, bind, Except.bind, checkWord] at h
  split at h
  · exact absurd h (by simp)
  · exact (Except.error.inj h).symm

theorem writing_ne_refusal {s : String} {c c' : Console} {e : NumeralError} :
    writing s c ≠ (.error (.numeral e), c') := by
  unfold writing
  split <;> simp

/-- **On well-formed arguments only three natives are refused by numerals.** -/
theorem refuses_of_run {n : Native} {args : List Value} {f : Frame} {c c' : Console}
    {e : NumeralError} (ha : ∀ v ∈ args, v.WellFormed)
    (h : n.run args f c = (.error (.numeral e), c')) : Refuses n e := by
  have text : ∀ e', textArg args 0 = .error e' → ∃ tag found, e' = .nativeArgument tag found :=
    fun _ he => ⟨_, textArg_error he⟩
  have numeral : ∀ e', numeralArg args 0 = .error e' →
      ∃ tag found, e' = .nativeArgument tag found := fun _ he => ⟨_, numeralArg_error he⟩
  match n with
  | .out =>
    simp only [run] at h
    split at h
    · exact absurd h writing_ne_refusal
    · next e' he =>
      obtain ⟨tag, found, rfl⟩ := text e' he
      exact absurd h (by simp)
  | .input =>
    simp only [run] at h
    split at h <;> exact absurd h (by simp)
  | .len =>
    obtain ⟨s, -, hs⟩ := refusal_of_bind text (Prod.mk.inj h).1
    exact absurd (error_of_map hs) (ne_error_of_ok (Numeral.ofNat_ok (by decide) _))
  | .str =>
    obtain ⟨x, -, hx⟩ := refusal_of_bind numeral (Prod.mk.inj h).1
    exact absurd hx (by simp [pure, Except.pure])
  | .number =>
    obtain ⟨s, -, hs⟩ := refusal_of_bind text (Prod.mk.inj h).1
    rcases Numeral.ofDigits_error (by decide) (error_of_map hs) with rfl | ⟨c, rfl⟩
    · exact .empty
    · exact .digit
  | .sqrt =>
    obtain ⟨x, hx, hs⟩ := refusal_of_bind numeral (Prod.mk.inj h).1
    exact absurd (error_of_map hs) (ne_error_of_ok (numeralArg_wellFormed ha hx).sqrt_ok)
  | .rebase =>
    obtain ⟨b, rfl⟩ := refuses_of_rebased ha (Prod.mk.inj h).1
    exact .base
  | .funcs => exact absurd h writing_ne_refusal
  | .wait =>
    simp only [run] at h
    split at h
    · exact absurd h (by simp)
    · next e' he =>
      obtain ⟨rfl, -⟩ : e' = .numeral e ∧ c = c' := by simpa using h
      obtain rfl := refuses_of_secondsOf ha he
      exact .overflow

end Native

end Radix
