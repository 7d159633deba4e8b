import Radix.Proofs.Eval.Raise
import Radix.Proofs.Eval.Reachable
import Radix.Proofs.Eval.Refusal
import Radix.Proofs.Read.Written

/-!
# Proofs/WellFormed — well-formed values everywhere

The numerals of a program were written, hence are well formed; operators and native functions give
well-formed values; so a session never comes by any other (`wellFormed_lawful`).  Numerals that are
well formed can always be compared, so what is left of the refusals of numerals is little
(`cause_of_raises`): a negative difference, a division by zero, and what three native functions
refuse.
-/

namespace Radix

/-- Every numeral in the expression is well formed. -/
def Expr.WellFormed (e : Expr) : Prop :=
  e.Everywhere fun y => ∀ x, y = .numeral x → x.WellFormed

theorem Expr.Written.wellFormed {e : Expr} (h : e.Written) : e.WellFormed :=
  h.mono fun _ hy x hx => by
    obtain ⟨base, digits, hd⟩ := hy x hx
    exact Numeral.wellFormed_of_ofDigits hd

/-- The values of the variables, and the numerals in the bodies of the functions, are well
formed. -/
structure Frame.WellFormed (f : Frame) : Prop where
  vars {name v} : f.vars.get? name = some v → v.WellFormed
  bodies {name fn body} : f.functions.get? name = some fn → fn.body = .program body →
    ∀ e ∈ body, e.WellFormed

theorem Frame.initial_wellFormed (source : SourceUnit) : (Frame.initial source).WellFormed where
  vars h := absurd h (by simp [Frame.initial, EmptyCollection.emptyCollection])
  bodies hf hb := absurd hb (Frame.body_of_get?_initial hf)

theorem Frame.WellFormed.bind {f : Frame} (hf : f.WellFormed) {name : String} {v : Value}
    (hv : v.WellFormed) : (f.bind name v).WellFormed where
  vars {k w} h := by
    rw [Frame.bind, Table.get?_insert] at h
    split at h
    · exact Option.some.inj h ▸ hv
    · exact hf.vars h
  bodies := hf.bodies

theorem Frame.WellFormed.declare {f : Frame} (hf : f.WellFormed) {fn : Function}
    (h : ∀ body, fn.body = .program body → ∀ e ∈ body, e.WellFormed) :
    (f.declare fn).WellFormed where
  vars := hf.vars
  bodies {name g body} hg hb := by
    rcases Frame.eq_or_get?_of_declare hg with rfl | hg
    · exact h body hb
    · exact hf.bodies hg hb

theorem Value.Made.wellFormed {v : Value} (h : v.Made) : v.WellFormed := by
  match v with
  | .numeral x =>
    rcases h x rfl with ⟨base, digits, hd⟩ | ⟨base, n, hn⟩
    · exact Numeral.wellFormed_of_ofDigits hd
    · exact Numeral.wellFormed_of_ofNat hn
  | .text _ | .unit => trivial

/-! ## The discipline of well-formed values -/

/-- Expressions, values and frames are well formed; failures and jumps may be any. -/
def wellFormed : Discipline Unit where
  top := ()
  inBranch _ _ := ()
  inLoop _ _ := ()
  expr _ e := e.WellFormed
  value := Value.WellFormed
  state s := s.frame.WellFormed
  failure _ := True
  jump _ _ _ := True

theorem wellFormed_lawful : wellFormed.Lawful where
  text _ hp hm := (Template.written_of_parts hp hm).wellFormed
  assign h := h.assign
  binary h := h.binary
  call h _ he := h.part he
  ret h := h.ret
  branch h := h.branch
  whileLoop h := h.whileLoop
  loop h _ hx := h.part hx
  body hs hf hb := hs.bodies hf hb
  numeral h := h.self _ rfl
  ofBool := Value.ofBool_wellFormed _
  var hs hv := hs.vars hv
  apply _ _ h := Operator.wellFormed_of_apply h
  native _ _ h := Native.wellFormed_of_run h
  bind hs hv := hs.bind hv
  deeper hs := ⟨hs.vars, hs.bodies⟩
  leave hs _ := hs
  declare he _ hs := hs.declare fun body hb => by
    obtain rfl := Body.program.inj hb
    exact fun x hx => he.part hx
  console hs _ _ := hs
  report _ _ hs := hs

theorem Expr.Parsed.wellFormed {e : Expr} (h : e.Parsed) : e.WellFormed := by
  obtain ⟨ts, es, hp, he⟩ := h
  exact (Read.written_of_program hp e he).wellFormed

theorem Reachable.wellFormed {s : State} (hs : Reachable s) : s.frame.WellFormed :=
  Discipline.reachable_keeps (c := ()) wellFormed_lawful
    (fun source _ => Frame.initial_wellFormed source) (fun _ he => he.wellFormed)
    (fun _ hv => hv.wellFormed) (fun _ _ _ hs => ⟨hs.vars, hs.bodies⟩) hs

/-! ## Refusals of numerals -/

/-- **What numerals refuse in a well-formed evaluation:** a difference that would be negative, a
division by zero, or a native function that is known to be refused. -/
theorem cause_of_raises {m : Nat} {x : Expr} {t : State} {cause : NumeralError}
    (hx : x.WellFormed) (ht : t.frame.WellFormed)
    (h : Eval.Raises m (Expr.eval m) x t (.numeral cause)) :
    (cause = .negative ∨ cause = .divisionByZero) ∨
      ∃ n f vs u console, x.Runs (m + 1) t f vs u ∧ f.body = .native n ∧
        n.run vs u.frame u.console = (.error (.numeral cause), console) ∧ n.Refuses cause := by
  have keeps := Discipline.eval_keeps wellFormed_lawful m
  have value : ∀ {y : Expr} {s u : State} {v : Value}, y ∈ x.parts → s.frame.WellFormed →
      y.eval m s = .done v u → v.WellFormed ∧ u.frame.WellFormed := fun hy hs hd =>
    keeps.done (c := ()) (hx.part hy) hs hd
  have untrue : ∀ {v : Value}, v.WellFormed → v.truth ≠ .error cause := fun hv =>
    ne_error_of_ok hv.truth_ok
  generalize he : RunError.numeral cause = err at h
  match h with
  | .unread _ | .unknownVariable _ | .unknownFunction _ _ | .tooDeep _ _ _ =>
    exact absurd he (by simp)
  | .refused hl hr ha =>
    subst he
    obtain ⟨hv, hs⟩ := value (by simp [Expr.parts]) ht hl
    obtain ⟨hw, -⟩ := value (by simp [Expr.parts]) hs hr
    exact .inl (Operator.apply_numeral_error hv hw ha)
  | .untrueLeft hl hb =>
    obtain rfl := RunError.numeral.inj he
    exact absurd hb (untrue (value (by simp [Expr.parts]) ht hl).1)
  | .untrueRight hl hr hb =>
    obtain rfl := RunError.numeral.inj he
    have hs := (value (by simp [Expr.parts]) ht hl).2
    exact absurd hb (untrue (value (by simp [Expr.parts]) hs hr).1)
  | .untrueCondition hc hb =>
    obtain rfl := RunError.numeral.inj he
    exact absurd hb (untrue (value (by simp [Expr.parts]) ht hc).1)
  | .untrueTurn hg _ hc hb =>
    obtain rfl := RunError.numeral.inj he
    obtain ⟨hcond, hbody⟩ := wellFormed_lawful.whileLoop (c := ()) hx
    have hs := Discipline.goes_keep
      (fun _ => Discipline.turn_keeps wellFormed_lawful keeps hcond hbody) hg ht
    exact absurd hb (untrue (value (by simp [Expr.parts]) hs hc).1)
  | .arguments _ _ hc =>
    rcases Eval.checkArguments_error hc with rfl | ⟨i, tag, kind, rfl⟩ <;> exact absurd he (by simp)
  | .native ha hb hr =>
    subst he
    have hm := Discipline.all_keeps keeps (wellFormed_lawful.call (c := ()) hx) ht
    rw [ha.values] at hm
    exact .inr ⟨_, _, _, _, _, ⟨m, _, _, _, t, .here, ha⟩, hb, hr, Native.refuses_of_run hm.1 hr⟩
  | .unknownTag hp =>
    obtain ⟨word, rfl⟩ := Eval.paramTags_error hp
    exact absurd he (by simp)

theorem Expr.Runs.of_visits {n m : Nat} {e x : Expr} {s t u : State} {f : Function}
    {vs : List Value} (hv : e.Visits n s m x t) (h : x.Runs m t f vs u) : e.Runs n s f vs u := by
  obtain ⟨k, name, args, offset, w, hx, ha⟩ := h
  exact ⟨k, name, args, offset, w, hv.trans hx, ha⟩

/-- The evaluation of `e` comes to run the native function, which fails. -/
def Expr.RunsNative (n : Nat) (e : Expr) (s : State) (native : Native) (err : RunError) : Prop :=
  ∃ f vs t console, e.Runs n s f vs t ∧ f.body = .native native ∧
    native.run vs t.frame t.console = (.error err, console)

/-- A failure with one of the other refusals was raised by a native function that is known to be
refused so. -/
theorem refuses_of_unrecovered {m : Nat} {x : Expr} {t u : State} {cause : NumeralError}
    (hx : x.WellFormed) (ht : t.frame.WellFormed)
    (h : Eval.unrecovered m (Expr.eval m) x t = .exit (.failed (.numeral cause)) u) :
    (cause = .negative ∨ cause = .divisionByZero) ∨
      ∃ n : Native, n.Refuses cause ∧ x.RunsNative (m + 1) t n (.numeral cause) := by
  obtain ⟨k, y, w, hv, hr⟩ := Expr.raises_of_unrecovered h
  obtain ⟨_, hy, hw⟩ := Discipline.visits_keep (c := ()) wellFormed_lawful hv hx ht
  rcases cause_of_raises hy hw hr with hc | ⟨n, f, vs, z, console, hf, hb, hn, href⟩
  · exact .inl hc
  · exact .inr ⟨n, href, f, vs, z, console, hf.of_visits hv, hb, hn⟩

/-- **Well-formed values everywhere.**  In a state that a session can come to, the variables and the
bodies of the functions are well formed.  While a statement that was read is evaluated there, every
expression and frame that the evaluation comes by and every value it produces is well formed, so the
values of numerals can be read off and compared and every value is true or false.  And where one of
these expressions fails because a digit is not of the base or there are no digits, it came to run
`number`, which failed so; where it fails because a base is out of range, `rebase`. -/
theorem reachable_values_wellFormed {s : State} (hs : Reachable s) :
    s.frame.WellFormed ∧ ∀ (n : Nat) (e : Expr), e.Parsed →
      (∀ m x t, e.Visits n s m x t → x.WellFormed ∧ t.frame.WellFormed) ∧
      (∀ v, e.Produces n s v → v.WellFormed ∧ ∃ b, v.truth = .ok b) ∧
      (∀ x y, e.Produces n s (.numeral x) → e.Produces n s (.numeral y) →
        (∃ k, x.toNat = .ok k) ∧ (∃ b, x.isNonzero = .ok b) ∧ (∃ b, x.sameNumber y = .ok b) ∧
          ∃ o, x.order y = .ok o) ∧
      ∀ m x t err u, e.Visits n s (m + 1) x t →
        Eval.unrecovered m (Expr.eval m) x t = .exit (.failed err) u →
        (∀ c base, err = .numeral (.invalidDigit c base) → x.RunsNative (m + 1) t .number err) ∧
        (∀ base, err = .numeral (.noDigits base) → x.RunsNative (m + 1) t .number err) ∧
        ∀ base, err = .numeral (.baseOutOfRange base) → x.RunsNative (m + 1) t .rebase err := by
  have hf := hs.wellFormed
  refine ⟨hf, fun n e he => ?_⟩
  have produced : ∀ v, e.Produces n s v → v.WellFormed := fun v hv =>
    Discipline.produces_keep (c := ()) wellFormed_lawful hv he.wellFormed hf
  have visited : ∀ m x t, e.Visits n s m x t → x.WellFormed ∧ t.frame.WellFormed := by
    intro m x t hv
    obtain ⟨_, hx, ht⟩ := Discipline.visits_keep (c := ()) wellFormed_lawful hv he.wellFormed hf
    exact ⟨hx, ht⟩
  refine ⟨visited, fun v hv => ⟨produced v hv, (produced v hv).truth_ok⟩, fun x y hx hy => ?_, ?_⟩
  · have hx : x.WellFormed := produced _ hx
    have hy : y.WellFormed := produced _ hy
    exact ⟨hx.toNat_ok, hx.isNonzero_ok, hx.sameNumber_ok hy, hx.order_ok hy⟩
  · intro m x t err u hv h
    obtain ⟨hx, ht⟩ := visited _ x t hv
    have raised : ∀ cause, err = .numeral cause → cause ≠ .negative → cause ≠ .divisionByZero →
        ∃ native : Native, native.Refuses cause ∧ x.RunsNative (m + 1) t native err := by
      rintro cause rfl hn hd
      rcases refuses_of_unrecovered hx ht h with (hc | hc) | hr
      · exact absurd hc hn
      · exact absurd hc hd
      · exact hr
    refine ⟨fun c base hc => ?_, fun base hc => ?_, fun base hc => ?_⟩
    · obtain ⟨native, href, hr⟩ := raised _ hc (by simp) (by simp)
      match native, href with
      | .number, .digit => exact hr
    · obtain ⟨native, href, hr⟩ := raised _ hc (by simp) (by simp)
      match native, href with
      | .number, .empty => exact hr
    · obtain ⟨native, href, hr⟩ := raised _ hc (by simp) (by simp)
      match native, href with
      | .rebase, .base => exact hr

/-! ## A refusal that an operator reports -/

/-- The state in which `x` is bound to a numeral of base 16. -/
def hexState : State where
  frame := (Frame.initial ⟨[], "", ""⟩).bind "x" (.numeral ⟨16, ['f', 'f']⟩)
  console := { feed := .script [] }

/-- The tokens of `1 + rebase(x, b64@11)`, whose second argument stands for 65. -/
def rebasingTokens : List Token :=
  [⟨.number ['1'], 0⟩, ⟨.operator .add, 2⟩, ⟨.name "rebase", 4⟩, ⟨.mark .openParen, 10⟩,
   ⟨.name "x", 11⟩, ⟨.mark .comma, 12⟩, ⟨.based 64 ['1', '1'], 14⟩, ⟨.mark .closeParen, 20⟩,
   ⟨.stop, 21⟩]

/-- The statement that these tokens stand for. -/
def rebasing : Expr :=
  .binary .add (.numeral ⟨10, ['1']⟩)
    (.call "rebase" [.var "x", .numeral ⟨64, ['1', '1']⟩] 4) (some 2)

theorem hexState_reachable : Reachable hexState := by
  refine .bound .start fun x hx => .inl ⟨16, ['F', 'F'], ?_⟩
  obtain rfl := Value.numeral.inj hx
  rfl

theorem rebasing_parsed : rebasing.Parsed :=
  ⟨rebasingTokens, [rebasing], by with_unfolding_all rfl, by simp⟩

theorem rebasing_runs_rebase :
    Reachable hexState ∧ rebasing.Parsed ∧
    Eval.unrecovered 5 (Expr.eval 5) rebasing hexState =
      .exit (.failed (.numeral (.baseOutOfRange 65))) hexState ∧
    hexState.frame.WellFormed ∧
    rebasing.RunsNative 6 hexState .rebase (.numeral (.baseOutOfRange 65)) := by
  have fails : Eval.unrecovered 5 (Expr.eval 5) rebasing hexState =
      .exit (.failed (.numeral (.baseOutOfRange 65))) hexState := rfl
  obtain ⟨hf, h⟩ := reachable_values_wellFormed hexState_reachable
  obtain ⟨-, -, -, refusals⟩ := h 6 rebasing rebasing_parsed
  exact ⟨hexState_reachable, rebasing_parsed, fails, hf,
    (refusals 5 rebasing hexState _ _ .here fails).2.2 65 rfl⟩

end Radix
