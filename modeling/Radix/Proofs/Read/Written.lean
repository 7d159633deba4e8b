import Radix.Proofs.Numeral.Written
import Radix.Proofs.Read.Made
import Radix.Template

/-!
# Proofs/Read/Written — every numeral of a program was written

The readers make numerals from written digits only, so in a program that was read every numeral is
one that some digits stand for (`Read.written_of_program`).  The same holds of the expressions
inside texts, which are read when a text is evaluated (`Template.written_of_parts`).
-/

namespace Radix

/-- Every numeral in the expression is written. -/
def Expr.Written (e : Expr) : Prop := e.Everywhere fun y => ∀ x, y = .numeral x → x.Written

instance : DecidablePred fun y : Expr => ∀ x, y = .numeral x → x.Written
  | .numeral x =>
    decidable_of_iff x.Written ⟨fun h _ he => Expr.numeral.inj he ▸ h, fun h => h x rfl⟩
  | .text _ _ | .var _ | .assign _ _ | .binary _ _ _ _ | .call _ _ _ | .ret _ _ | .branch _ _ _ _
  | .whileLoop _ _ _ | .loop _ _ | .breakTo _ | .continueTo _ | .function _ _ _ _ => isTrue nofun

instance (e : Expr) : Decidable e.Written := inferInstanceAs (Decidable (e.Everywhere _))

namespace Read

theorem makes_written :
    Makes (fun _ => True) fun y => ∀ x, y = .numeral x → x.Written where
  number _ hx _ he := Expr.numeral.inj he ▸ ⟨_, _, hx⟩
  based _ hx _ he := Expr.numeral.inj he ▸ ⟨_, _, hx⟩
  text _ := nofun
  var := nofun
  assign := nofun
  binary _ := nofun
  call _ := nofun
  ret _ := nofun
  breakTo := nofun
  continueTo := nofun
  branch _ := nofun
  whileLoop _ := nofun
  loop _ := nofun
  function _ := nofun

/-- **A program that was read is written.** -/
theorem written_of_program {ts : List Token} {es : Program} (h : program ts = .ok es) :
    ∀ e ∈ es, e.Written :=
  made_of_program makes_written h fun _ _ => trivial

end Read

namespace Template

theorem mem_prepend {c : Char} {ps : List Part} {e : Expr} :
    .expr e ∈ prepend c ps ↔ .expr e ∈ ps := by
  unfold prepend
  split <;> simp

/-- The expression of an interpolation is the only statement of a program that was read. -/
theorem program_of_interpolation {quoted : QuotedText} {offset i : Nat} {inner : List Char}
    {e : Expr} (h : interpolation quoted offset i inner = .ok e) :
    ∃ ts, Read.program ts = .ok [e] := by
  obtain ⟨ts, -, h⟩ := bind_eq_ok.mp h
  obtain ⟨es, hes, h⟩ := bind_eq_ok.mp h
  refine ⟨ts, ?_⟩
  match es, h with
  | [x], h => rw [hes, Except.ok.inj h]

theorem program_of_partsFrom {quoted : QuotedText} {offset i : Nat} {cs : List Char}
    {ps : List Part} {e : Expr} (h : partsFrom quoted offset i cs = .ok ps) (he : .expr e ∈ ps) :
    ∃ ts, Read.program ts = .ok [e] := by
  fun_induction partsFrom quoted offset i cs generalizing ps with
  | case1 =>
    obtain rfl := Except.ok.inj h
    exact absurd he (by simp)
  | case2 i cs inner hlen =>
    rename_i ih
    obtain ⟨x, hx, h⟩ := bind_eq_ok.mp h
    obtain ⟨qs, hqs, h⟩ := bind_eq_ok.mp h
    obtain rfl := Except.ok.inj h
    rcases List.mem_cons.mp he with heq | he
    · obtain rfl := Part.expr.inj heq
      exact program_of_interpolation hx
    · exact ih hqs he
  | case3 => exact absurd h (by simp [throw, throwThe, MonadExceptOf.throw])
  | case4 i c cs hc ih | case5 i c cs hc ih | case6 i c cs _ _ ih =>
    obtain ⟨qs, hqs, h⟩ := bind_eq_ok.mp h
    obtain rfl := Except.ok.inj h
    exact ih hqs (mem_prepend.mp he)

/-- So is every expression of a text. -/
theorem program_of_parts {quoted : QuotedText} {offset : Nat} {ps : List Part} {e : Expr}
    (h : parts quoted offset = .ok ps) (he : .expr e ∈ ps) : ∃ ts, Read.program ts = .ok [e] :=
  program_of_partsFrom h he

/-- **The expressions inside a text are written.** -/
theorem written_of_parts {quoted : QuotedText} {offset : Nat} {ps : List Part} {e : Expr}
    (h : parts quoted offset = .ok ps) (he : .expr e ∈ ps) : e.Written := by
  obtain ⟨ts, hts⟩ := program_of_parts h he
  exact Read.written_of_program hts e (by simp)

end Template

end Radix
