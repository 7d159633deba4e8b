import Radix.Proofs.Template.Split

/-!
# Proofs/Template/Flat — what can stand in an interpolation

An interpolation ends at the first closing brace.  So no block stands in it, and with it no
conditional, no loop and no declaration (`flat_of_parts`), and the texts in it have no closing brace
either (`closeBrace_of_nested`): where one of their braces opens, it is left open
(`leftOpen_of_no_close`), and they have no interpolations themselves (`parts_of_nested`).
-/

namespace Radix

/-- Is the expression, apart from what it is made of, none with a block? -/
def Expr.isFlat : Expr → Bool
  | .branch _ _ _ _ | .whileLoop _ _ _ | .loop _ _ | .function _ _ _ _ => false
  | _ => true

/-- There is no block in the expression. -/
def Expr.Flat (e : Expr) : Prop := e.Everywhere (·.isFlat = true)

theorem Read.makes_flat : Makes (·.lexeme ≠ .mark .closeBrace) (·.isFlat = true) where
  number _ _ := rfl
  based _ _ := rfl
  text _ := rfl
  var := rfl
  assign := rfl
  binary _ := rfl
  call _ := rfl
  ret _ := rfl
  breakTo := rfl
  continueTo := rfl
  branch h := absurd rfl h
  whileLoop h := absurd rfl h
  loop h := absurd rfl h
  function h := absurd rfl h

theorem closeBrace_of_tokenize {cs : List Char} {ts : List Token} (hcs : '\x7d' ∉ cs)
    (hts : tokenize cs = .ok ts) : ∀ t ∈ ts, t.lexeme ≠ .mark .closeBrace := by
  intro t ht hl
  obtain ⟨w, us, hdrop, hw⟩ := spelled_of_tokenize hts ht (by simp [hl])
  rw [hl] at hw
  cases hw with
  | mark =>
    refine hcs (List.mem_of_mem_drop (i := t.offset) ?_)
    rw [hdrop]
    exact List.mem_append_left us (by decide)

namespace Template

variable {q : QuotedText} {o : Nat} {ps : List Part} {e : Expr}

/-- An expression in a text was read from characters without a closing brace. -/
theorem interpolation_of_parts (h : parts q o = .ok ps) (he : .expr e ∈ ps) :
    ∃ i inner, '\x7d' ∉ inner ∧ interpolation q o i inner = .ok e := by
  obtain ⟨m, inner, ⟨rest, -, hinner⟩, hx⟩ := (splits_partsFrom q o 0 q.chars).opens h he
  exact ⟨_, inner, hinner, hx⟩

/-- **No block stands in an interpolation.** -/
theorem flat_of_parts (h : parts q o = .ok ps) (he : .expr e ∈ ps) : e.Flat := by
  obtain ⟨i, inner, hinner, hx⟩ := interpolation_of_parts h he
  obtain ⟨us, hus, hprogram⟩ := interpolation_eq_ok hx
  have noClose := closeBrace_of_tokenize hinner hus
  refine Read.made_of_program Read.makes_flat hprogram (fun t ht => ?_) e (by simp)
  obtain ⟨u, hu, rfl⟩ := List.mem_map.mp ht
  exact noClose u hu

/-- No closing brace stands in the texts of an interpolation. -/
theorem closeBrace_of_nested (h : parts q o = .ok ps) (he : .expr e ∈ ps) :
    e.Texts fun q' _ => '\x7d' ∉ q'.chars := by
  obtain ⟨i, inner, hinner, hx⟩ := interpolation_of_parts h he
  refine (texts_of_interpolation hx).mono fun y hy q' o' heq => ?_
  obtain ⟨ts, k, hts, hk, -⟩ := hy q' o' heq
  exact not_mem_chars_of_tokenize hinner hts hk

/-- A text without a closing brace has no interpolations. -/
theorem not_expr_of_parts (hq : '\x7d' ∉ q.chars) (h : parts q o = .ok ps) (e : Expr) :
    .expr e ∉ ps := by
  intro he
  obtain ⟨m, inner, hopens, -⟩ := (splits_partsFrom q o 0 q.chars).opens h he
  exact hq hopens.mem

/-- If it is refused, then for a brace that it leaves open. -/
theorem leftOpen_of_no_close {err : ReadError} (hq : '\x7d' ∉ q.chars)
    (h : parts q o = .error err) :
    ∃ m, LeftOpen q.chars m ∧ err = ⟨.unclosedInterpolation, o + q.place m⟩ := by
  rcases (splits_partsFrom q o 0 q.chars).fault h with ⟨m, hm, he⟩ | ⟨m, inner, hopens, -⟩
  · exact ⟨m, hm, by rw [he, Nat.zero_add]⟩
  · exact absurd hopens.mem hq

/-- **A text in an interpolation has no interpolations.** -/
theorem parts_of_nested (h : parts q o = .ok ps) (he : .expr e ∈ ps) :
    e.Texts fun q' o' => ∀ ps' y, parts q' o' = .ok ps' → .expr y ∉ ps' :=
  (closeBrace_of_nested h he).mono fun _ hy q' o' heq _ y hps' =>
    not_expr_of_parts (hy q' o' heq) hps' y

/-- **Interpolations hold no blocks and do not nest.**  No conditional, no loop and no declaration
stands anywhere in an expression of a text.  A text that stands in one is split without an
expression, or refused for a brace that it leaves open, whatever its offset. -/
theorem interpolations_are_flat (h : parts q o = .ok ps) (he : .expr e ∈ ps) :
    e.Flat ∧ e.Texts fun q' _ => ∀ o',
      (∃ m, LeftOpen q'.chars m ∧
        parts q' o' = .error ⟨.unclosedInterpolation, o' + q'.place m⟩) ∨
      ∃ ps', parts q' o' = .ok ps' ∧ ∀ y, .expr y ∉ ps' := by
  refine ⟨flat_of_parts h he, (closeBrace_of_nested h he).mono fun y hy q' o'' heq o' => ?_⟩
  have noClose := hy q' o'' heq
  cases hps' : parts q' o' with
  | error err =>
    obtain ⟨m, hm, rfl⟩ := leftOpen_of_no_close noClose hps'
    exact .inl ⟨m, hm, rfl⟩
  | ok ps' => exact .inr ⟨ps', rfl, not_expr_of_parts noClose hps'⟩

/-- A text with two others in its interpolation; the first of them leaves a brace open. -/
def textOfTexts : QuotedText := .plain "v\x7bf(\"a\x7b\", \"b\") && ret x\x7d".toList

def exprOfTexts : Expr :=
  .binary .and (.call "f" [.text (.plain ['a', '\x7b']) 12, .text (.plain ['b']) 18] 10)
    (.ret (.var "x") 26) (some 23)

theorem textOfTexts_is_flat :
    parts textOfTexts 7 = .ok [.chars ['v'], .expr exprOfTexts] ∧ exprOfTexts.Flat ∧
    exprOfTexts.Texts fun q' _ => ∀ o',
      (∃ m, LeftOpen q'.chars m ∧
        parts q' o' = .error ⟨.unclosedInterpolation, o' + q'.place m⟩) ∨
      ∃ ps', parts q' o' = .ok ps' ∧ ∀ y, .expr y ∉ ps' := by
  have split : parts textOfTexts 7 = .ok [.chars ['v'], .expr exprOfTexts] := by
    with_unfolding_all rfl
  exact ⟨split, interpolations_are_flat split (by simp)⟩

end Template

/-- What holds of an expression whenever it holds of its parts and of the expressions in its
interpolations, holds of every expression. -/
theorem Expr.interpolation_induction {motive : Expr → Prop}
    (step : ∀ e, (∀ x ∈ e.parts, motive x) → (∀ q o ps x, e = .text q o →
      Template.parts q o = .ok ps → .expr x ∈ ps → motive x) → motive e) (e : Expr) :
    motive e := by
  -- Inside an interpolation there is no other one, so there the parts alone carry the induction.
  have nested : ∀ x : Expr, (x.Texts fun q o => ∀ ps y, Template.parts q o = .ok ps →
      .expr y ∉ ps) → motive x := by
    intro x hx
    induction x using parts_induction with
    | step x ih =>
      refine step x (fun y hy => ih y hy (hx.part hy)) fun q o ps y heq hp hy => ?_
      exact absurd hy (hx.self q o heq ps y hp)
  induction e using parts_induction with
  | step e ih =>
    exact step e ih fun q o ps x _ hp hx => nested x (Template.parts_of_nested hp hx)

end Radix
