import Radix.Proofs.Expr.Print
import Radix.Proofs.Read.Derivation

/-!
# Proofs/Read/Spelt — tokens that spell what was written

Programs are written as lexemes and read from tokens, so what is written stands in a list of tokens
at any offsets (`Spelt`).  What is written begins in a way that no reader skips (`Opens`), and what
follows it must not be taken for more of it: `Ends` for an operand, `Closes` for a whole expression.
The readers of labels, lists and parameters, in which no expression stands, read back what is
written for them.
-/

namespace Radix.Read

/-! ## Tokens that spell lexemes -/

/-- The tokens have these lexemes, at any offsets. -/
def Spelt (ls : List Lexeme) (ts : List Token) : Prop := ts.map (·.lexeme) = ls

theorem spelt_nil {ts : List Token} : Spelt [] ts ↔ ts = [] := List.map_eq_nil_iff

theorem spelt_cons {l : Lexeme} {ls : List Lexeme} {ts : List Token} :
    Spelt (l :: ls) ts ↔ ∃ o us, ts = ⟨l, o⟩ :: us ∧ Spelt ls us := by
  constructor
  · intro h
    obtain ⟨⟨l', o⟩, us, rfl, rfl, hus⟩ := List.map_eq_cons_iff.mp h
    exact ⟨o, us, rfl, hus⟩
  · rintro ⟨o, us, rfl, h⟩
    exact congrArg (l :: ·) h

theorem spelt_append {a b : List Lexeme} {ts : List Token} :
    Spelt (a ++ b) ts ↔ ∃ us vs, ts = us ++ vs ∧ Spelt a us ∧ Spelt b vs := by
  constructor
  · intro h
    obtain ⟨us, vs, rfl, hus, hvs⟩ := List.map_eq_append_iff.mp h
    exact ⟨us, vs, rfl, hus, hvs⟩
  · rintro ⟨us, vs, rfl, rfl, rfl⟩
    exact List.map_append

theorem spelt_parenthesized {ls : List Lexeme} {ts : List Token} :
    Spelt (parenthesized ls) ts ↔ ∃ o o' us,
      ts = ⟨.mark .openParen, o⟩ :: (us ++ [⟨.mark .closeParen, o'⟩]) ∧ Spelt ls us := by
  simp only [parenthesized, spelt_cons, spelt_append, spelt_nil]
  constructor
  · rintro ⟨o, _, rfl, us, _, rfl, hus, o', _, rfl, rfl⟩
    exact ⟨o, o', us, rfl, hus⟩
  · rintro ⟨o, o', us, rfl, hus⟩
    exact ⟨o, _, rfl, us, _, rfl, hus, o', _, rfl, rfl⟩

theorem spelt_braced {ls : List Lexeme} {ts : List Token} :
    Spelt (braced ls) ts ↔ ∃ o o' us,
      ts = ⟨.mark .openBrace, o⟩ :: (us ++ [⟨.mark .closeBrace, o'⟩]) ∧ Spelt ls us := by
  simp only [braced, spelt_cons, spelt_append, spelt_nil]
  constructor
  · rintro ⟨o, _, rfl, us, _, rfl, hus, o', _, rfl, rfl⟩
    exact ⟨o, o', us, rfl, hus⟩
  · rintro ⟨o, o', us, rfl, hus⟩
    exact ⟨o, _, rfl, us, _, rfl, hus, o', _, rfl, rfl⟩

/-- The tokens begin with one that opens an expression or a statement. -/
def Opens (ts : List Token) : Prop := ∃ t us, ts = t :: us ∧ t.lexeme.opens = true

theorem Opens.append {ts : List Token} (h : Opens ts) (rest : List Token) : Opens (ts ++ rest) := by
  obtain ⟨t, us, rfl, ht⟩ := h
  exact ⟨t, us ++ rest, rfl, ht⟩

theorem opens_of_spelt {ls : List Lexeme} {ts : List Token} (h : Spelt ls ts)
    (hl : ∃ l ms, ls = l :: ms ∧ l.opens = true) : Opens ts := by
  obtain ⟨l, ms, rfl, ho⟩ := hl
  obtain ⟨o, us, rfl, -⟩ := spelt_cons.mp h
  exact ⟨_, us, rfl, ho⟩

theorem dropNewlines_cons {l : Lexeme} (h : l ≠ .newline) (o : Nat) (us : List Token) :
    dropNewlines (⟨l, o⟩ :: us) = ⟨l, o⟩ :: us :=
  List.dropWhile_cons_of_neg (by simpa using h)

theorem Opens.dropNewlines {ts : List Token} (h : Opens ts) : dropNewlines ts = ts := by
  obtain ⟨⟨l, o⟩, us, rfl, hl⟩ := h
  refine dropNewlines_cons (fun hn => ?_) o us
  rw [hn] at hl
  exact absurd hl (by simp [Lexeme.opens])

theorem Opens.dropSeparators {ts : List Token} (h : Opens ts) : dropSeparators ts = ts := by
  obtain ⟨⟨l, o⟩, us, rfl, hl⟩ := h
  refine List.dropWhile_cons_of_neg ?_
  intro hs
  simp only [isSeparator, Bool.or_eq_true, decide_eq_true_eq] at hs
  rcases hs with rfl | rfl <;> exact absurd hl (by simp [Lexeme.opens])

/-! ## What may follow -/

/-- What follows an operand is not taken for more of it: for the arguments of a call, a label, or
another branch. -/
structure Ends (rest : List Token) : Prop where
  paren : ∀ o us, rest ≠ ⟨.mark .openParen, o⟩ :: us
  label : ∀ o us, rest ≠ ⟨.mark .at, o⟩ :: us
  otherwise : ∀ o us, dropNewlines rest ≠ ⟨.keyword .elseWord, o⟩ :: us

/-- What follows an expression is not taken for more of it either, nor for an assignment to it. -/
structure Closes (rest : List Token) : Prop extends Ends rest where
  operator : ∀ op o us, rest ≠ ⟨.operator op, o⟩ :: us
  assign : ∀ o us, rest ≠ ⟨.mark .assign, o⟩ :: us

theorem ends_operator (op : Operator) (o : Nat) (us : List Token) :
    Ends (⟨.operator op, o⟩ :: us) where
  paren _ _ := by simp
  label _ _ := by simp
  otherwise _ _ := by simp [dropNewlines_cons]

/-- The marks that end an expression in any place. -/
theorem closes_mark {m : Mark} (h : m = .comma ∨ m = .closeParen ∨ m = .closeBrace) (o : Nat)
    (us : List Token) : Closes (⟨.mark m, o⟩ :: us) := by
  obtain ⟨hp, ha, he⟩ : m ≠ .openParen ∧ m ≠ .at ∧ m ≠ .assign := by
    rcases h with rfl | rfl | rfl <;> decide
  exact ⟨⟨by simp [hp], by simp [ha], by simp [dropNewlines_cons]⟩, by simp, by simp [he]⟩

theorem closes_stop (o : Nat) (us : List Token) : Closes (⟨.stop, o⟩ :: us) where
  paren _ _ := by simp
  label _ _ := by simp
  otherwise _ _ := by simp [dropNewlines_cons]
  operator _ _ _ := by simp
  assign _ _ := by simp

theorem closes_newline (o : Nat) {us : List Token} (h : Opens us) :
    Closes (⟨.newline, o⟩ :: us) where
  paren _ _ := by simp
  label _ _ := by simp
  otherwise o' vs he := by
    have hd : dropNewlines (⟨.newline, o⟩ :: us) = dropNewlines us := by simp [dropNewlines]
    rw [hd, h.dropNewlines] at he
    obtain ⟨t, ws, rfl, ht⟩ := h
    rw [(List.cons.inj he).1] at ht
    exact absurd ht (by simp [Lexeme.opens])
  operator _ _ _ := by simp
  assign _ _ := by simp

/-! ## Labels and lists -/

theorem gives_label {l : Option String} {us rest : List Token} (hus : Spelt (printLabel l) us)
    (hr : ∀ o vs, rest ≠ ⟨.mark .at, o⟩ :: vs) : Gives (label (us ++ rest)) l rest := by
  match l with
  | none =>
    obtain rfl := spelt_nil.mp hus
    rw [List.nil_append]
    unfold label
    split
    · exact absurd rfl (hr _ _)
    · exact gives_pure.mpr ⟨rfl, rfl⟩
  | some s =>
    simp only [printLabel, spelt_cons, spelt_nil] at hus
    obtain ⟨o, _, rfl, o', _, rfl, rfl⟩ := hus
    exact gives_bind.mpr ⟨(s, ⟨rest, by simp⟩), name_eq_ok.mpr ⟨o', rfl⟩, gives_pure.mpr ⟨rfl, rfl⟩⟩

theorem ne_at_of_spelt {m : Mark} {ls : List Lexeme} {us rest : List Token}
    (hus : Spelt (.mark m :: ls) us) (hm : m ≠ .at) (o : Nat) (vs : List Token) :
    us ++ rest ≠ ⟨.mark .at, o⟩ :: vs := by
  obtain ⟨o', ws, rfl, -⟩ := spelt_cons.mp hus
  simp [hm]

theorem gives_listNext_comma (o : Nat) (us : List Token) :
    Gives (listNext (⟨.mark .comma, o⟩ :: us)) true (dropNewlines us) := by
  rw [gives_listNext, dropNewlines_cons (by simp)]
  exact ⟨_, rfl⟩

theorem gives_listNext_close (o : Nat) (us : List Token) :
    Gives (listNext (⟨.mark .closeParen, o⟩ :: us)) false us := by
  rw [gives_listNext, dropNewlines_cons (by simp)]
  exact ⟨_, rfl⟩

/-! ## Parameters -/

theorem gives_param (p : Param) (o o' : Nat) (us : List Token) :
    Gives (param (⟨.name p.tag, o⟩ :: ⟨.name p.name, o'⟩ :: us)) p us := ⟨_, rfl⟩

theorem gives_paramItems {ps : List Param} (hne : ps ≠ []) (o : Nat) (rest : List Token)
    {us : List Token} (hus : Spelt (printParams ps) us) :
    Gives (paramItems (us ++ ⟨.mark .closeParen, o⟩ :: rest)) ps rest := by
  match ps, hne with
  | [p], _ =>
    simp only [printParams, spelt_cons, spelt_nil] at hus
    obtain ⟨o₁, _, rfl, o₂, _, rfl, rfl⟩ := hus
    obtain ⟨hp, hparam⟩ := gives_param p o₁ o₂ (⟨.mark .closeParen, o⟩ :: rest)
    obtain ⟨hn, hnext⟩ := gives_listNext_close o rest
    unfold paramItems
    exact gives_bind.mpr ⟨_, hparam, gives_bind.mpr ⟨_, hnext, gives_pure.mpr ⟨rfl, rfl⟩⟩⟩
  | p :: q :: ps, _ =>
    simp only [printParams, spelt_cons] at hus
    obtain ⟨o₁, _, rfl, o₂, _, rfl, o₃, vs, rfl, hvs⟩ := hus
    obtain ⟨hi, hitems⟩ := gives_paramItems (by simp) o rest hvs
    have hopen : Opens vs := opens_of_spelt hvs (printParams_opens (by simp))
    have hcomma := gives_listNext_comma o₃ (vs ++ ⟨.mark .closeParen, o⟩ :: rest)
    rw [(hopen.append _).dropNewlines] at hcomma
    obtain ⟨hn, hnext⟩ := hcomma
    obtain ⟨hp, hparam⟩ := gives_param p o₁ o₂
      (⟨.mark .comma, o₃⟩ :: (vs ++ ⟨.mark .closeParen, o⟩ :: rest))
    simp only [List.cons_append]
    unfold paramItems
    exact gives_bind.mpr ⟨_, hparam, gives_bind.mpr ⟨_, hnext,
      gives_bind.mpr ⟨_, hitems, gives_pure.mpr ⟨rfl, rfl⟩⟩⟩⟩

theorem gives_params_of_paramsAt {ts rest : List Token} {ps : List Param}
    (h : Gives (paramsAt (dropNewlines ts)) ps rest) : Gives (params ts) ps rest := by
  obtain ⟨hu, hp⟩ := h
  unfold params
  exact gives_bind.mpr ⟨_, hp, gives_pure.mpr ⟨rfl, rfl⟩⟩

theorem Opens.paramsAt {ts : List Token} (h : Opens ts) : paramsAt ts = paramItems ts := by
  unfold Read.paramsAt
  split
  · obtain ⟨_, _, ht, ho⟩ := h
    rw [← (List.cons.inj ht).1] at ho
    exact absurd ho (by simp [Lexeme.opens])
  · rfl

theorem gives_params {ps : List Param} (o : Nat) (rest : List Token) {us : List Token}
    (hus : Spelt (printParams ps) us) :
    Gives (params (us ++ ⟨.mark .closeParen, o⟩ :: rest)) ps rest := by
  refine gives_params_of_paramsAt ?_
  by_cases hne : ps = []
  · subst hne
    obtain rfl := spelt_nil.mp hus
    rw [List.nil_append, dropNewlines_cons (by simp)]
    exact ⟨_, rfl⟩
  · have hopen := (opens_of_spelt hus (printParams_opens hne)).append
      (⟨.mark .closeParen, o⟩ :: rest)
    rw [hopen.dropNewlines, hopen.paramsAt]
    exact gives_paramItems hne o rest hus

/-- The tag of a result is told from the body by the brace. -/
theorem returnTag_spelt {tag : Option String} {us bs : List Token} {ls : List Lexeme}
    (hus : Spelt (printTag tag) us) (hbs : Spelt (.mark .openBrace :: ls) bs) (rest : List Token) :
    (returnTag (us ++ (bs ++ rest))).1 = tag ∧
      (returnTag (us ++ (bs ++ rest))).2.val = bs ++ rest := by
  obtain ⟨o, cs, rfl, -⟩ := spelt_cons.mp hbs
  match tag with
  | none =>
    obtain rfl := spelt_nil.mp hus
    exact ⟨rfl, rfl⟩
  | some s =>
    simp only [printTag, spelt_cons, spelt_nil] at hus
    obtain ⟨o', _, rfl, rfl⟩ := hus
    exact ⟨rfl, rfl⟩

end Radix.Read
