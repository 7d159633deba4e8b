import Radix.Proofs.Expr.Alike
import Radix.Proofs.Read.Step

/-!
# Proofs/Read/Alike — reading does not look at offsets

Tokens that differ only in where they stand are read into programs that differ only in that, or are
refused for the same reason: no reader decides by an offset or by the places inside a text
(`program_alike`).  For the same reason tokens are refused at an offset of one of them, or at the
start (`offset_of_program`).
-/

namespace Radix

/-- The tokens say the same, and where they stand is related as the likeness says. -/
inductive Token.Alike (L : Likeness) : Token → Token → Prop
  | text {q o q' o'} : q.chars = q'.chars → L.text q o q' o' →
    Alike L ⟨.text q, o⟩ ⟨.text q', o'⟩
  | other {l o o'} : (∀ q, l ≠ .text q) → L.offset o o' → Alike L ⟨l, o⟩ ⟨l, o'⟩

/-- Both computations give results that are related, or faults that are. -/
inductive Agree {α β : Type} (E : ReadError → ReadError → Prop) (R : α → β → Prop) :
    Except ReadError α → Except ReadError β → Prop
  | ok {a b} : R a b → Agree E R (.ok a) (.ok b)
  | error {e e'} : E e e' → Agree E R (.error e) (.error e')

section Agree

variable {α β γ δ : Type} {E E' : ReadError → ReadError → Prop} {R : α → β → Prop}
  {S : γ → δ → Prop}

theorem Agree.bind {x : Except ReadError α} {y : Except ReadError β} {f : α → Except ReadError γ}
    {g : β → Except ReadError δ} (h : Agree E R x y) (hf : ∀ a b, R a b → Agree E S (f a) (g b)) :
    Agree E S (x >>= f) (y >>= g) := by
  cases h with
  | ok hab => exact hf _ _ hab
  | error he => exact .error he

theorem Agree.mono {x : Except ReadError α} {y : Except ReadError β} (h : Agree E R x y)
    (hE : ∀ e e', E e e' → E' e e') : Agree E' R x y := by
  cases h with
  | ok hab => exact .ok hab
  | error he => exact .error (hE _ _ he)

end Agree

namespace Read

/-- The tokens are refused for the same reason: they end too early, one of them was not expected, or
a numeral is none.  No reader finds another fault. -/
inductive Refused (L : Likeness) : ReadError → ReadError → Prop
  | ranDry : Refused L ranDry ranDry
  | unexpected {t t' expected} : t.Alike L t' →
    Refused L (unexpected t expected) (unexpected t' expected)
  | numeral {cause o o'} : L.offset o o' →
    Refused L ⟨.invalidNumeral cause, o⟩ ⟨.invalidNumeral cause, o'⟩

/-- The tokens are alike, one by one. -/
abbrev AllAlike (L : Likeness) : List Token → List Token → Prop := List.Forall₂ (Token.Alike L)

section Results

variable {L : Likeness} {α β γ δ : Type} {P Q : List Token → Prop}

/-- What was read is related, and the tokens that are left are alike. -/
def Leaves (L : Likeness) (V : α → β → Prop) (x : α × { rest : List Token // P rest })
    (y : β × { rest : List Token // Q rest }) : Prop :=
  V x.1 y.1 ∧ AllAlike L x.2.val y.2.val

/-- The tokens that are left are alike. -/
def Remain (L : Likeness) (x : { rest : List Token // P rest })
    (y : { rest : List Token // Q rest }) : Prop :=
  AllAlike L x.val y.val

/-- Both readings do so, or refuse alike. -/
abbrev ReadAlike (L : Likeness) (V : α → β → Prop) :
    Except ReadError (α × { rest : List Token // P rest }) →
      Except ReadError (β × { rest : List Token // Q rest }) → Prop :=
  Agree (Refused L) (Leaves L V)

variable {S : γ → δ → Prop}

theorem agree_leaves {V : α → β → Prop} {x : Except ReadError (α × { rest // P rest })}
    {y : Except ReadError (β × { rest // Q rest })} {f g} (h : ReadAlike L V x y)
    (hf : ∀ a b us us' (hu : P us) (hu' : Q us'), V a b → AllAlike L us us' →
      Agree (Refused L) S (f (a, ⟨us, hu⟩)) (g (b, ⟨us', hu'⟩))) :
    Agree (Refused L) S (x >>= f) (y >>= g) :=
  h.bind fun ⟨a, us, hu⟩ ⟨b, us', hu'⟩ ⟨hab, hus⟩ => hf a b us us' hu hu' hab hus

theorem agree_remain {x : Except ReadError { rest // P rest }}
    {y : Except ReadError { rest // Q rest }} {f g} (h : Agree (Refused L) (Remain L) x y)
    (hf : ∀ us us' (hu : P us) (hu' : Q us'), AllAlike L us us' →
      Agree (Refused L) S (f ⟨us, hu⟩) (g ⟨us', hu'⟩)) : Agree (Refused L) S (x >>= f) (y >>= g) :=
  h.bind fun ⟨us, hu⟩ ⟨us', hu'⟩ hus => hf us us' hu hu' hus

end Results

/-! ## Single tokens -/

section Tokens

variable {L : Likeness} {ts ts' : List Token}

/-- Lists of tokens that are alike both begin with a lexeme of a kind, the same one, or neither
does. -/
theorem alike_head {k : Lexeme → Prop} (hk : ∀ q, ¬ k (.text q)) (h : AllAlike L ts ts') :
    (∃ l o o' us us', k l ∧ ts = ⟨l, o⟩ :: us ∧ ts' = ⟨l, o'⟩ :: us' ∧ L.offset o o' ∧
      AllAlike L us us') ∨
      (∀ l o us, k l → ts ≠ ⟨l, o⟩ :: us) ∧ ∀ l o us, k l → ts' ≠ ⟨l, o⟩ :: us := by
  cases h with
  | nil => exact .inr ⟨by simp, by simp⟩
  | cons ht hus =>
    cases ht with
    | @text q o q' o' _ _ =>
      refine .inr ⟨fun l o us hl he => hk q ?_, fun l o us hl he => hk q' ?_⟩
      · rwa [(Token.mk.inj (List.cons.inj he).1).1]
      · rwa [(Token.mk.inj (List.cons.inj he).1).1]
    | @other m o o' _ ho =>
      by_cases hm : k m
      · exact .inl ⟨m, o, o', _, _, hm, rfl, rfl, ho, hus⟩
      · refine .inr ⟨fun l o us hl he => hm ?_, fun l o us hl he => hm ?_⟩
        · rwa [(Token.mk.inj (List.cons.inj he).1).1]
        · rwa [(Token.mk.inj (List.cons.inj he).1).1]

/-- They both begin with a keyword or a mark, or neither does. -/
theorem alike_word {l : Lexeme} (hl : ∀ q, l ≠ .text q) (h : AllAlike L ts ts') :
    (∃ o o' us us', ts = ⟨l, o⟩ :: us ∧ ts' = ⟨l, o'⟩ :: us' ∧ AllAlike L us us') ∨
      (∀ o us, ts ≠ ⟨l, o⟩ :: us) ∧ ∀ o us, ts' ≠ ⟨l, o⟩ :: us := by
  rcases alike_head (k := (· = l)) (fun q hq => hl q hq.symm) h with
    ⟨_, o, o', us, us', rfl, rfl, rfl, -, hus⟩ | ⟨hn, hn'⟩
  · exact .inl ⟨o, o', us, us', rfl, rfl, hus⟩
  · exact .inr ⟨fun o us => hn l o us rfl, fun o us => hn' l o us rfl⟩

/-- They both begin with the same name, or neither begins with one. -/
theorem alike_name (h : AllAlike L ts ts') :
    (∃ s o o' us us', ts = ⟨.name s, o⟩ :: us ∧ ts' = ⟨.name s, o'⟩ :: us' ∧ L.offset o o' ∧
      AllAlike L us us') ∨
      (∀ s o us, ts ≠ ⟨.name s, o⟩ :: us) ∧ ∀ s o us, ts' ≠ ⟨.name s, o⟩ :: us := by
  rcases alike_head (k := fun l => ∃ s, l = .name s) (by simp) h with
    ⟨_, o, o', us, us', ⟨s, rfl⟩, rfl, rfl, ho, hus⟩ | ⟨hn, hn'⟩
  · exact .inl ⟨s, o, o', us, us', rfl, rfl, ho, hus⟩
  · exact .inr ⟨fun s o us => hn _ o us ⟨s, rfl⟩, fun s o us => hn' _ o us ⟨s, rfl⟩⟩

theorem alike_dropWhile {p : Token → Bool} (hp : ∀ t t', Token.Alike L t t' → p t = p t')
    (h : AllAlike L ts ts') : AllAlike L (ts.dropWhile p) (ts'.dropWhile p) := by
  induction h with
  | nil => exact .nil
  | @cons t t' us us' ht hus ih =>
    rw [List.dropWhile_cons, List.dropWhile_cons, ← hp t t' ht]
    split
    · exact ih
    · exact .cons ht hus

theorem alike_dropNewlines (h : AllAlike L ts ts') :
    AllAlike L (dropNewlines ts) (dropNewlines ts') := by
  refine alike_dropWhile (fun t t' ht => ?_) h
  cases ht <;> simp

theorem alike_dropSeparators (h : AllAlike L ts ts') :
    AllAlike L (dropSeparators ts) (dropSeparators ts') := by
  refine alike_dropWhile (fun t t' ht => ?_) h
  cases ht <;> simp [isSeparator]

theorem mark_alike (m : Mark) (expected : Expectation) (h : AllAlike L ts ts') :
    Agree (Refused L) (Remain L) (mark m expected ts) (mark m expected ts') := by
  cases h with
  | nil => exact .error .ranDry
  | @cons t t' us us' ht hus =>
    have hl : t.lexeme = .mark m ↔ t'.lexeme = .mark m := by cases ht <;> simp
    by_cases hm : t.lexeme = .mark m
    · simp only [mark, hm, hl.mp hm, if_true]
      exact .ok hus
    · have hm' : t'.lexeme ≠ .mark m := fun h => hm (hl.mpr h)
      simp only [mark, hm, hm', if_false]
      exact .error (.unexpected ht)

theorem name_alike (expected : Expectation) (h : AllAlike L ts ts') :
    ReadAlike L Eq (name expected ts) (name expected ts') := by
  cases h with
  | nil => exact .error .ranDry
  | cons ht hus =>
    cases ht with
    | text hq ht => exact .error (.unexpected (.text hq ht))
    | @other l _ _ hl ho =>
      match l with
      | .name s => exact .ok ⟨rfl, hus⟩
      | .text q => exact absurd rfl (hl q)
      | .based _ _ | .number _ | .keyword _ | .mark _ | .operator _ | .newline | .stop =>
        exact .error (.unexpected (.other hl ho))

theorem terminator_alike (h : AllAlike L ts ts') :
    Agree (Refused L) (Remain L) (terminator ts) (terminator ts') := by
  cases h with
  | nil => exact .ok .nil
  | @cons t t' us us' ht hus =>
    have hsep : isSeparator t = isSeparator t' := by cases ht <;> simp [isSeparator]
    have hend : (t.lexeme = .stop ∨ t.lexeme = .mark .closeBrace) ↔
        (t'.lexeme = .stop ∨ t'.lexeme = .mark .closeBrace) := by cases ht <;> simp
    by_cases hs : isSeparator t = true
    · have hs' : isSeparator t' = true := hsep ▸ hs
      simp only [terminator, hs, hs', if_true]
      exact .ok hus
    · have hs' : ¬ isSeparator t' = true := hsep ▸ hs
      simp only [terminator, hs, hs', Bool.or_eq_true, decide_eq_true_eq]
      by_cases he : t.lexeme = .stop ∨ t.lexeme = .mark .closeBrace
      · simp only [he, hend.mp he, if_true]
        exact .ok (.cons ht hus)
      · have he' : ¬ (t'.lexeme = .stop ∨ t'.lexeme = .mark .closeBrace) := he ∘ hend.mpr
        simp only [he, he']
        exact .error (.unexpected ht)

theorem label_of_ne (h : ∀ o us, ts ≠ ⟨.mark .at, o⟩ :: us) :
    label ts = .ok (none, ⟨ts, Nat.le_refl _⟩) := by
  unfold label
  split
  · exact absurd rfl (h _ _)
  · rfl

theorem label_alike (h : AllAlike L ts ts') :
    ReadAlike L Eq (label ts) (label ts') := by
  rcases alike_word (l := .mark .at) (by simp) h with ⟨o, o', us, us', rfl, rfl, hus⟩ | ⟨hn, hn'⟩
  · refine agree_leaves (name_alike .labelName hus) ?_
    rintro s _ vs vs' _ _ rfl hv
    exact .ok ⟨rfl, hv⟩
  · rw [label_of_ne hn, label_of_ne hn']
    exact .ok ⟨rfl, h⟩

theorem numeral_alike (base : Nat) (digits : List Char) {o o' : Nat} (h : L.offset o o') :
    Agree (Refused L) (Expr.Alike L) (numeral base digits o) (numeral base digits o') := by
  unfold numeral
  match Numeral.ofDigits base digits with
  | .ok x => exact .ok (.numeral x)
  | .error cause => exact .error (.numeral h)

/-! ## Lists and parameters -/

theorem listNextAt_alike (h : AllAlike L ts ts') :
    ReadAlike L Eq (listNextAt ts) (listNextAt ts') := by
  cases h with
  | nil => exact .error .ranDry
  | @cons t t' us us' ht hus =>
    have hmark : ∀ m, t.lexeme = .mark m ↔ t'.lexeme = .mark m := fun m => by cases ht <;> simp
    simp only [listNextAt]
    by_cases hc : t.lexeme = .mark .comma
    · rw [if_pos hc, if_pos ((hmark _).mp hc)]
      exact .ok ⟨rfl, alike_dropNewlines hus⟩
    · rw [if_neg hc, if_neg fun h => hc ((hmark _).mpr h)]
      by_cases hp : t.lexeme = .mark .closeParen
      · rw [if_pos hp, if_pos ((hmark _).mp hp)]
        exact .ok ⟨rfl, hus⟩
      · rw [if_neg hp, if_neg fun h => hp ((hmark _).mpr h)]
        exact .error (.unexpected ht)

theorem listNext_alike (h : AllAlike L ts ts') :
    ReadAlike L Eq (listNext ts) (listNext ts') := by
  refine agree_leaves (listNextAt_alike (alike_dropNewlines h)) ?_
  rintro more _ us us' _ _ rfl hu
  exact .ok ⟨rfl, hu⟩

theorem param_alike (h : AllAlike L ts ts') : ReadAlike L Eq (param ts) (param ts') := by
  refine agree_leaves (name_alike _ h) ?_
  rintro tag _ us us' _ _ rfl hu
  refine agree_leaves (name_alike _ hu) ?_
  rintro s _ vs vs' _ _ rfl hv
  exact .ok ⟨rfl, hv⟩

theorem paramItems_alike {ts ts' : List Token} (h : AllAlike L ts ts') :
    ReadAlike L Eq (paramItems ts) (paramItems ts') := by
  unfold paramItems
  refine agree_leaves (param_alike h) ?_
  rintro p _ us us' hlt _ rfl hu
  refine agree_leaves (listNext_alike hu) ?_
  rintro more _ vs vs' hlt' _ rfl hv
  match more with
  | true =>
    refine agree_leaves (paramItems_alike hv) ?_
    rintro ps _ ws ws' _ _ rfl hw
    exact .ok ⟨rfl, hw⟩
  | false => exact .ok ⟨rfl, hv⟩
termination_by ts.length

theorem paramsAt_of_ne (h : ∀ o us, ts ≠ ⟨.mark .closeParen, o⟩ :: us) :
    paramsAt ts = paramItems ts := by
  unfold paramsAt
  split
  · exact absurd rfl (h _ _)
  · rfl

theorem paramsAt_alike (h : AllAlike L ts ts') :
    ReadAlike L Eq (paramsAt ts) (paramsAt ts') := by
  rcases alike_word (l := .mark .closeParen) (by simp) h with
    ⟨o, o', us, us', rfl, rfl, hus⟩ | ⟨hn, hn'⟩
  · exact .ok ⟨rfl, hus⟩
  · rw [paramsAt_of_ne hn, paramsAt_of_ne hn']
    exact paramItems_alike h

theorem params_alike (h : AllAlike L ts ts') :
    ReadAlike L Eq (params ts) (params ts') := by
  refine agree_leaves (paramsAt_alike (alike_dropNewlines h)) ?_
  rintro ps _ us us' _ _ rfl hu
  exact .ok ⟨rfl, hu⟩

theorem returnTag_of_ne
    (h : ∀ s o o' us, ts ≠ ⟨.name s, o⟩ :: ⟨.mark .openBrace, o'⟩ :: us) :
    returnTag ts = (none, ⟨ts, Nat.le_refl _⟩) := by
  unfold returnTag
  split
  · exact absurd rfl (h _ _ _ _)
  · rfl

theorem returnTag_alike (h : AllAlike L ts ts') :
    (returnTag ts).1 = (returnTag ts').1 ∧
      AllAlike L (returnTag ts).2.val (returnTag ts').2.val := by
  rcases alike_name h with ⟨s, o, o', us, us', rfl, rfl, ho, hus⟩ | ⟨hn, hn'⟩
  · rcases alike_word (l := .mark .openBrace) (by simp) hus with
      ⟨p, p', vs, vs', rfl, rfl, hvs⟩ | ⟨hb, hb'⟩
    · exact ⟨rfl, hus⟩
    · rw [returnTag_of_ne (by simp [hb]), returnTag_of_ne (by simp [hb'])]
      exact ⟨rfl, h⟩
  · rw [returnTag_of_ne fun s o _ _ => hn s o _, returnTag_of_ne fun s o _ _ => hn' s o _]
    exact ⟨rfl, h⟩

theorem elseAt_of_ne (h : ∀ o us, ts ≠ ⟨.keyword .elseWord, o⟩ :: us) : elseAt ts = none := by
  unfold elseAt
  split
  · exact absurd rfl (h _ _)
  · rfl

theorem elseNext_alike (h : AllAlike L ts ts') :
    (elseNext ts = none ∧ elseNext ts' = none) ∨ ∃ us us' hu hu', elseNext ts = some ⟨us, hu⟩ ∧
      elseNext ts' = some ⟨us', hu'⟩ ∧ AllAlike L us us' := by
  have hlen := length_dropNewlines_le ts
  have hlen' := length_dropNewlines_le ts'
  rcases alike_word (l := .keyword .elseWord) (by simp) (alike_dropNewlines h) with
    ⟨o, o', us, us', hd, hd', hus⟩ | ⟨hn, hn'⟩
  · rw [hd, List.length_cons] at hlen
    rw [hd', List.length_cons] at hlen'
    exact .inr ⟨us, us', by omega, by omega, elseNext_eq_some.mpr ⟨o, hd⟩,
      elseNext_eq_some.mpr ⟨o', hd'⟩, hus⟩
  · refine .inl ⟨?_, ?_⟩
    · simp only [elseNext, elseAt_of_ne hn, Option.bind_eq_bind, Option.bind_none]
    · simp only [elseNext, elseAt_of_ne hn', Option.bind_eq_bind, Option.bind_none]

/-! ## Readers with a rule for everything else -/

theorem links_of_ne (h : ∀ op o us, ts ≠ ⟨.operator op, o⟩ :: us) :
    links ts = .ok ([], ⟨ts, Nat.le_refl _⟩) := by
  rw [links.eq_def]
  split
  · exact absurd rfl (h _ _ _)
  · rfl

theorem argumentsAt_of_ne (h : ∀ o us, ts ≠ ⟨.mark .closeParen, o⟩ :: us) :
    argumentsAt ts = argumentItems ts := by
  unfold argumentsAt
  split
  · exact absurd rfl (h _ _)
  · rfl

theorem alternative_of_ne (h : ∀ o us, ts ≠ ⟨.keyword .ifWord, o⟩ :: us) :
    alternative ts = block ts := by
  unfold alternative
  split
  · exact absurd rfl (h _ _)
  · rfl

theorem unterminated_of_ne (hf : ∀ o us, ts ≠ ⟨.keyword .fnWord, o⟩ :: us)
    (ha : ∀ s o o' us, ts ≠ ⟨.name s, o⟩ :: ⟨.mark .assign, o'⟩ :: us) :
    unterminated ts = expression ts := by
  unfold unterminated
  split
  · exact absurd rfl (hf _ _)
  · exact absurd rfl (ha _ _ _ _)
  · rfl

end Tokens

/-! ## Expressions and statements -/

/-- The readers of expressions and statements. -/
inductive Reader where
  | expression
  | links
  | operand
  | arguments
  | argumentsAt
  | items
  | condition (k : Keyword)
  | branch
  | otherwise
  | alternative
  | block
  | statements
  | statementsAt
  | statement
  | unterminated
  | function

/-- The reader takes both lists of tokens alike. -/
def Reader.Agrees (L : Likeness) (ts ts' : List Token) : Reader → Prop
  | .expression => ReadAlike L (Expr.Alike L) (Read.expression ts) (Read.expression ts')
  | .links => ReadAlike L (List.Forall₂ (Link.Alike L)) (Read.links ts) (Read.links ts')
  | .operand => ReadAlike L (Expr.Alike L) (Read.operand ts) (Read.operand ts')
  | .arguments =>
    ReadAlike L (List.Forall₂ (Expr.Alike L)) (Read.arguments ts) (Read.arguments ts')
  | .argumentsAt =>
    ReadAlike L (List.Forall₂ (Expr.Alike L)) (Read.argumentsAt ts) (Read.argumentsAt ts')
  | .items =>
    ReadAlike L (List.Forall₂ (Expr.Alike L)) (Read.argumentItems ts) (Read.argumentItems ts')
  | .condition k => ReadAlike L (Expr.Alike L) (Read.condition k ts) (Read.condition k ts')
  | .branch => ReadAlike L (Expr.Alike L) (Read.branch ts) (Read.branch ts')
  | .otherwise => ReadAlike L (Option.Rel (List.Forall₂ (Expr.Alike L))) (Read.otherwise ts)
      (Read.otherwise ts')
  | .alternative =>
    ReadAlike L (List.Forall₂ (Expr.Alike L)) (Read.alternative ts) (Read.alternative ts')
  | .block => ReadAlike L (List.Forall₂ (Expr.Alike L)) (Read.block ts) (Read.block ts')
  | .statements =>
    ReadAlike L (List.Forall₂ (Expr.Alike L)) (Read.statements ts) (Read.statements ts')
  | .statementsAt =>
    ReadAlike L (List.Forall₂ (Expr.Alike L)) (Read.statementsAt ts) (Read.statementsAt ts')
  | .statement => ReadAlike L (Expr.Alike L) (Read.statement ts) (Read.statement ts')
  | .unterminated => ReadAlike L (Expr.Alike L) (Read.unterminated ts) (Read.unterminated ts')
  | .function => ReadAlike L (Expr.Alike L) (Read.function ts) (Read.function ts')

/-- Readers that call each other on the same tokens, the caller above. -/
def Reader.rank : Reader → Nat
  | .expression | .branch | .alternative => 1
  | .items | .unterminated => 2
  | .argumentsAt | .statement => 3
  | .arguments | .statementsAt => 4
  | .statements => 5
  | .links | .operand | .condition _ | .otherwise | .block | .function => 0

theorem Reader.rank_lt (r : Reader) : r.rank < 6 := by
  unfold rank
  split <;> omega

/-- A reader calls others on fewer tokens, or on no more tokens but of lower rank.  So what a reader
has if those it calls have it, every reader has. -/
theorem Reader.induction {motive : Reader → List Token → Prop}
    (step : ∀ r ts, (∀ q us, us.length < ts.length → motive q us) →
      (∀ q us, us.length ≤ ts.length → q.rank < r.rank → motive q us) → motive r ts)
    (r : Reader) (ts : List Token) : motive r ts := by
  induction hn : 6 * ts.length + r.rank using Nat.strongRecOn generalizing r ts with
  | ind n ih =>
    subst hn
    refine step r ts (fun q us hu => ?_) fun q us hu hr => ih _ (by omega) q us rfl
    have := q.rank_lt
    exact ih _ (by omega) q us rfl

/-- All readers take lists of fewer than `n` tokens alike. -/
def AgreeBelow (L : Likeness) (n : Nat) : Prop :=
  ∀ (r : Reader) us us', us.length < n → AllAlike L us us' → r.Agrees L us us'

section Readers

variable {L : Likeness} {ts ts' : List Token}

theorem expression_alike (anchored : ∀ {o o'}, L.offset o o' → L.anchor (some o) (some o'))
    (fewer : AgreeBelow L ts.length) (operand : Reader.operand.Agrees L ts ts') :
    Reader.expression.Agrees L ts ts' := by
  simp only [Reader.Agrees, expression]
  refine agree_leaves operand fun x x' us us' hlt _ hx hu => ?_
  refine agree_leaves (fewer .links us us' hlt hu) fun ls ls' vs vs' _ _ hl hv => ?_
  exact .ok ⟨assemble_alike anchored hx hl, hv⟩

theorem links_alike (h : AllAlike L ts ts') (fewer : AgreeBelow L ts.length) :
    Reader.links.Agrees L ts ts' := by
  unfold Reader.Agrees
  rcases alike_head (k := fun l => ∃ op, l = .operator op) (by simp) h with
    ⟨_, o, o', us, us', ⟨op, rfl⟩, rfl, rfl, ho, hus⟩ | ⟨hn, hn'⟩
  · rw [List.length_cons] at fewer
    rw [links, links]
    refine agree_leaves (fewer .operand us us' (by omega) hus) fun x x' vs vs' hlt _ hx hv => ?_
    refine agree_leaves (fewer .links vs vs' (by omega) hv) fun ls ls' ws ws' _ _ hl hw => ?_
    exact .ok ⟨.cons ⟨rfl, ho, hx⟩ hl, hw⟩
  · rw [links_of_ne fun op o us => hn _ o us ⟨op, rfl⟩,
      links_of_ne fun op o us => hn' _ o us ⟨op, rfl⟩]
    exact .ok ⟨.nil, h⟩

/-- An operand that begins with a name: a call, or a variable. -/
theorem operand_name_alike (s : String) {o o' : Nat} (ho : L.offset o o') (h : AllAlike L ts ts')
    (fewer : AgreeBelow L (ts.length + 1)) :
    Reader.operand.Agrees L (⟨.name s, o⟩ :: ts) (⟨.name s, o'⟩ :: ts') := by
  unfold Reader.Agrees
  rcases alike_word (l := .mark .openParen) (by simp) h with
    ⟨p, p', us, us', rfl, rfl, hus⟩ | ⟨hn, hn'⟩
  · rw [List.length_cons] at fewer
    simp only [operand]
    refine agree_leaves (fewer .arguments us us' (by omega) hus) fun xs xs' vs vs' _ _ hx hv => ?_
    exact .ok ⟨.call hx ho, hv⟩
  · have var : ∀ {us : List Token} {o : Nat}, (∀ o vs, us ≠ ⟨.mark .openParen, o⟩ :: vs) →
        operand (⟨.name s, o⟩ :: us) = .ok (.var s, ⟨us, by simp⟩) := by
      intro us o hus
      rw [operand]
      · rfl
      · exact hus
    rw [var hn, var hn']
    exact .ok ⟨.var s, h⟩

/-- An operand that begins with a keyword. -/
theorem operand_keyword_alike (k : Keyword) {o o' : Nat} (ho : L.offset o o')
    (h : AllAlike L ts ts') (fewer : AgreeBelow L (ts.length + 1)) :
    Reader.operand.Agrees L (⟨.keyword k, o⟩ :: ts) (⟨.keyword k, o'⟩ :: ts') := by
  unfold Reader.Agrees
  match k with
  | .retWord =>
    simp only [operand]
    refine agree_leaves (fewer .expression ts ts' (by omega) h) fun x x' us us' _ _ hx hu => ?_
    exact .ok ⟨.ret hx ho, hu⟩
  | .ifWord =>
    simp only [operand]
    refine agree_leaves (fewer .branch ts ts' (by omega) h) fun x x' us us' _ _ hx hu => ?_
    exact .ok ⟨hx, hu⟩
  | .whileWord =>
    simp only [operand]
    refine agree_leaves (label_alike h) ?_
    rintro l _ us us' hlt _ rfl hu
    dsimp only
    refine agree_leaves (fewer (.condition .whileWord) us us' (by omega) hu)
      fun c c' vs vs' hlt' _ hc hv => ?_
    refine agree_leaves (fewer .block vs vs' (by omega) hv) fun xs xs' ws ws' _ _ hx hw => ?_
    exact .ok ⟨.whileLoop hc hx, hw⟩
  | .loopWord =>
    simp only [operand]
    refine agree_leaves (label_alike h) ?_
    rintro l _ us us' hlt _ rfl hu
    refine agree_leaves (fewer .block us us' (by omega) hu) fun xs xs' vs vs' _ _ hx hv => ?_
    exact .ok ⟨.loop hx, hv⟩
  | .breakWord =>
    simp only [operand]
    refine agree_leaves (label_alike h) ?_
    rintro l _ us us' _ _ rfl hu
    exact .ok ⟨.breakTo l, hu⟩
  | .continueWord =>
    simp only [operand]
    refine agree_leaves (label_alike h) ?_
    rintro l _ us us' _ _ rfl hu
    exact .ok ⟨.continueTo l, hu⟩
  | .fnWord | .elseWord =>
    simp only [operand]
    exact .error (.unexpected (.other (by simp) ho))

theorem operand_alike (h : AllAlike L ts ts') (fewer : AgreeBelow L ts.length) :
    Reader.operand.Agrees L ts ts' := by
  cases h with
  | nil =>
    simp only [Reader.Agrees, operand]
    exact .error .ranDry
  | cons ht hus =>
    cases ht with
    | text hq ht =>
      simp only [Reader.Agrees, operand]
      exact .ok ⟨.text ht, hus⟩
    | @other l o o' hl ho =>
      cases l with
      | text q => exact absurd rfl (hl q)
      | name s => exact operand_name_alike s ho hus fewer
      | keyword k => exact operand_keyword_alike k ho hus fewer
      | number digits =>
        simp only [Reader.Agrees, operand]
        exact (numeral_alike 10 digits ho).bind fun _ _ hx => .ok ⟨hx, hus⟩
      | based base digits =>
        simp only [Reader.Agrees, operand]
        exact (numeral_alike base digits ho).bind fun _ _ hx => .ok ⟨hx, hus⟩
      | mark m =>
        cases m with
        | openParen =>
          simp only [Reader.Agrees, operand]
          refine agree_leaves (fewer .expression _ _ (by simp) hus)
            fun x x' us us' _ _ hx hu => ?_
          exact agree_remain (mark_alike _ _ hu) fun vs vs' _ _ hv => .ok ⟨hx, hv⟩
        | semicolon | comma | openBrace | closeBrace | closeParen | assign | bang | «at» =>
          simp only [Reader.Agrees, operand]
          exact .error (.unexpected (.other hl ho))
      | operator | newline | stop =>
        simp only [Reader.Agrees, operand]
        exact .error (.unexpected (.other hl ho))

theorem argumentItems_alike (fewer : AgreeBelow L ts.length)
    (expression : Reader.expression.Agrees L ts ts') : Reader.items.Agrees L ts ts' := by
  unfold Reader.Agrees
  rw [argumentItems, argumentItems]
  refine agree_leaves expression fun x x' us us' hlt _ hx hu => ?_
  refine agree_leaves (listNext_alike hu) ?_
  rintro more _ vs vs' hlt' _ rfl hv
  cases more with
  | true =>
    refine agree_leaves (fewer .items vs vs' (by omega) hv) fun xs xs' ws ws' _ _ hxs hw => ?_
    exact .ok ⟨.cons hx hxs, hw⟩
  | false => exact .ok ⟨.cons hx .nil, hv⟩

theorem argumentsAt_alike (h : AllAlike L ts ts') (items : Reader.items.Agrees L ts ts') :
    Reader.argumentsAt.Agrees L ts ts' := by
  unfold Reader.Agrees
  rcases alike_word (l := .mark .closeParen) (by simp) h with
    ⟨o, o', us, us', rfl, rfl, hus⟩ | ⟨hn, hn'⟩
  · simp only [argumentsAt]
    exact .ok ⟨.nil, hus⟩
  · rw [argumentsAt_of_ne hn, argumentsAt_of_ne hn']
    exact items

theorem condition_alike (k : Keyword) (h : AllAlike L ts ts') (fewer : AgreeBelow L ts.length) :
    (Reader.condition k).Agrees L ts ts' := by
  simp only [Reader.Agrees, condition]
  refine agree_remain (mark_alike _ _ h) fun us us' hlt _ hu => ?_
  refine agree_leaves (fewer .expression us us' hlt hu) fun x x' vs vs' _ _ hx hv => ?_
  exact agree_remain (mark_alike _ _ hv) fun ws ws' _ _ hw => .ok ⟨hx, hw⟩

theorem branch_alike (h : AllAlike L ts ts') (fewer : AgreeBelow L ts.length)
    (condition : ∀ us us', us.length ≤ ts.length → AllAlike L us us' →
      (Reader.condition .ifWord).Agrees L us us') : Reader.branch.Agrees L ts ts' := by
  simp only [Reader.Agrees, branch]
  refine agree_leaves (label_alike h) ?_
  rintro l _ us us' hle _ rfl hu
  dsimp only
  refine agree_leaves (condition us us' hle hu) fun c c' vs vs' hlt _ hc hv => ?_
  dsimp only
  refine agree_leaves (fewer .block vs vs' (by omega) hv) fun yes yes' ws ws' hlt' _ hy hw => ?_
  refine agree_leaves (fewer .otherwise ws ws' (by omega) hw) fun no no' xs xs' _ _ hn hx => ?_
  cases hn with
  | none => exact .ok ⟨.branch hc hy, hx⟩
  | some hn => exact .ok ⟨.branchElse hc hy hn, hx⟩

theorem otherwise_alike (h : AllAlike L ts ts') (fewer : AgreeBelow L ts.length) :
    Reader.otherwise.Agrees L ts ts' := by
  unfold Reader.Agrees
  rw [otherwise.eq_def, otherwise.eq_def ts']
  rcases elseNext_alike h with ⟨hn, hn'⟩ | ⟨us, us', hlt, hlt', he, he', hus⟩
  · rw [hn, hn']
    exact .ok ⟨.none, h⟩
  · rw [he, he']
    refine agree_leaves (fewer .alternative us us' hlt hus) fun xs xs' vs vs' _ _ hx hv => ?_
    exact .ok ⟨.some hx, hv⟩

theorem alternative_alike (h : AllAlike L ts ts') (fewer : AgreeBelow L ts.length)
    (block : Reader.block.Agrees L ts ts') : Reader.alternative.Agrees L ts ts' := by
  unfold Reader.Agrees
  rcases alike_word (l := .keyword .ifWord) (by simp) h with
    ⟨o, o', us, us', rfl, rfl, hus⟩ | ⟨hn, hn'⟩
  · simp only [alternative]
    refine agree_leaves (fewer .branch us us' (by simp) hus) fun x x' vs vs' _ _ hx hv => ?_
    exact .ok ⟨.cons hx .nil, hv⟩
  · rw [alternative_of_ne hn, alternative_of_ne hn']
    exact block

theorem block_alike (h : AllAlike L ts ts') (fewer : AgreeBelow L ts.length) :
    Reader.block.Agrees L ts ts' := by
  simp only [Reader.Agrees, block]
  refine agree_remain (mark_alike _ _ h) fun us us' hlt _ hu => ?_
  refine agree_leaves (fewer .statements us us' hlt hu) fun xs xs' vs vs' _ _ hx hv => ?_
  exact .ok ⟨hx, hv⟩

theorem statementsAt_alike (h : AllAlike L ts ts') (fewer : AgreeBelow L ts.length)
    (statement : Reader.statement.Agrees L ts ts') : Reader.statementsAt.Agrees L ts ts' := by
  unfold Reader.Agrees
  rcases alike_word (l := .mark .closeBrace) (by simp) h with
    ⟨o, o', us, us', rfl, rfl, hus⟩ | ⟨hc, hc'⟩
  · simp only [statementsAt]
    exact .ok ⟨.nil, hus⟩
  rcases alike_word (l := .stop) (by simp) h with ⟨o, o', us, us', rfl, rfl, hus⟩ | ⟨hs, hs'⟩
  · simp only [statementsAt]
    exact .error (.unexpected (List.forall₂_cons.mp h).1)
  cases h with
  | nil =>
    unfold statementsAt
    exact .error .ranDry
  | @cons t t' us us' ht hus =>
    rw [statementsAt, statementsAt]
    · refine agree_leaves statement fun x x' vs vs' hlt _ hx hv => ?_
      refine agree_leaves (fewer .statements vs vs' hlt hv) fun xs xs' ws ws' _ _ hxs hw => ?_
      exact .ok ⟨.cons hx hxs, hw⟩
    · exact fun o ht => hc' o us' (ht ▸ rfl)
    · exact fun o ht => hs' o us' (ht ▸ rfl)
    · exact fun o ht => hc o us (ht ▸ rfl)
    · exact fun o ht => hs o us (ht ▸ rfl)

theorem statement_alike (unterminated : Reader.unterminated.Agrees L ts ts') :
    Reader.statement.Agrees L ts ts' := by
  simp only [Reader.Agrees, statement]
  refine agree_leaves unterminated fun x x' us us' _ _ hx hu => ?_
  exact agree_remain (terminator_alike hu) fun vs vs' _ _ hv => .ok ⟨hx, hv⟩

theorem unterminated_alike (h : AllAlike L ts ts') (fewer : AgreeBelow L ts.length)
    (expression : Reader.expression.Agrees L ts ts') : Reader.unterminated.Agrees L ts ts' := by
  unfold Reader.Agrees
  rcases alike_word (l := .keyword .fnWord) (by simp) h with
    ⟨o, o', us, us', rfl, rfl, hus⟩ | ⟨hf, hf'⟩
  · simp only [unterminated]
    refine agree_leaves (fewer .function us us' (by simp) hus) fun x x' vs vs' _ _ hx hv => ?_
    exact .ok ⟨hx, hv⟩
  have bare : (∀ s o o' us, ts ≠ ⟨.name s, o⟩ :: ⟨.mark .assign, o'⟩ :: us) →
      (∀ s o o' us, ts' ≠ ⟨.name s, o⟩ :: ⟨.mark .assign, o'⟩ :: us) →
      ReadAlike L (Expr.Alike L) (unterminated ts) (unterminated ts') := by
    intro ha ha'
    rw [unterminated_of_ne hf ha, unterminated_of_ne hf' ha']
    exact expression
  rcases alike_name h with ⟨s, o, o', us, us', rfl, rfl, ho, hus⟩ | ⟨hn, hn'⟩
  · rcases alike_word (l := .mark .assign) (by simp) hus with
      ⟨p, p', vs, vs', rfl, rfl, hvs⟩ | ⟨ha, ha'⟩
    · rw [List.length_cons, List.length_cons] at fewer
      simp only [unterminated]
      refine agree_leaves (fewer .expression vs vs' (by omega) hvs) fun x x' ws ws' _ _ hx hw => ?_
      exact .ok ⟨.assign hx, hw⟩
    · exact bare (by simp [ha]) (by simp [ha'])
  · exact bare (fun s o _ _ => hn s o _) fun s o _ _ => hn' s o _

theorem function_alike (h : AllAlike L ts ts') (fewer : AgreeBelow L ts.length) :
    Reader.function.Agrees L ts ts' := by
  simp only [Reader.Agrees, function]
  refine agree_leaves (name_alike _ h) ?_
  rintro s _ us us' hlt _ rfl hu
  dsimp only
  refine agree_remain (mark_alike _ _ hu) fun vs vs' hlt' _ hv => ?_
  dsimp only
  refine agree_leaves (params_alike hv) ?_
  rintro ps _ ws ws' hlt'' _ rfl hw
  obtain ⟨htag, hx⟩ := returnTag_alike hw
  have hle := (returnTag ws).2.property
  refine agree_leaves (fewer .block (returnTag ws).2.val _ (by omega) hx)
    fun xs xs' ys ys' _ _ hxs hy => ?_
  rw [htag]
  exact .ok ⟨.function hxs, hy⟩

/-- **Every reader takes tokens alike that are alike.** -/
theorem agrees_of_alike (anchored : ∀ {o o'}, L.offset o o' → L.anchor (some o) (some o'))
    (r : Reader) {ts ts' : List Token} (h : AllAlike L ts ts') : r.Agrees L ts ts' := by
  induction r, ts using Reader.induction generalizing ts' with
  | step r ts ih lower =>
    have fewer : AgreeBelow L ts.length := fun q us us' hu hus => ih q us hu hus
    have same : ∀ q : Reader, q.rank < r.rank → q.Agrees L ts ts' := fun q hr =>
      lower q ts (Nat.le_refl _) hr h
    cases r with
    | expression => exact expression_alike anchored fewer (same .operand (by simp [Reader.rank]))
    | links => exact links_alike h fewer
    | operand => exact operand_alike h fewer
    | arguments =>
      have hat := lower .argumentsAt _ (length_dropNewlines_le ts) (by simp [Reader.rank])
        (alike_dropNewlines h)
      simp only [Reader.Agrees, arguments]
      exact agree_leaves hat fun _ _ _ _ _ _ hx hu => .ok ⟨hx, hu⟩
    | argumentsAt => exact argumentsAt_alike h (same .items (by simp [Reader.rank]))
    | items => exact argumentItems_alike fewer (same .expression (by simp [Reader.rank]))
    | condition k => exact condition_alike k h fewer
    | branch =>
      exact branch_alike h fewer fun us us' hu hus =>
        lower (.condition .ifWord) us hu (by simp [Reader.rank]) hus
    | otherwise => exact otherwise_alike h fewer
    | alternative => exact alternative_alike h fewer (same .block (by simp [Reader.rank]))
    | block => exact block_alike h fewer
    | statements =>
      have hat := lower .statementsAt _ (length_dropSeparators_le ts) (by simp [Reader.rank])
        (alike_dropSeparators h)
      unfold Reader.Agrees
      rw [statements, statements]
      exact agree_leaves hat fun _ _ _ _ _ _ hx hu => .ok ⟨hx, hu⟩
    | statementsAt => exact statementsAt_alike h fewer (same .statement (by simp [Reader.rank]))
    | statement => exact statement_alike (same .unterminated (by simp [Reader.rank]))
    | unterminated => exact unterminated_alike h fewer (same .expression (by simp [Reader.rank]))
    | function => exact function_alike h fewer

/-! ## Programs -/

theorem programAt_alike (h : AllAlike L ts ts') (statement : Reader.statement.Agrees L ts ts')
    (fewer : ∀ us us', us.length < ts.length → AllAlike L us us' →
      Agree (Refused L) (List.Forall₂ (Expr.Alike L)) (program us) (program us')) :
    Agree (Refused L) (List.Forall₂ (Expr.Alike L)) (programAt ts) (programAt ts') := by
  rcases alike_word (l := .stop) (by simp) h with ⟨o, o', us, us', rfl, rfl, hus⟩ | ⟨hs, hs'⟩
  · simp only [programAt]
    exact .ok .nil
  cases h with
  | nil =>
    unfold programAt
    exact .ok .nil
  | @cons t t' us us' ht hus =>
    rw [programAt, programAt]
    · refine agree_leaves statement fun x x' vs vs' hlt _ hx hv => ?_
      exact (fewer vs vs' hlt hv).bind fun xs xs' hxs => .ok (.cons hx hxs)
    · exact fun o ht => hs' o us' (ht ▸ rfl)
    · exact fun o ht => hs o us (ht ▸ rfl)

/-- **Tokens that are alike make programs that are alike**, or are refused alike. -/
theorem program_alike (anchored : ∀ {o o'}, L.offset o o' → L.anchor (some o) (some o'))
    {ts ts' : List Token} (h : AllAlike L ts ts') :
    Agree (Refused L) (List.Forall₂ (Expr.Alike L)) (program ts) (program ts') := by
  induction hn : ts.length using Nat.strongRecOn generalizing ts ts' with
  | ind n ih =>
    subst hn
    have hlen := length_dropSeparators_le ts
    have hdrop := alike_dropSeparators h
    rw [program, program]
    exact programAt_alike hdrop (agrees_of_alike anchored .statement hdrop) fun us us' hu hus =>
      ih us.length (by omega) hus rfl

end Readers

/-! ## One reading

A reading agrees with itself.  So what is said of tokens by a likeness, in which the second token
plays no part, is known of what is refused. -/

/-- The offsets are those of the tokens. -/
def among (ts : List Token) : Likeness where
  text q o _ _ := ⟨.text q, o⟩ ∈ ts
  offset o _ := ∃ t ∈ ts, t.offset = o
  anchor _ _ := True

/-- Tokens are refused for one of these reasons, and for a token among them unless they end too
early. -/
theorem refused_of_program {ts : List Token} {e : ReadError} (h : program ts = .error e) :
    Refused (among ts) e e := by
  have alike : AllAlike (among ts) ts ts := by
    refine List.forall₂_same.mpr fun t ht => ?_
    obtain ⟨l, o⟩ := t
    by_cases hl : ∃ q, l = .text q
    · obtain ⟨q, rfl⟩ := hl
      exact .text rfl ht
    · exact .other (fun q hq => hl ⟨q, hq⟩) ⟨_, ht, rfl⟩
  have self := program_alike (fun _ => trivial) alike
  rw [h] at self
  cases self with
  | error he => exact he

/-- Braces in texts are not looked at by the readers. -/
theorem Refused.ne_unclosed {L : Likeness} {e e' : ReadError} (h : Refused L e e') :
    e.fault ≠ .unclosedInterpolation := by
  cases h with
  | ranDry => exact nofun
  | unexpected => exact nofun
  | numeral => exact nofun

theorem Refused.offset_among {ts : List Token} {e e' : ReadError} (h : Refused (among ts) e e') :
    e.offset = 0 ∨ ∃ t ∈ ts, t.offset = e.offset := by
  cases h with
  | ranDry => exact .inl rfl
  | unexpected ht =>
    cases ht with
    | text _ hmem => exact .inr ⟨_, hmem, rfl⟩
    | other _ ho => exact .inr ho
  | numeral ho => exact .inr ho

/-- **Tokens are refused at the offset of one of them**, or at the start if they end too early. -/
theorem offset_of_program {ts : List Token} {e : ReadError} (h : program ts = .error e) :
    e.offset = 0 ∨ ∃ t ∈ ts, t.offset = e.offset :=
  (refused_of_program h).offset_among

end Read

end Radix
