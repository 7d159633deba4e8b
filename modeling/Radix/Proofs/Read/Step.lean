import Radix.Expr.Read
import Radix.Proofs.Except

/-!
# Proofs/Read/Step — one step of each reader

A reader returns what it read with the tokens that are left and the proof that there are fewer.
`Gives` forgets the proof.  For each reader there is one equivalence that says when it gives a
result, in terms of the readers it calls: reading is taken apart from left to right and put together
from right to left, and no other proof looks inside a reader.
-/

namespace Radix.Read

/-! ## Results of readers -/

section Gives

variable {α β : Type} {P : List Token → Prop}

/-- The reader gives `a` and leaves `rest`. -/
def Gives (x : Except ReadError (α × { rest : List Token // P rest })) (a : α)
    (rest : List Token) : Prop :=
  ∃ h, x = .ok (a, ⟨rest, h⟩)

theorem gives_bind {x : Except ReadError α}
    {f : α → Except ReadError (β × { rest : List Token // P rest })} {b : β} {rest : List Token} :
    Gives (x >>= f) b rest ↔ ∃ a, x = .ok a ∧ Gives (f a) b rest := by
  simp only [Gives, bind_eq_ok]
  exact ⟨fun ⟨h, a, ha, hf⟩ => ⟨a, ha, h, hf⟩, fun ⟨a, ha, h, hf⟩ => ⟨h, a, ha, hf⟩⟩

theorem gives_pure {a b : α} {us rest : List Token} {h : P us} :
    Gives (pure (a, (⟨us, h⟩ : { rest : List Token // P rest }))) b rest ↔ a = b ∧ us = rest := by
  refine ⟨fun ⟨_, hg⟩ => ?_, fun ⟨ha, hu⟩ => ?_⟩
  · simpa [pure, Except.pure] using hg
  · subst ha hu
    exact ⟨h, rfl⟩

theorem not_gives_error {e : ReadError} {a : α} {rest : List Token} :
    ¬ Gives (.error e : Except ReadError (α × { rest : List Token // P rest })) a rest :=
  fun ⟨_, h⟩ => nomatch h

end Gives

theorem mark_eq_ok {m : Mark} {expected : Expectation} {ts us : List Token}
    {h : us.length < ts.length} :
    mark m expected ts = .ok ⟨us, h⟩ ↔ ∃ o, ts = ⟨.mark m, o⟩ :: us := by
  match ts with
  | [] => simp at h
  | ⟨l, o⟩ :: ts =>
    by_cases hl : l = .mark m
    · simp [mark, hl]
    · simp [mark, hl]

theorem name_eq_ok {expected : Expectation} {ts us : List Token} {s : String}
    {h : us.length < ts.length} :
    name expected ts = .ok (s, ⟨us, h⟩) ↔ ∃ o, ts = ⟨.name s, o⟩ :: us := by
  unfold name
  split
  · simp at h
  · simp
  · next t _ hn =>
    simp only [reduceCtorEq, List.cons.injEq, false_iff, not_exists, not_and]
    exact fun o ht => absurd ht (hn s o)

theorem numeral_eq_ok {base offset : Nat} {digits : List Char} {e : Expr} :
    numeral base digits offset = .ok e ↔
      ∃ x, Numeral.ofDigits base digits = .ok x ∧ e = .numeral x := by
  unfold numeral
  match Numeral.ofDigits base digits with
  | .ok x => simp [eq_comm]
  | .error cause => simp

theorem elseAt_eq_some {ts us : List Token} {h : us.length < ts.length} :
    elseAt ts = some ⟨us, h⟩ ↔ ∃ o, ts = ⟨.keyword .elseWord, o⟩ :: us := by
  unfold elseAt
  split
  · simp
  · next hn =>
    simp only [reduceCtorEq, false_iff, not_exists]
    exact fun o ht => hn o us ht

theorem elseNext_eq_some {ts us : List Token} {h : us.length < ts.length} :
    elseNext ts = some ⟨us, h⟩ ↔ ∃ o, dropNewlines ts = ⟨.keyword .elseWord, o⟩ :: us := by
  have hdrop := length_dropNewlines_le ts
  constructor
  · intro he
    obtain ⟨⟨vs, hv⟩, ha, hvu⟩ := Option.bind_eq_some_iff.mp he
    obtain rfl : vs = us := by simpa using hvu
    exact elseAt_eq_some.mp ha
  · intro ⟨o, ho⟩
    have hlen : us.length < (dropNewlines ts).length := by simp [ho]
    exact Option.bind_eq_some_iff.mpr ⟨⟨us, hlen⟩, elseAt_eq_some.mpr ⟨o, ho⟩, rfl⟩

theorem gives_listNext {more : Bool} {ts rest : List Token} :
    Gives (listNext ts) more rest ↔ Gives (listNextAt (dropNewlines ts)) more rest := by
  unfold listNext
  constructor
  · intro h
    obtain ⟨⟨m, us, hu⟩, hm, h⟩ := gives_bind.mp h
    obtain ⟨rfl, rfl⟩ := gives_pure.mp h
    exact ⟨hu, hm⟩
  · intro ⟨hu, hm⟩
    exact gives_bind.mpr ⟨_, hm, gives_pure.mpr ⟨rfl, rfl⟩⟩

/-! ## One step of each reader -/

section Steps

variable {ts rest : List Token} {e : Expr} {es : List Expr}

theorem gives_expression : Gives (expression ts) e rest ↔
    ∃ x us ls, Gives (operand ts) x us ∧ Gives (links us) ls rest ∧ e = assemble x ls := by
  unfold expression
  constructor
  · intro h
    obtain ⟨⟨x, us, hu⟩, hx, h⟩ := gives_bind.mp h
    obtain ⟨⟨ls, vs, hv⟩, hl, h⟩ := gives_bind.mp h
    obtain ⟨rfl, rfl⟩ := gives_pure.mp h
    exact ⟨x, us, ls, ⟨hu, hx⟩, ⟨hv, hl⟩, rfl⟩
  · rintro ⟨x, us, ls, ⟨hu, hx⟩, ⟨hv, hl⟩, rfl⟩
    exact gives_bind.mpr ⟨_, hx, gives_bind.mpr ⟨_, hl, gives_pure.mpr ⟨rfl, rfl⟩⟩⟩

theorem gives_links {ls : List Link} : Gives (links ts) ls rest ↔
    (ls = [] ∧ ts = rest ∧ ∀ op o us, ts ≠ ⟨.operator op, o⟩ :: us) ∨
    ∃ op o us x vs others, ts = ⟨.operator op, o⟩ :: us ∧ Gives (operand us) x vs ∧
      Gives (links vs) others rest ∧ ls = ⟨op, o, x⟩ :: others := by
  rw [links.eq_def]
  split
  · next op o us =>
    constructor
    · intro h
      obtain ⟨⟨x, vs, hv⟩, hx, h⟩ := gives_bind.mp h
      obtain ⟨⟨others, ws, hw⟩, ho, h⟩ := gives_bind.mp h
      obtain ⟨rfl, rfl⟩ := gives_pure.mp h
      exact .inr ⟨op, o, us, x, vs, others, rfl, ⟨hv, hx⟩, ⟨hw, ho⟩, rfl⟩
    · rintro (⟨-, -, hn⟩ | ⟨_, _, _, x, vs, others, heq, ⟨hv, hx⟩, ⟨hw, ho⟩, rfl⟩)
      · exact absurd rfl (hn op o us)
      · obtain ⟨⟨rfl, rfl⟩, rfl⟩ : (op = _ ∧ o = _) ∧ us = _ := by simpa using heq
        exact gives_bind.mpr ⟨_, hx, gives_bind.mpr ⟨_, ho, gives_pure.mpr ⟨rfl, rfl⟩⟩⟩
  · next hn =>
    constructor
    · intro h
      obtain ⟨rfl, rfl⟩ := gives_pure.mp h
      exact .inl ⟨rfl, rfl, fun op o us => hn op o us⟩
    · rintro (⟨rfl, rfl, -⟩ | ⟨op, o, us, x, vs, others, heq, -⟩)
      · exact gives_pure.mpr ⟨rfl, rfl⟩
      · exact absurd heq (hn op o us)

theorem gives_argumentItems : Gives (argumentItems ts) es rest ↔
    ∃ x us, Gives (expression ts) x us ∧
      ((Gives (listNext us) false rest ∧ es = [x]) ∨
        ∃ vs others, Gives (listNext us) true vs ∧ Gives (argumentItems vs) others rest ∧
          es = x :: others) := by
  rw [argumentItems]
  constructor
  · intro h
    obtain ⟨⟨x, us, hu⟩, hx, h⟩ := gives_bind.mp h
    obtain ⟨⟨more, vs, hv⟩, hm, h⟩ := gives_bind.mp h
    refine ⟨x, us, ⟨hu, hx⟩, ?_⟩
    match more with
    | true =>
      obtain ⟨⟨others, ws, hw⟩, ho, h⟩ := gives_bind.mp h
      obtain ⟨rfl, rfl⟩ := gives_pure.mp h
      exact .inr ⟨vs, others, ⟨hv, hm⟩, ⟨hw, ho⟩, rfl⟩
    | false =>
      obtain ⟨rfl, rfl⟩ := gives_pure.mp h
      exact .inl ⟨⟨hv, hm⟩, rfl⟩
  · rintro ⟨x, us, ⟨hu, hx⟩, ⟨⟨hv, hm⟩, rfl⟩ | ⟨vs, others, ⟨hv, hm⟩, ⟨hw, ho⟩, rfl⟩⟩
    · exact gives_bind.mpr ⟨_, hx, gives_bind.mpr ⟨_, hm, gives_pure.mpr ⟨rfl, rfl⟩⟩⟩
    · exact gives_bind.mpr ⟨_, hx, gives_bind.mpr ⟨_, hm,
        gives_bind.mpr ⟨_, ho, gives_pure.mpr ⟨rfl, rfl⟩⟩⟩⟩

/-- An argument does not start with a closing parenthesis. -/
theorem not_gives_argumentItems_close {o : Nat} :
    ¬ Gives (argumentItems (⟨.mark .closeParen, o⟩ :: ts)) es rest := by
  intro h
  obtain ⟨x, us, hx, -⟩ := gives_argumentItems.mp h
  obtain ⟨y, vs, ls, hy, -⟩ := gives_expression.mp hx
  unfold operand at hy
  exact not_gives_error hy

theorem gives_argumentsAt : Gives (argumentsAt ts) es rest ↔
    (es = [] ∧ ∃ o, ts = ⟨.mark .closeParen, o⟩ :: rest) ∨ Gives (argumentItems ts) es rest := by
  unfold argumentsAt
  split
  · next o us =>
    constructor
    · intro h
      obtain ⟨rfl, rfl⟩ := gives_pure.mp h
      exact .inl ⟨rfl, o, rfl⟩
    · rintro (⟨rfl, o', heq⟩ | h)
      · exact gives_pure.mpr ⟨rfl, (List.cons.inj heq).2⟩
      · exact absurd h not_gives_argumentItems_close
  · next hn =>
    refine ⟨.inr, ?_⟩
    rintro (⟨-, o, heq⟩ | h)
    · exact absurd heq (hn o rest)
    · exact h

theorem gives_arguments : Gives (arguments ts) es rest ↔
    (es = [] ∧ ∃ o, dropNewlines ts = ⟨.mark .closeParen, o⟩ :: rest) ∨
      Gives (argumentItems (dropNewlines ts)) es rest := by
  have hdrop := length_dropNewlines_le ts
  unfold arguments
  constructor
  · intro h
    obtain ⟨⟨es', us, hu⟩, he, h⟩ := gives_bind.mp h
    obtain ⟨rfl, rfl⟩ := gives_pure.mp h
    exact gives_argumentsAt.mp ⟨hu, he⟩
  · intro h
    obtain ⟨hu, he⟩ := gives_argumentsAt.mpr h
    exact gives_bind.mpr ⟨_, he, gives_pure.mpr ⟨rfl, rfl⟩⟩

theorem gives_condition {k : Keyword} : Gives (condition k ts) e rest ↔
    ∃ o us o', ts = ⟨.mark .openParen, o⟩ :: us ∧
      Gives (expression us) e (⟨.mark .closeParen, o'⟩ :: rest) := by
  unfold condition
  constructor
  · intro h
    obtain ⟨⟨us, hu⟩, hm, h⟩ := gives_bind.mp h
    obtain ⟨⟨x, vs, hv⟩, hx, h⟩ := gives_bind.mp h
    obtain ⟨⟨ws, hw⟩, hm', h⟩ := gives_bind.mp h
    obtain ⟨rfl, rfl⟩ := gives_pure.mp h
    obtain ⟨o, rfl⟩ := mark_eq_ok.mp hm
    obtain ⟨o', rfl⟩ := mark_eq_ok.mp hm'
    exact ⟨o, us, o', rfl, hv, hx⟩
  · rintro ⟨o, us, o', rfl, hv, hx⟩
    refine gives_bind.mpr ⟨⟨us, by simp⟩, mark_eq_ok.mpr ⟨o, rfl⟩, ?_⟩
    refine gives_bind.mpr ⟨_, hx, ?_⟩
    exact gives_bind.mpr ⟨⟨rest, by simp⟩, mark_eq_ok.mpr ⟨o', rfl⟩, gives_pure.mpr ⟨rfl, rfl⟩⟩

theorem gives_branch : Gives (branch ts) e rest ↔
    ∃ l us c vs yes ws no, Gives (label ts) l us ∧ Gives (condition .ifWord us) c vs ∧
      Gives (block vs) yes ws ∧ Gives (otherwise ws) no rest ∧ e = .branch l c yes no := by
  unfold branch
  constructor
  · intro h
    obtain ⟨⟨l, us, hu⟩, hl, h⟩ := gives_bind.mp h
    obtain ⟨⟨c, vs, hv⟩, hc, h⟩ := gives_bind.mp h
    obtain ⟨⟨yes, ws, hw⟩, hy, h⟩ := gives_bind.mp h
    obtain ⟨⟨no, xs, hx⟩, hn, h⟩ := gives_bind.mp h
    obtain ⟨rfl, rfl⟩ := gives_pure.mp h
    exact ⟨l, us, c, vs, yes, ws, no, ⟨hu, hl⟩, ⟨hv, hc⟩, ⟨hw, hy⟩, ⟨hx, hn⟩, rfl⟩
  · rintro ⟨l, us, c, vs, yes, ws, no, ⟨hu, hl⟩, ⟨hv, hc⟩, ⟨hw, hy⟩, ⟨hx, hn⟩, rfl⟩
    exact gives_bind.mpr ⟨_, hl, gives_bind.mpr ⟨_, hc, gives_bind.mpr ⟨_, hy,
      gives_bind.mpr ⟨_, hn, gives_pure.mpr ⟨rfl, rfl⟩⟩⟩⟩⟩

theorem gives_block : Gives (block ts) es rest ↔
    ∃ o us, ts = ⟨.mark .openBrace, o⟩ :: us ∧ Gives (statements us) es rest := by
  unfold block
  constructor
  · intro h
    obtain ⟨⟨us, hu⟩, hm, h⟩ := gives_bind.mp h
    obtain ⟨⟨body, vs, hv⟩, hb, h⟩ := gives_bind.mp h
    obtain ⟨rfl, rfl⟩ := gives_pure.mp h
    obtain ⟨o, rfl⟩ := mark_eq_ok.mp hm
    exact ⟨o, us, rfl, hv, hb⟩
  · rintro ⟨o, us, rfl, hv, hb⟩
    refine gives_bind.mpr ⟨⟨us, by simp⟩, mark_eq_ok.mpr ⟨o, rfl⟩, ?_⟩
    exact gives_bind.mpr ⟨_, hb, gives_pure.mpr ⟨rfl, rfl⟩⟩

theorem gives_statement : Gives (statement ts) e rest ↔
    ∃ us h, Gives (unterminated ts) e us ∧ terminator us = .ok ⟨rest, h⟩ := by
  unfold statement
  constructor
  · intro h
    obtain ⟨⟨x, us, hu⟩, hx, h⟩ := gives_bind.mp h
    obtain ⟨⟨vs, hv⟩, ht, h⟩ := gives_bind.mp h
    obtain ⟨rfl, rfl⟩ := gives_pure.mp h
    exact ⟨us, hv, ⟨hu, hx⟩, ht⟩
  · rintro ⟨us, hv, ⟨hu, hx⟩, ht⟩
    exact gives_bind.mpr ⟨_, hx, gives_bind.mpr ⟨_, ht, gives_pure.mpr ⟨rfl, rfl⟩⟩⟩

theorem gives_otherwise {no : Option (List Expr)} : Gives (otherwise ts) no rest ↔
    (no = none ∧ ts = rest ∧ ∀ o us, dropNewlines ts ≠ ⟨.keyword .elseWord, o⟩ :: us) ∨
      ∃ o us body, dropNewlines ts = ⟨.keyword .elseWord, o⟩ :: us ∧
        Gives (alternative us) body rest ∧ no = some body := by
  rw [otherwise.eq_def]
  split
  · next hn =>
    have absent : ∀ o us, dropNewlines ts ≠ ⟨.keyword .elseWord, o⟩ :: us := by
      intro o us ho
      have hlen := length_dropNewlines_le ts
      rw [ho, List.length_cons] at hlen
      have hsome : elseNext ts = some ⟨us, by omega⟩ := elseNext_eq_some.mpr ⟨o, ho⟩
      exact absurd (hn.symm.trans hsome) (by simp)
    constructor
    · intro h
      obtain ⟨rfl, rfl⟩ := gives_pure.mp h
      exact .inl ⟨rfl, rfl, absent⟩
    · rintro (⟨rfl, rfl, -⟩ | ⟨o, us, body, ho, -⟩)
      · exact gives_pure.mpr ⟨rfl, rfl⟩
      · exact absurd ho (absent o us)
  · next us hu hn =>
    obtain ⟨o, ho⟩ := elseNext_eq_some.mp hn
    constructor
    · intro h
      obtain ⟨⟨body, vs, hv⟩, hb, h⟩ := gives_bind.mp h
      obtain ⟨rfl, rfl⟩ := gives_pure.mp h
      exact .inr ⟨o, us, body, ho, ⟨hv, hb⟩, rfl⟩
    · rintro (⟨-, -, hnone⟩ | ⟨o', us', body, ho', ⟨hv, hb⟩, rfl⟩)
      · exact absurd ho (hnone o us)
      · obtain rfl : us = us' := (List.cons.inj (ho.symm.trans ho')).2
        exact gives_bind.mpr ⟨_, hb, gives_pure.mpr ⟨rfl, rfl⟩⟩

theorem gives_alternative : Gives (alternative ts) es rest ↔
    (∃ o us e, ts = ⟨.keyword .ifWord, o⟩ :: us ∧ Gives (branch us) e rest ∧ es = [e]) ∨
      Gives (block ts) es rest := by
  unfold alternative
  split
  · next o us =>
    constructor
    · intro h
      obtain ⟨⟨x, vs, hv⟩, hx, h⟩ := gives_bind.mp h
      obtain ⟨rfl, rfl⟩ := gives_pure.mp h
      exact .inl ⟨o, us, x, rfl, ⟨hv, hx⟩, rfl⟩
    · rintro (⟨o', us', x, heq, ⟨hv, hx⟩, rfl⟩ | h)
      · obtain rfl := (List.cons.inj heq).2
        exact gives_bind.mpr ⟨_, hx, gives_pure.mpr ⟨rfl, rfl⟩⟩
      · obtain ⟨o', us', heq, -⟩ := gives_block.mp h
        exact absurd heq (by simp)
  · next hn =>
    refine ⟨.inr, ?_⟩
    rintro (⟨o, us, x, heq, -⟩ | h)
    · exact absurd heq (hn o us)
    · exact h

theorem gives_unterminated : Gives (unterminated ts) e rest ↔
    (∃ o us, ts = ⟨.keyword .fnWord, o⟩ :: us ∧ Gives (function us) e rest) ∨
    (∃ s o o' us x, ts = ⟨.name s, o⟩ :: ⟨.mark .assign, o'⟩ :: us ∧
      Gives (expression us) x rest ∧ e = .assign s x) ∨
    ((∀ s o o' us, ts ≠ ⟨.name s, o⟩ :: ⟨.mark .assign, o'⟩ :: us) ∧
      Gives (expression ts) e rest) := by
  unfold unterminated
  split
  · next o us =>
    constructor
    · intro h
      obtain ⟨⟨x, vs, hv⟩, hx, h⟩ := gives_bind.mp h
      obtain ⟨rfl, rfl⟩ := gives_pure.mp h
      exact .inl ⟨o, us, rfl, hv, hx⟩
    · rintro (⟨o', us', heq, hv, hx⟩ | ⟨s, o', o'', us', x, heq, -⟩ | ⟨-, h⟩)
      · obtain rfl := (List.cons.inj heq).2
        exact gives_bind.mpr ⟨_, hx, gives_pure.mpr ⟨rfl, rfl⟩⟩
      · exact absurd heq (by simp)
      · obtain ⟨y, vs, ls, hy, -⟩ := gives_expression.mp h
        unfold operand at hy
        exact absurd hy not_gives_error
  · next s o o' us =>
    constructor
    · intro h
      obtain ⟨⟨x, vs, hv⟩, hx, h⟩ := gives_bind.mp h
      obtain ⟨rfl, rfl⟩ := gives_pure.mp h
      exact .inr (.inl ⟨s, o, o', us, x, rfl, ⟨hv, hx⟩, rfl⟩)
    · rintro (⟨_, _, heq, -⟩ | ⟨s', _, _, us', x, heq, ⟨hv, hx⟩, rfl⟩ | ⟨hn, -⟩)
      · exact absurd heq (by simp)
      · obtain ⟨⟨rfl, -⟩, -, rfl⟩ : (s = s' ∧ _) ∧ _ ∧ us = us' := by simpa using heq
        exact gives_bind.mpr ⟨_, hx, gives_pure.mpr ⟨rfl, rfl⟩⟩
      · exact absurd rfl (hn s o o' us)
  · next hf ha =>
    refine ⟨fun h => .inr (.inr ⟨fun s o o' us => ha s o o' us, h⟩), ?_⟩
    rintro (⟨o, us, heq, -⟩ | ⟨s, o, o', us, x, heq, -⟩ | ⟨-, h⟩)
    · exact absurd heq (hf o us)
    · exact absurd heq (ha s o o' us)
    · exact h

/-- A statement does not start where a block or the source ends. -/
theorem Gives.statement_start {t : Token} (h : Gives (statement (t :: ts)) e rest) :
    t.lexeme ≠ .mark .closeBrace ∧ t.lexeme ≠ .stop := by
  obtain ⟨us, -, hu, -⟩ := gives_statement.mp h
  rcases gives_unterminated.mp hu with ⟨o, vs, heq, -⟩ | ⟨s, o, o', vs, x, heq, -⟩ | ⟨-, hx⟩
  · simp [(List.cons.inj heq).1]
  · simp [(List.cons.inj heq).1]
  · obtain ⟨y, vs, ls, hy, -⟩ := gives_expression.mp hx
    match t with
    | ⟨l, o⟩ =>
      refine ⟨fun hl => ?_, fun hl => ?_⟩
      · obtain rfl : l = .mark .closeBrace := hl
        unfold operand at hy
        exact not_gives_error hy
      · obtain rfl : l = .stop := hl
        unfold operand at hy
        exact not_gives_error hy

theorem gives_statementsAt : Gives (statementsAt ts) es rest ↔
    (es = [] ∧ ∃ o, ts = ⟨.mark .closeBrace, o⟩ :: rest) ∨
      ∃ e us others, Gives (statement ts) e us ∧ Gives (statements us) others rest ∧
        es = e :: others := by
  unfold statementsAt
  split
  · refine ⟨fun h => absurd h not_gives_error, ?_⟩
    rintro (⟨-, o, heq⟩ | ⟨e, us, others, ⟨hu, -⟩, -⟩)
    · exact absurd heq (by simp)
    · exact absurd hu (by simp)
  · next o us =>
    constructor
    · intro h
      obtain ⟨rfl, rfl⟩ := gives_pure.mp h
      exact .inl ⟨rfl, o, rfl⟩
    · rintro (⟨rfl, o', heq⟩ | ⟨e, us, others, hx, -⟩)
      · exact gives_pure.mpr ⟨rfl, (List.cons.inj heq).2⟩
      · exact absurd rfl hx.statement_start.1
  · refine ⟨fun h => absurd h not_gives_error, ?_⟩
    rintro (⟨-, o, heq⟩ | ⟨e, us, others, hx, -⟩)
    · exact absurd heq (by simp)
    · exact absurd rfl hx.statement_start.2
  · next t us hc _ =>
    constructor
    · intro h
      obtain ⟨⟨e, vs, hv⟩, hx, h⟩ := gives_bind.mp h
      obtain ⟨⟨others, ws, hw⟩, ho, h⟩ := gives_bind.mp h
      obtain ⟨rfl, rfl⟩ := gives_pure.mp h
      exact .inr ⟨e, vs, others, ⟨hv, hx⟩, ⟨hw, ho⟩, rfl⟩
    · rintro (⟨-, o, heq⟩ | ⟨e, vs, others, ⟨hv, hx⟩, ⟨hw, ho⟩, rfl⟩)
      · exact absurd (List.cons.inj heq).1 (hc o)
      · exact gives_bind.mpr ⟨_, hx, gives_bind.mpr ⟨_, ho, gives_pure.mpr ⟨rfl, rfl⟩⟩⟩

theorem gives_statements : Gives (statements ts) es rest ↔
    (es = [] ∧ ∃ o, dropSeparators ts = ⟨.mark .closeBrace, o⟩ :: rest) ∨
      ∃ e us others, Gives (statement (dropSeparators ts)) e us ∧
        Gives (statements us) others rest ∧ es = e :: others := by
  rw [statements, ← gives_statementsAt]
  constructor
  · intro h
    obtain ⟨⟨body, us, hu⟩, hb, h⟩ := gives_bind.mp h
    obtain ⟨rfl, rfl⟩ := gives_pure.mp h
    exact ⟨hu, hb⟩
  · intro ⟨hu, hb⟩
    exact gives_bind.mpr ⟨_, hb, gives_pure.mpr ⟨rfl, rfl⟩⟩

theorem gives_function : Gives (function ts) e rest ↔
    ∃ s o o' us ps vs body, ts = ⟨.name s, o⟩ :: ⟨.mark .openParen, o'⟩ :: us ∧
      Gives (params us) ps vs ∧ Gives (block (returnTag vs).2.val) body rest ∧
      e = .function s ps (returnTag vs).1 body := by
  unfold function
  constructor
  · intro h
    obtain ⟨⟨s, us, hu⟩, hs, h⟩ := gives_bind.mp h
    obtain ⟨⟨vs, hv⟩, hm, h⟩ := gives_bind.mp h
    obtain ⟨⟨ps, ws, hw⟩, hp, h⟩ := gives_bind.mp h
    obtain ⟨⟨body, xs, hx⟩, hb, h⟩ := gives_bind.mp h
    obtain ⟨rfl, rfl⟩ := gives_pure.mp h
    obtain ⟨o, rfl⟩ := name_eq_ok.mp hs
    obtain ⟨o', rfl⟩ := mark_eq_ok.mp hm
    exact ⟨s, o, o', vs, ps, ws, body, rfl, ⟨hw, hp⟩, ⟨hx, hb⟩, rfl⟩
  · rintro ⟨s, o, o', us, ps, vs, body, rfl, ⟨hw, hp⟩, ⟨hx, hb⟩, rfl⟩
    refine gives_bind.mpr ⟨⟨s, _ :: us, by simp⟩, name_eq_ok.mpr ⟨o, rfl⟩, ?_⟩
    refine gives_bind.mpr ⟨⟨us, by simp⟩, mark_eq_ok.mpr ⟨o', rfl⟩, ?_⟩
    exact gives_bind.mpr ⟨_, hp, gives_bind.mpr ⟨_, hb, gives_pure.mpr ⟨rfl, rfl⟩⟩⟩

theorem programAt_eq_ok {ts : List Token} {es : Program} : programAt ts = .ok es ↔
    (es = [] ∧ ∀ t us, ts = t :: us → t.lexeme = .stop) ∨
      ∃ e us others, Gives (statement ts) e us ∧ program us = .ok others ∧ es = e :: others := by
  unfold programAt
  split
  · refine ⟨fun h => .inl ⟨(Except.ok.inj h).symm, by simp⟩, ?_⟩
    rintro (⟨rfl, -⟩ | ⟨e, us, others, ⟨hu, -⟩, -⟩)
    · rfl
    · exact absurd hu (by simp)
  · refine ⟨fun h => .inl ⟨(Except.ok.inj h).symm, by simp⟩, ?_⟩
    rintro (⟨rfl, -⟩ | ⟨e, us, others, hx, -⟩)
    · rfl
    · exact absurd rfl hx.statement_start.2
  · next t us hn =>
    constructor
    · intro h
      obtain ⟨⟨e, vs, hv⟩, hx, h⟩ := bind_eq_ok.mp h
      obtain ⟨others, ho, h⟩ := bind_eq_ok.mp h
      exact .inr ⟨e, vs, others, ⟨hv, hx⟩, ho, (Except.ok.inj h).symm⟩
    · rintro (⟨-, hs⟩ | ⟨e, vs, others, ⟨hv, hx⟩, ho, rfl⟩)
      · exact absurd (show t = ⟨.stop, t.offset⟩ by rw [← hs t us rfl]) (hn t.offset)
      · exact bind_eq_ok.mpr ⟨_, hx, bind_eq_ok.mpr ⟨_, ho, rfl⟩⟩

theorem program_eq_ok {ts : List Token} {es : Program} : program ts = .ok es ↔
    (es = [] ∧ ∀ t us, dropSeparators ts = t :: us → t.lexeme = .stop) ∨
      ∃ e us others, Gives (statement (dropSeparators ts)) e us ∧ program us = .ok others ∧
        es = e :: others := by
  rw [program, programAt_eq_ok]

end Steps

end Radix.Read
