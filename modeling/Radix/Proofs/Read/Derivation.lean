import Radix.Proofs.Read.Step

/-!
# Proofs/Read/Derivation — what the readers read, as a relation

`Derives` says as one inductive relation what the mutually recursive readers do: it holds between a
phrase, the tokens it is read from and the tokens that are left, with the choices of the readers as
premises about the next tokens.

`derives_iff`: a reader gives a phrase exactly if the phrase is derived.  So an invariant of
everything that is read is an induction on derivations, and tokens are shown to be read by deriving
what they stand for.
-/

namespace Radix.Read

/-- Something that a reader reads. -/
inductive Phrase where
  | expression (e : Expr)
  | links (ls : List Link)
  | operand (e : Expr)
  /-- The arguments of a call, after the opening parenthesis. -/
  | arguments (es : List Expr)
  /-- One argument or more, up to the closing parenthesis. -/
  | items (es : List Expr)
  | condition (k : Keyword) (e : Expr)
  /-- A conditional, after its keyword. -/
  | branch (e : Expr)
  | otherwise (es : Option (List Expr))
  | alternative (es : List Expr)
  | block (es : List Expr)
  /-- Statements up to the closing brace. -/
  | statements (es : List Expr)
  | statement (e : Expr)
  | unterminated (e : Expr)
  /-- A function declaration, after its keyword. -/
  | function (e : Expr)

/-! ## Derivations -/

/-- The phrase can be read off the front of the first tokens, and the second ones are left. -/
inductive Derives : Phrase → List Token → List Token → Prop
  | expression {e ls ts us vs} : Derives (.operand e) ts us → Derives (.links ls) us vs →
    Derives (.expression (assemble e ls)) ts vs
  | noLink {ts} : (∀ op o us, ts ≠ ⟨.operator op, o⟩ :: us) → Derives (.links []) ts ts
  | link {op o e ls us vs ws} : Derives (.operand e) us vs → Derives (.links ls) vs ws →
    Derives (.links (⟨op, o, e⟩ :: ls)) (⟨.operator op, o⟩ :: us) ws
  | number {digits o x us} : Numeral.ofDigits 10 digits = .ok x →
    Derives (.operand (.numeral x)) (⟨.number digits, o⟩ :: us) us
  | based {base digits o x us} : Numeral.ofDigits base digits = .ok x →
    Derives (.operand (.numeral x)) (⟨.based base digits, o⟩ :: us) us
  | text {quoted o us} : Derives (.operand (.text quoted o)) (⟨.text quoted, o⟩ :: us) us
  | group {e o us o' vs} : Derives (.expression e) us (⟨.mark .closeParen, o'⟩ :: vs) →
    Derives (.operand e) (⟨.mark .openParen, o⟩ :: us) vs
  | call {s args o o' us vs} : Derives (.arguments args) us vs →
    Derives (.operand (.call s args o)) (⟨.name s, o⟩ :: ⟨.mark .openParen, o'⟩ :: us) vs
  | var {s o us} : (∀ o' vs, us ≠ ⟨.mark .openParen, o'⟩ :: vs) →
    Derives (.operand (.var s)) (⟨.name s, o⟩ :: us) us
  | ret {e o us vs} : Derives (.expression e) us vs →
    Derives (.operand (.ret e o)) (⟨.keyword .retWord, o⟩ :: us) vs
  | conditional {e o us vs} : Derives (.branch e) us vs →
    Derives (.operand e) (⟨.keyword .ifWord, o⟩ :: us) vs
  | whileLoop {l c body o us vs ws xs} : Gives (label us) l vs →
    Derives (.condition .whileWord c) vs ws → Derives (.block body) ws xs →
    Derives (.operand (.whileLoop l c body)) (⟨.keyword .whileWord, o⟩ :: us) xs
  | loop {l body o us vs ws} : Gives (label us) l vs → Derives (.block body) vs ws →
    Derives (.operand (.loop l body)) (⟨.keyword .loopWord, o⟩ :: us) ws
  | breakTo {l o us vs} : Gives (label us) l vs →
    Derives (.operand (.breakTo l)) (⟨.keyword .breakWord, o⟩ :: us) vs
  | continueTo {l o us vs} : Gives (label us) l vs →
    Derives (.operand (.continueTo l)) (⟨.keyword .continueWord, o⟩ :: us) vs
  | noArguments {ts o us} : dropNewlines ts = ⟨.mark .closeParen, o⟩ :: us →
    Derives (.arguments []) ts us
  | arguments {es ts us} : Derives (.items es) (dropNewlines ts) us → Derives (.arguments es) ts us
  | lastItem {e ts us vs} : Derives (.expression e) ts us → Gives (listNext us) false vs →
    Derives (.items [e]) ts vs
  | item {e es ts us vs ws} : Derives (.expression e) ts us → Gives (listNext us) true vs →
    Derives (.items es) vs ws → Derives (.items (e :: es)) ts ws
  | condition {k e o us o' vs} : Derives (.expression e) us (⟨.mark .closeParen, o'⟩ :: vs) →
    Derives (.condition k e) (⟨.mark .openParen, o⟩ :: us) vs
  | branch {l c yes no ts us vs ws xs} : Gives (label ts) l us →
    Derives (.condition .ifWord c) us vs → Derives (.block yes) vs ws →
    Derives (.otherwise no) ws xs → Derives (.branch (.branch l c yes no)) ts xs
  | noElse {ts} : (∀ o us, dropNewlines ts ≠ ⟨.keyword .elseWord, o⟩ :: us) →
    Derives (.otherwise none) ts ts
  | otherwise {es ts o us vs} : dropNewlines ts = ⟨.keyword .elseWord, o⟩ :: us →
    Derives (.alternative es) us vs → Derives (.otherwise (some es)) ts vs
  | elseIf {e o us vs} : Derives (.branch e) us vs →
    Derives (.alternative [e]) (⟨.keyword .ifWord, o⟩ :: us) vs
  | elseBlock {es ts us} : Derives (.block es) ts us → Derives (.alternative es) ts us
  | block {es o us vs} : Derives (.statements es) us vs →
    Derives (.block es) (⟨.mark .openBrace, o⟩ :: us) vs
  | noStatement {ts o us} : dropSeparators ts = ⟨.mark .closeBrace, o⟩ :: us →
    Derives (.statements []) ts us
  | statements {e es ts us vs} : Derives (.statement e) (dropSeparators ts) us →
    Derives (.statements es) us vs → Derives (.statements (e :: es)) ts vs
  | statement {e ts us vs h} : Derives (.unterminated e) ts us → terminator us = .ok ⟨vs, h⟩ →
    Derives (.statement e) ts vs
  | declaration {e o us vs} : Derives (.function e) us vs →
    Derives (.unterminated e) (⟨.keyword .fnWord, o⟩ :: us) vs
  | assignment {s e o o' us vs} : Derives (.expression e) us vs →
    Derives (.unterminated (.assign s e)) (⟨.name s, o⟩ :: ⟨.mark .assign, o'⟩ :: us) vs
  | bare {e ts us} : (∀ s o o' vs, ts ≠ ⟨.name s, o⟩ :: ⟨.mark .assign, o'⟩ :: vs) →
    Derives (.expression e) ts us → Derives (.unterminated e) ts us
  | function {s ps body o o' us vs ws} : Gives (params us) ps vs →
    Derives (.block body) (returnTag vs).2.val ws →
    Derives (.function (.function s ps (returnTag vs).1 body))
      (⟨.name s, o⟩ :: ⟨.mark .openParen, o'⟩ :: us) ws

/-- The reader of the phrase gives it. -/
def Phrase.IsRead (ts rest : List Token) : Phrase → Prop
  | .expression e => Gives (Read.expression ts) e rest
  | .links ls => Gives (Read.links ts) ls rest
  | .operand e => Gives (Read.operand ts) e rest
  | .arguments es => Gives (Read.arguments ts) es rest
  | .items es => Gives (argumentItems ts) es rest
  | .condition k e => Gives (Read.condition k ts) e rest
  | .branch e => Gives (Read.branch ts) e rest
  | .otherwise es => Gives (Read.otherwise ts) es rest
  | .alternative es => Gives (Read.alternative ts) es rest
  | .block es => Gives (Read.block ts) es rest
  | .statements es => Gives (Read.statements ts) es rest
  | .statement e => Gives (Read.statement ts) e rest
  | .unterminated e => Gives (Read.unterminated ts) e rest
  | .function e => Gives (Read.function ts) e rest

/-! ## What is read is derived -/

theorem derives_of_operand {e : Expr} {ts rest : List Token}
    (ih : ∀ (p : Phrase) (us vs : List Token), us.length < ts.length → p.IsRead us vs →
      Derives p us vs)
    (h : Gives (operand ts) e rest) : Derives (.operand e) ts rest := by
  unfold operand at h
  split at h
  · exact absurd h not_gives_error
  · obtain ⟨x, hx, h⟩ := gives_bind.mp h
    obtain ⟨n, hn, rfl⟩ := numeral_eq_ok.mp hx
    obtain ⟨rfl, rfl⟩ := gives_pure.mp h
    exact .number hn
  · obtain ⟨x, hx, h⟩ := gives_bind.mp h
    obtain ⟨n, hn, rfl⟩ := numeral_eq_ok.mp hx
    obtain ⟨rfl, rfl⟩ := gives_pure.mp h
    exact .based hn
  · obtain ⟨rfl, rfl⟩ := gives_pure.mp h
    exact .text
  · obtain ⟨⟨x, us, hu⟩, hx, h⟩ := gives_bind.mp h
    obtain ⟨⟨vs, hv⟩, hm, h⟩ := gives_bind.mp h
    obtain ⟨rfl, rfl⟩ := gives_pure.mp h
    obtain ⟨o', rfl⟩ := mark_eq_ok.mp hm
    exact .group (ih (.expression x) _ _ (by simp) ⟨hu, hx⟩)
  · obtain ⟨⟨args, us, hu⟩, hx, h⟩ := gives_bind.mp h
    obtain ⟨rfl, rfl⟩ := gives_pure.mp h
    exact .call (ih (.arguments args) _ _ (by simp only [List.length_cons]; omega) ⟨hu, hx⟩)
  · next hn =>
    obtain ⟨rfl, rfl⟩ := gives_pure.mp h
    exact .var fun o' vs hv => hn _ _ hv
  · obtain ⟨⟨x, us, hu⟩, hx, h⟩ := gives_bind.mp h
    obtain ⟨rfl, rfl⟩ := gives_pure.mp h
    exact .ret (ih (.expression x) _ _ (by simp) ⟨hu, hx⟩)
  · obtain ⟨⟨x, us, hu⟩, hx, h⟩ := gives_bind.mp h
    obtain ⟨rfl, rfl⟩ := gives_pure.mp h
    exact .conditional (ih (.branch x) _ _ (by simp) ⟨hu, hx⟩)
  · obtain ⟨⟨l, us, hu⟩, hl, h⟩ := gives_bind.mp h
    obtain ⟨⟨c, vs, hv⟩, hc, h⟩ := gives_bind.mp h
    obtain ⟨⟨body, ws, hw⟩, hb, h⟩ := gives_bind.mp h
    obtain ⟨rfl, rfl⟩ := gives_pure.mp h
    exact .whileLoop ⟨hu, hl⟩
      (ih (.condition .whileWord c) _ _ (by simp only [List.length_cons]; omega) ⟨hv, hc⟩)
      (ih (.block body) _ _ (by simp only [List.length_cons]; omega) ⟨hw, hb⟩)
  · obtain ⟨⟨l, us, hu⟩, hl, h⟩ := gives_bind.mp h
    obtain ⟨⟨body, vs, hv⟩, hb, h⟩ := gives_bind.mp h
    obtain ⟨rfl, rfl⟩ := gives_pure.mp h
    exact .loop ⟨hu, hl⟩ (ih (.block body) _ _ (by simp only [List.length_cons]; omega) ⟨hv, hb⟩)
  · obtain ⟨⟨l, us, hu⟩, hl, h⟩ := gives_bind.mp h
    obtain ⟨rfl, rfl⟩ := gives_pure.mp h
    exact .breakTo ⟨hu, hl⟩
  · obtain ⟨⟨l, us, hu⟩, hl, h⟩ := gives_bind.mp h
    obtain ⟨rfl, rfl⟩ := gives_pure.mp h
    exact .continueTo ⟨hu, hl⟩
  · exact absurd h not_gives_error

/-- Readers that call each other on the same tokens, the caller above. -/
def Phrase.rank : Phrase → Nat
  | .arguments _ => 3
  | .items _ => 2
  | .expression _ => 1
  | .branch _ => 1
  | .alternative _ => 1
  | .statements _ => 4
  | .statement _ => 3
  | .unterminated _ => 2
  | _ => 0

theorem Phrase.rank_lt (p : Phrase) : p.rank < 5 := by
  unfold rank
  split <;> omega

/-- **What a reader gives is derived.** -/
theorem derives_of_isRead {p : Phrase} {ts rest : List Token} (h : p.IsRead ts rest) :
    Derives p ts rest := by
  induction hn : 5 * ts.length + p.rank using Nat.strongRecOn generalizing p ts rest with
  | ind n ih =>
    subst hn
    -- A reader calls others on fewer tokens, or on no more tokens but of lower rank.
    have fewer : ∀ (q : Phrase) (us vs : List Token), us.length < ts.length → q.IsRead us vs →
        Derives q us vs := fun q us vs hu hq => by
      have := q.rank_lt
      exact ih _ (by omega) hq rfl
    have lower : ∀ (q : Phrase) (us vs : List Token), us.length ≤ ts.length → q.rank < p.rank →
        q.IsRead us vs → Derives q us vs := fun q us vs hu hr hq => ih _ (by omega) hq rfl
    have newlines := length_dropNewlines_le ts
    have separators := length_dropSeparators_le ts
    match p with
    | .expression e =>
      obtain ⟨x, us, ls, ⟨hu, hx⟩, hl, rfl⟩ := gives_expression.mp h
      exact .expression (lower (.operand x) ts us (by omega) (by simp [Phrase.rank]) ⟨hu, hx⟩)
        (fewer (.links ls) us rest hu hl)
    | .links ls =>
      rcases gives_links.mp h with ⟨rfl, rfl, hn⟩ | ⟨op, o, us, x, vs, others, rfl, hx, ho, rfl⟩
      · exact .noLink hn
      · obtain ⟨hv, -⟩ := id hx
        rw [List.length_cons] at fewer
        exact .link (fewer (.operand x) us vs (by omega) hx)
          (fewer (.links others) vs rest (by omega) ho)
    | .operand e => exact derives_of_operand fewer h
    | .arguments es =>
      rcases gives_arguments.mp h with ⟨rfl, o, ho⟩ | hi
      · exact .noArguments ho
      · exact .arguments (lower (.items es) _ rest newlines (by simp [Phrase.rank]) hi)
    | .items es =>
      obtain ⟨x, us, ⟨hu, hx⟩, h⟩ := gives_argumentItems.mp h
      have hd := lower (.expression x) ts us (by omega) (by simp [Phrase.rank]) ⟨hu, hx⟩
      rcases h with ⟨hm, rfl⟩ | ⟨vs, others, ⟨hv, hm⟩, ho, rfl⟩
      · exact .lastItem hd hm
      · exact .item hd ⟨hv, hm⟩ (fewer (.items others) vs rest (by omega) ho)
    | .condition k e =>
      obtain ⟨o, us, o', rfl, hx⟩ := gives_condition.mp h
      exact .condition (fewer (.expression e) us _ (by simp) hx)
    | .branch e =>
      obtain ⟨l, us, c, vs, yes, ws, no, ⟨hu, hl⟩, ⟨hv, hc⟩, ⟨hw, hy⟩, hn, rfl⟩ :=
        gives_branch.mp h
      exact .branch ⟨hu, hl⟩
        (lower (.condition .ifWord c) us vs hu (by simp [Phrase.rank]) ⟨hv, hc⟩)
        (fewer (.block yes) vs ws (by omega) ⟨hw, hy⟩)
        (fewer (.otherwise no) ws rest (by omega) hn)
    | .otherwise no =>
      rcases gives_otherwise.mp h with ⟨rfl, rfl, hn⟩ | ⟨o, us, body, ho, hb, rfl⟩
      · exact .noElse hn
      · rw [ho, List.length_cons] at newlines
        exact .otherwise ho (fewer (.alternative body) us rest newlines hb)
    | .alternative es =>
      rcases gives_alternative.mp h with ⟨o, us, x, rfl, hx, rfl⟩ | hb
      · exact .elseIf (fewer (.branch x) us rest (by simp) hx)
      · exact .elseBlock (lower (.block es) ts rest (by omega) (by simp [Phrase.rank]) hb)
    | .block es =>
      obtain ⟨o, us, rfl, hb⟩ := gives_block.mp h
      exact .block (fewer (.statements es) us rest (by simp) hb)
    | .statements es =>
      rcases gives_statements.mp h with ⟨rfl, o, ho⟩ | ⟨x, us, others, ⟨hu, hx⟩, ho, rfl⟩
      · exact .noStatement ho
      · exact .statements (lower (.statement x) _ us separators (by simp [Phrase.rank]) ⟨hu, hx⟩)
          (fewer (.statements others) us rest (by omega) ho)
    | .statement e =>
      obtain ⟨us, hr, hu, ht⟩ := gives_statement.mp h
      exact .statement (lower (.unterminated e) ts us (by omega) (by simp [Phrase.rank]) hu) ht
    | .unterminated e =>
      rcases gives_unterminated.mp h with
        ⟨o, us, rfl, hf⟩ | ⟨s, o, o', us, x, rfl, hx, rfl⟩ | ⟨hn, hx⟩
      · exact .declaration (fewer (.function e) us rest (by simp) hf)
      · have hlen : us.length < (⟨.name s, o⟩ :: ⟨.mark .assign, o'⟩ :: us : List Token).length := by
          simp only [List.length_cons]
          omega
        exact .assignment (fewer (.expression x) us rest hlen hx)
      · exact .bare hn (lower (.expression e) ts rest (by omega) (by simp [Phrase.rank]) hx)
    | .function e =>
      obtain ⟨s, o, o', us, ps, vs, body, rfl, ⟨hv, hp⟩, hb, rfl⟩ := gives_function.mp h
      have htag := (returnTag vs).2.property
      refine .function ⟨hv, hp⟩ (fewer (.block body) _ rest ?_ hb)
      simp only [List.length_cons]
      omega

/-- **What is derived, the reader gives.** -/
theorem isRead_of_derives {p : Phrase} {ts rest : List Token} (h : Derives p ts rest) :
    p.IsRead ts rest := by
  induction h with
  | expression _ _ hx hl => exact gives_expression.mpr ⟨_, _, _, hx, hl, rfl⟩
  | noLink hn => exact gives_links.mpr (.inl ⟨rfl, rfl, hn⟩)
  | link _ _ hx hl => exact gives_links.mpr (.inr ⟨_, _, _, _, _, _, rfl, hx, hl, rfl⟩)
  | number hn =>
    simp only [Phrase.IsRead, operand]
    exact gives_bind.mpr ⟨_, numeral_eq_ok.mpr ⟨_, hn, rfl⟩, gives_pure.mpr ⟨rfl, rfl⟩⟩
  | based hn =>
    simp only [Phrase.IsRead, operand]
    exact gives_bind.mpr ⟨_, numeral_eq_ok.mpr ⟨_, hn, rfl⟩, gives_pure.mpr ⟨rfl, rfl⟩⟩
  | text =>
    simp only [Phrase.IsRead, operand]
    exact gives_pure.mpr ⟨rfl, rfl⟩
  | group _ hx =>
    obtain ⟨hu, hx⟩ := hx
    simp only [Phrase.IsRead, operand]
    refine gives_bind.mpr ⟨_, hx, gives_bind.mpr ⟨⟨_, by simp⟩, mark_eq_ok.mpr ⟨_, rfl⟩, ?_⟩⟩
    exact gives_pure.mpr ⟨rfl, rfl⟩
  | call _ ha =>
    obtain ⟨hu, ha⟩ := ha
    simp only [Phrase.IsRead, operand]
    exact gives_bind.mpr ⟨_, ha, gives_pure.mpr ⟨rfl, rfl⟩⟩
  | var hn =>
    simp only [Phrase.IsRead]
    rw [operand]
    · exact gives_pure.mpr ⟨rfl, rfl⟩
    · exact hn
  | ret _ hx =>
    obtain ⟨hu, hx⟩ := hx
    simp only [Phrase.IsRead, operand]
    exact gives_bind.mpr ⟨_, hx, gives_pure.mpr ⟨rfl, rfl⟩⟩
  | conditional _ hx =>
    obtain ⟨hu, hx⟩ := hx
    simp only [Phrase.IsRead, operand]
    exact gives_bind.mpr ⟨_, hx, gives_pure.mpr ⟨rfl, rfl⟩⟩
  | whileLoop hl _ _ hc hb =>
    obtain ⟨hu, hl⟩ := hl
    obtain ⟨hv, hc⟩ := hc
    obtain ⟨hw, hb⟩ := hb
    simp only [Phrase.IsRead, operand]
    exact gives_bind.mpr ⟨_, hl, gives_bind.mpr ⟨_, hc, gives_bind.mpr ⟨_, hb,
      gives_pure.mpr ⟨rfl, rfl⟩⟩⟩⟩
  | loop hl _ hb =>
    obtain ⟨hu, hl⟩ := hl
    obtain ⟨hv, hb⟩ := hb
    simp only [Phrase.IsRead, operand]
    exact gives_bind.mpr ⟨_, hl, gives_bind.mpr ⟨_, hb, gives_pure.mpr ⟨rfl, rfl⟩⟩⟩
  | breakTo hl =>
    obtain ⟨hu, hl⟩ := hl
    simp only [Phrase.IsRead, operand]
    exact gives_bind.mpr ⟨_, hl, gives_pure.mpr ⟨rfl, rfl⟩⟩
  | continueTo hl =>
    obtain ⟨hu, hl⟩ := hl
    simp only [Phrase.IsRead, operand]
    exact gives_bind.mpr ⟨_, hl, gives_pure.mpr ⟨rfl, rfl⟩⟩
  | noArguments hd => exact gives_arguments.mpr (.inl ⟨rfl, _, hd⟩)
  | arguments _ hi => exact gives_arguments.mpr (.inr hi)
  | lastItem _ hm hx => exact gives_argumentItems.mpr ⟨_, _, hx, .inl ⟨hm, rfl⟩⟩
  | item _ hm _ hx ho => exact gives_argumentItems.mpr ⟨_, _, hx, .inr ⟨_, _, hm, ho, rfl⟩⟩
  | condition _ hx => exact gives_condition.mpr ⟨_, _, _, rfl, hx⟩
  | branch hl _ _ _ hc hy hn =>
    exact gives_branch.mpr ⟨_, _, _, _, _, _, _, hl, hc, hy, hn, rfl⟩
  | noElse hn => exact gives_otherwise.mpr (.inl ⟨rfl, rfl, hn⟩)
  | otherwise ho _ hb => exact gives_otherwise.mpr (.inr ⟨_, _, _, ho, hb, rfl⟩)
  | elseIf _ hx => exact gives_alternative.mpr (.inl ⟨_, _, _, rfl, hx, rfl⟩)
  | elseBlock _ hb => exact gives_alternative.mpr (.inr hb)
  | block _ hb => exact gives_block.mpr ⟨_, _, rfl, hb⟩
  | noStatement hd => exact gives_statements.mpr (.inl ⟨rfl, _, hd⟩)
  | statements _ _ hx ho => exact gives_statements.mpr (.inr ⟨_, _, _, hx, ho, rfl⟩)
  | statement _ ht hx => exact gives_statement.mpr ⟨_, _, hx, ht⟩
  | declaration _ hf => exact gives_unterminated.mpr (.inl ⟨_, _, rfl, hf⟩)
  | assignment _ hx =>
    exact gives_unterminated.mpr (.inr (.inl ⟨_, _, _, _, _, rfl, hx, rfl⟩))
  | bare hn _ hx => exact gives_unterminated.mpr (.inr (.inr ⟨hn, hx⟩))
  | function hp _ hb => exact gives_function.mpr ⟨_, _, _, _, _, _, _, rfl, hp, hb, rfl⟩

/-- **The readers read exactly what is derived.** -/
theorem derives_iff {p : Phrase} {ts rest : List Token} :
    Derives p ts rest ↔ p.IsRead ts rest :=
  ⟨isRead_of_derives, derives_of_isRead⟩

/-! ## Programs -/

/-- The program can be read from the tokens: statements up to the end of the source. -/
inductive DerivesProgram : List Token → Program → Prop
  | done {ts} : (∀ t us, dropSeparators ts = t :: us → t.lexeme = .stop) → DerivesProgram ts []
  | more {e es ts us} : Derives (.statement e) (dropSeparators ts) us → DerivesProgram us es →
    DerivesProgram ts (e :: es)

/-- **A program is read exactly if it is derived.** -/
theorem derivesProgram_iff {ts : List Token} {es : Program} :
    DerivesProgram ts es ↔ program ts = .ok es := by
  constructor
  · intro h
    induction h with
    | done hs => exact program_eq_ok.mpr (.inl ⟨rfl, hs⟩)
    | more hx _ ho => exact program_eq_ok.mpr (.inr ⟨_, _, _, derives_iff.mp hx, ho, rfl⟩)
  · intro h
    induction es generalizing ts with
    | nil =>
      rcases program_eq_ok.mp h with ⟨-, hs⟩ | ⟨e, us, others, -, -, heq⟩
      · exact .done hs
      · exact absurd heq (by simp)
    | cons e es ih =>
      rcases program_eq_ok.mp h with ⟨heq, -⟩ | ⟨x, us, others, hx, ho, heq⟩
      · exact absurd heq (by simp)
      · obtain ⟨rfl, rfl⟩ := List.cons.inj heq
        exact .more (derives_iff.mpr hx) (ih ho)

end Radix.Read
