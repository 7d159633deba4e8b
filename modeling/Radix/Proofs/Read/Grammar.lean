import Radix.Proofs.Read.Spelt

/-!
# Proofs/Read/Grammar — the grammar of the language, and that nothing else is read

`Sentence` is the grammar as it is written down for readers: one rule for each alternative, with no
word on what a reader looks at before it decides.  What the readers take off the front of a list of
tokens is always a sentence of the construct that was asked for, and the numerals in it are numerals
of their base (`Derives.spans`).
-/

namespace Radix

/-- A numeral that is written in its base; any other lexeme. -/
def Lexeme.Valid : Lexeme → Prop
  | .number digits => ∃ x, Numeral.ofDigits 10 digits = .ok x
  | .based base payload => ∃ x, Numeral.ofDigits base payload = .ok x
  | _ => True

namespace Read

/-! ## Sentences -/

/-- What a list in parentheses is made of. -/
inductive Item where
  | argument
  | parameter

/-- The categories of the grammar. -/
inductive Category where
  /-- The statements of a program or of a block. -/
  | statements
  /-- What follows the first statement. -/
  | lines
  | block
  | statement
  | expression
  /-- What follows the first operand. -/
  | chain
  | operand
  | conditional
  /-- What may follow the block of a conditional. -/
  | otherwise
  | item (k : Item)
  /-- A list of items, after the opening parenthesis. -/
  | list (k : Item)
  /-- One item or more, up to the closing parenthesis. -/
  | items (k : Item)

/-- Nothing but separators of statements. -/
def Separators (ls : List Lexeme) : Prop := ∀ l ∈ ls, l = .newline ∨ l = .mark .semicolon

/-- Nothing but line ends. -/
def Newlines (ls : List Lexeme) : Prop := ∀ l ∈ ls, l = .newline

/-- The lexemes are a sentence of the category. -/
inductive Sentence : Category → List Lexeme → Prop
  -- Statements, with separators around them and at least one between them.
  | blank {seps} : Separators seps → Sentence .statements seps
  | statements {seps s more} : Separators seps → Sentence .statement s → Sentence .lines more →
    Sentence .statements (seps ++ (s ++ more))
  | lastLine {seps} : Separators seps → Sentence .lines seps
  | line {seps s more} : Separators seps → seps ≠ [] → Sentence .statement s →
    Sentence .lines more → Sentence .lines (seps ++ (s ++ more))
  | block {body} : Sentence .statements body → Sentence .block (braced body)
  | declaration {name params tag body} : Sentence (.list .parameter) params →
    Sentence .block body → Sentence .statement
      (.keyword .fnWord :: .name name :: .mark .openParen :: (params ++ (printTag tag ++ body)))
  | assignment {name e} : Sentence .expression e →
    Sentence .statement (.name name :: .mark .assign :: e)
  | bare {e} : Sentence .expression e → Sentence .statement e
  -- Operands with operators between them.
  | expression {x more} : Sentence .operand x → Sentence .chain more →
    Sentence .expression (x ++ more)
  | noLink : Sentence .chain []
  | link {op x more} : Sentence .operand x → Sentence .chain more →
    Sentence .chain (.operator op :: (x ++ more))
  | number {digits} : Sentence .operand [.number digits]
  | based {base payload} : Sentence .operand [.based base payload]
  | text {quoted} : Sentence .operand [.text quoted]
  | var {name} : Sentence .operand [.name name]
  | call {name args} : Sentence (.list .argument) args →
    Sentence .operand (.name name :: .mark .openParen :: args)
  | group {e} : Sentence .expression e → Sentence .operand (parenthesized e)
  | ret {e} : Sentence .expression e → Sentence .operand (.keyword .retWord :: e)
  | branch {c} : Sentence .conditional c → Sentence .operand c
  | whileLoop {label c body} : Sentence .expression c → Sentence .block body →
    Sentence .operand (.keyword .whileWord :: (printLabel label ++ (parenthesized c ++ body)))
  | loop {label body} : Sentence .block body →
    Sentence .operand (.keyword .loopWord :: (printLabel label ++ body))
  | breakTo {label} : Sentence .operand (.keyword .breakWord :: printLabel label)
  | continueTo {label} : Sentence .operand (.keyword .continueWord :: printLabel label)
  -- Conditionals; an `else` may stand on a later line.
  | conditional {label c yes no} : Sentence .expression c → Sentence .block yes →
    Sentence .otherwise no → Sentence .conditional
      (.keyword .ifWord :: (printLabel label ++ (parenthesized c ++ (yes ++ no))))
  | noElse : Sentence .otherwise []
  | elseIf {ns c} : Newlines ns → Sentence .conditional c →
    Sentence .otherwise (ns ++ .keyword .elseWord :: c)
  | elseBlock {ns b} : Newlines ns → Sentence .block b →
    Sentence .otherwise (ns ++ .keyword .elseWord :: b)
  -- Items with commas between them, and line ends anywhere around them.
  | argument {e} : Sentence .expression e → Sentence (.item .argument) e
  | parameter {tag name} : Sentence (.item .parameter) [.name tag, .name name]
  | noItem {k ns} : Newlines ns → Sentence (.list k) (ns ++ [.mark .closeParen])
  | list {k ns is} : Newlines ns → Sentence (.items k) is → Sentence (.list k) (ns ++ is)
  | lastItem {k i ns} : Sentence (.item k) i → Newlines ns →
    Sentence (.items k) (i ++ (ns ++ [.mark .closeParen]))
  | items {k i ns ns' is} : Sentence (.item k) i → Newlines ns → Newlines ns' →
    Sentence (.items k) is → Sentence (.items k) (i ++ (ns ++ .mark .comma :: (ns' ++ is)))

/-! ## How sentences begin -/

/-- Is every sentence of the category one that begins an expression or a statement? -/
def Category.opens : Category → Bool
  | .statement | .expression | .operand | .conditional | .item _ | .items _ => true
  | _ => false

theorem opens_append {ls : List Lexeme} (h : ∃ l ms, ls = l :: ms ∧ l.opens = true)
    (more : List Lexeme) : ∃ l ms, ls ++ more = l :: ms ∧ l.opens = true := by
  obtain ⟨l, ms, rfl, hl⟩ := h
  exact ⟨l, ms ++ more, rfl, hl⟩

theorem Sentence.opens {c : Category} {ls : List Lexeme} (h : Sentence c ls)
    (hc : c.opens = true) : ∃ l ms, ls = l :: ms ∧ l.opens = true := by
  induction h with
  | blank _ | statements _ _ _ | lastLine _ | line _ _ _ _ | block _ | noLink | link _ _ | noElse
  | elseIf _ _ | elseBlock _ _ | noItem _ | list _ _ => exact absurd hc (by simp [Category.opens])
  | declaration _ _ | assignment _ | number | based | text | var | call _ | group _ | ret _
  | whileLoop _ _ | loop _ | breakTo | continueTo | conditional _ _ _ | parameter =>
    exact ⟨_, _, rfl, rfl⟩
  | bare _ ih | branch _ ih | argument _ ih => exact ih rfl
  | expression _ _ ih _ | lastItem _ _ ih | items _ _ _ _ ih _ => exact opens_append (ih rfl) _

/-- Statements do not begin where a block or the source ends. -/
theorem Sentence.statements_head {l : Lexeme} {ms : List Lexeme}
    (h : Sentence .statements (l :: ms)) : l ≠ .mark .closeBrace ∧ l ≠ .stop := by
  have separator : ∀ seps : List Lexeme, Separators seps → l ∈ seps →
      l ≠ .mark .closeBrace ∧ l ≠ .stop := by
    intro seps hs hl
    rcases hs l hl with rfl | rfl <;> simp
  generalize hls : l :: ms = ls at h
  cases h with
  | blank hs =>
    subst hls
    exact separator _ hs (by simp)
  | @statements seps s more hs hstmt _ =>
    match seps with
    | [] =>
      obtain ⟨m, rest, rfl, hm⟩ := hstmt.opens rfl
      obtain ⟨rfl, -⟩ := List.cons.inj hls
      constructor <;> rintro rfl <;> exact absurd hm (by decide)
    | m :: seps =>
      obtain ⟨rfl, -⟩ := List.cons.inj hls
      exact separator _ hs (by simp)

theorem Separators.no_stop {ls : List Lexeme} (h : Separators ls) : .stop ∉ ls := fun hm => by
  rcases h _ hm with hl | hl <;> cases hl

theorem Newlines.no_stop {ls : List Lexeme} (h : Newlines ls) : .stop ∉ ls := fun hm => by
  cases h _ hm

theorem no_stop_printLabel (l : Option String) : .stop ∉ printLabel l := by
  cases l <;> simp [printLabel]

theorem no_stop_printTag (tag : Option String) : .stop ∉ printTag tag := by
  cases tag <;> simp [printTag]

/-- The end of the source is in no sentence. -/
theorem Sentence.no_stop {c : Category} {ls : List Lexeme} (h : Sentence c ls) : .stop ∉ ls := by
  induction h with
  | blank hs | lastLine hs => exact hs.no_stop
  | statements hs _ _ h₁ h₂ | line hs _ _ _ h₁ h₂ => simp [hs.no_stop, h₁, h₂]
  | bare _ h | branch _ h | argument _ h => exact h
  | noLink | noElse | number | based | text | var | parameter => simp
  | block _ h | group _ h => simpa [braced, parenthesized] using h
  | assignment _ h | call _ h | ret _ h => simpa using h
  | declaration _ _ h₁ h₂ => simp [no_stop_printTag, h₁, h₂]
  | expression _ _ h₁ h₂ | link _ _ h₁ h₂ => simp [h₁, h₂]
  | whileLoop _ _ h₁ h₂ => simp [no_stop_printLabel, parenthesized, h₁, h₂]
  | loop _ h => simp [no_stop_printLabel, h]
  | breakTo | continueTo => simp [no_stop_printLabel]
  | conditional _ _ _ h₁ h₂ h₃ => simp [no_stop_printLabel, parenthesized, h₁, h₂, h₃]
  | elseIf hns _ h | elseBlock hns _ h | list hns _ h => simp [hns.no_stop, h]
  | noItem hns => simp [hns.no_stop]
  | lastItem _ hns h => simp [hns.no_stop, h]
  | items _ hns hns' _ h₁ h₂ => simp [hns.no_stop, hns'.no_stop, h₁, h₂]

/-- Statements after a separator are lines. -/
theorem Sentence.lines_cons {l : Lexeme} {ls : List Lexeme}
    (hl : l = .newline ∨ l = .mark .semicolon) (h : Sentence .statements ls) :
    Sentence .lines (l :: ls) := by
  have more : ∀ seps, Separators seps → Separators (l :: seps) := fun seps hs m hm => by
    rcases List.mem_cons.mp hm with rfl | hm
    · exact hl
    · exact hs m hm
  cases h with
  | blank hs => exact .lastLine (more _ hs)
  | statements hs hstmt hmore => exact .line (more _ hs) (by simp) hstmt hmore

/-! ## Stretches of tokens -/

/-- The tokens in front of `rest` spell what `P` allows, and their numerals are valid. -/
def Spans (P : List Lexeme → Prop) (ts rest : List Token) : Prop :=
  ∃ us, ts = us ++ rest ∧ (∀ t ∈ us, t.lexeme.Valid) ∧ P (us.map (·.lexeme))

section Spans

variable {P Q R : List Lexeme → Prop} {ts us rest : List Token}

theorem spans_nil (h : P []) : Spans P ts ts := ⟨[], rfl, by simp, h⟩

theorem Spans.mono (h : Spans P ts rest) (hPQ : ∀ ls, P ls → Q ls) : Spans Q ts rest := by
  obtain ⟨as, rfl, hv, hp⟩ := h
  exact ⟨as, rfl, hv, hPQ _ hp⟩

theorem spans_cons {l : Lexeme} {o : Nat} (hl : l.Valid)
    (h : Spans (fun ls => P (l :: ls)) us rest) : Spans P (⟨l, o⟩ :: us) rest := by
  obtain ⟨as, rfl, hv, hp⟩ := h
  refine ⟨⟨l, o⟩ :: as, rfl, fun t ht => ?_, hp⟩
  rcases List.mem_cons.mp ht with rfl | ht
  · exact hl
  · exact hv t ht

theorem Spans.append (h : Spans P ts us) (h' : Spans Q us rest)
    (hR : ∀ ls ms, P ls → Q ms → R (ls ++ ms)) : Spans R ts rest := by
  obtain ⟨as, rfl, ha, hp⟩ := h
  obtain ⟨bs, rfl, hb, hq⟩ := h'
  refine ⟨as ++ bs, by rw [List.append_assoc], fun t ht => ?_, ?_⟩
  · rcases List.mem_append.mp ht with ht | ht
    · exact ha t ht
    · exact hb t ht
  · rw [List.map_append]
    exact hR _ _ hp hq

/-- The last token of a stretch stands in front of what is left. -/
theorem Spans.close {l : Lexeme} {o : Nat} (h : Spans P ts (⟨l, o⟩ :: rest)) (hl : l.Valid)
    (hR : ∀ ls, P ls → R (ls ++ [l])) : Spans R ts rest := by
  refine h.append (Q := (· = [l])) (spans_cons hl (spans_nil rfl)) fun ls _ hp hls => ?_
  rw [hls]
  exact hR ls hp

/-- What is skipped in front of a list of tokens. -/
theorem spans_dropWhile {skip : Token → Bool} {p : Lexeme → Prop}
    (h : ∀ t, skip t = true → p t.lexeme ∧ t.lexeme.Valid) (ts : List Token) :
    Spans (fun ls => ∀ l ∈ ls, p l) ts (ts.dropWhile skip) := by
  have skipped : ∀ t ∈ ts.takeWhile skip, skip t = true := fun t ht =>
    List.all_eq_true.mp List.all_takeWhile t ht
  refine ⟨ts.takeWhile skip, List.takeWhile_append_dropWhile.symm,
    fun t ht => (h t (skipped t ht)).2, fun l hl => ?_⟩
  obtain ⟨t, ht, rfl⟩ := List.mem_map.mp hl
  exact (h t (skipped t ht)).1

end Spans

theorem spans_dropNewlines (ts : List Token) : Spans Newlines ts (dropNewlines ts) := by
  refine spans_dropWhile (fun t ht => ?_) ts
  have hl : t.lexeme = .newline := of_decide_eq_true ht
  exact ⟨hl, hl ▸ trivial⟩

theorem separator_of_isSeparator {t : Token} (h : isSeparator t = true) :
    t.lexeme = .newline ∨ t.lexeme = .mark .semicolon := by
  simpa [isSeparator] using h

theorem spans_dropSeparators (ts : List Token) : Spans Separators ts (dropSeparators ts) := by
  refine spans_dropWhile (fun t ht => ?_) ts
  have hl := separator_of_isSeparator ht
  refine ⟨hl, ?_⟩
  rcases hl with hl | hl <;> exact hl ▸ trivial

/-! ## Labels, lists and parameters -/

theorem spans_label {ts rest : List Token} {l : Option String} (h : Gives (label ts) l rest) :
    Spans (· = printLabel l) ts rest := by
  unfold label at h
  split at h
  · obtain ⟨⟨s, us, hu⟩, hs, h⟩ := gives_bind.mp h
    obtain ⟨rfl, rfl⟩ := gives_pure.mp h
    obtain ⟨o, rfl⟩ := name_eq_ok.mp hs
    exact spans_cons trivial (spans_cons trivial (spans_nil rfl))
  · obtain ⟨rfl, rfl⟩ := gives_pure.mp h
    exact spans_nil rfl

theorem gives_listNextAt_cases {ts rest : List Token} {more : Bool}
    (h : Gives (listNextAt ts) more rest) :
    (more = true ∧ ∃ o us, ts = ⟨.mark .comma, o⟩ :: us ∧ rest = dropNewlines us) ∨
      (more = false ∧ ∃ o, ts = ⟨.mark .closeParen, o⟩ :: rest) := by
  obtain ⟨hr, h⟩ := h
  match ts with
  | ⟨l, o⟩ :: us =>
    by_cases hc : l = .mark .comma
    · obtain ⟨rfl, rfl⟩ : true = more ∧ dropNewlines us = rest := by simpa [listNextAt, hc] using h
      exact .inl ⟨rfl, o, us, by rw [hc], rfl⟩
    · by_cases hp : l = .mark .closeParen
      · obtain ⟨rfl, rfl⟩ : false = more ∧ us = rest := by simpa [listNextAt, hp] using h
        exact .inr ⟨rfl, o, by rw [hp]⟩
      · exact absurd h (by simp [listNextAt, hc, hp])

theorem spans_listNext_close {ts rest : List Token} (h : Gives (listNext ts) false rest) :
    Spans (fun ls => ∃ ns, Newlines ns ∧ ls = ns ++ [.mark .closeParen]) ts rest := by
  refine (spans_dropNewlines ts).append (Q := (· = [.mark .closeParen])) ?_
    fun ns _ hns hls => ⟨ns, hns, hls ▸ rfl⟩
  rcases gives_listNextAt_cases (gives_listNext.mp h) with ⟨hmore, -⟩ | ⟨-, o, ho⟩
  · exact absurd hmore (by decide)
  · rw [ho]
    exact spans_cons trivial (spans_nil rfl)

theorem spans_listNext_comma {ts rest : List Token} (h : Gives (listNext ts) true rest) :
    Spans (fun ls => ∃ ns ns', Newlines ns ∧ Newlines ns' ∧ ls = ns ++ .mark .comma :: ns')
      ts rest := by
  refine (spans_dropNewlines ts).append (Q := fun ls => ∃ ns', Newlines ns' ∧
    ls = .mark .comma :: ns') ?_ fun ns _ hns ⟨ns', hns', hls⟩ => ⟨ns, ns', hns, hns', hls ▸ rfl⟩
  rcases gives_listNextAt_cases (gives_listNext.mp h) with ⟨-, o, us, ho, rfl⟩ | ⟨hmore, -⟩
  · rw [ho]
    exact spans_cons trivial ((spans_dropNewlines us).mono fun ns' hns' => ⟨ns', hns', rfl⟩)
  · exact absurd hmore (by decide)

/-- An item, with what follows it, is a list of items. -/
theorem Spans.lastItem {k : Item} {ts us rest : List Token} (h : Spans (Sentence (.item k)) ts us)
    (hn : Gives (listNext us) false rest) : Spans (Sentence (.items k)) ts rest := by
  refine h.append (spans_listNext_close hn) ?_
  rintro _ _ hi ⟨ns, hns, rfl⟩
  exact .lastItem hi hns

theorem Spans.items {k : Item} {ts us vs rest : List Token} (h : Spans (Sentence (.item k)) ts us)
    (hn : Gives (listNext us) true vs) (h' : Spans (Sentence (.items k)) vs rest) :
    Spans (Sentence (.items k)) ts rest := by
  refine h.append ((spans_listNext_comma hn).append h' (R := fun ls => ∃ ns ns' is, Newlines ns ∧
    Newlines ns' ∧ Sentence (.items k) is ∧ ls = ns ++ .mark .comma :: (ns' ++ is)) ?_) ?_
  · rintro _ is ⟨ns, ns', hns, hns', rfl⟩ his
    exact ⟨ns, ns', is, hns, hns', his, by simp⟩
  · rintro i _ hi ⟨ns, ns', is, hns, hns', his, rfl⟩
    exact .items hi hns hns' his

theorem spans_noItem {k : Item} {ts rest : List Token} {o : Nat}
    (h : dropNewlines ts = ⟨.mark .closeParen, o⟩ :: rest) :
    Spans (Sentence (.list k)) ts rest := by
  refine (spans_dropNewlines ts).append (Q := (· = [.mark .closeParen])) ?_
    fun ns _ hns hls => hls ▸ .noItem hns
  rw [h]
  exact spans_cons trivial (spans_nil rfl)

theorem Spans.list {k : Item} {ts rest : List Token}
    (h : Spans (Sentence (.items k)) (dropNewlines ts) rest) : Spans (Sentence (.list k)) ts rest :=
  (spans_dropNewlines ts).append h fun _ _ => .list

theorem param_cases {ts rest : List Token} {p : Param} (h : Gives (param ts) p rest) :
    ∃ o o', ts = ⟨.name p.tag, o⟩ :: ⟨.name p.name, o'⟩ :: rest := by
  unfold param at h
  obtain ⟨⟨tag, us, hu⟩, htag, h⟩ := gives_bind.mp h
  obtain ⟨⟨s, vs, hv⟩, hs, h⟩ := gives_bind.mp h
  obtain ⟨rfl, rfl⟩ := gives_pure.mp h
  obtain ⟨o, rfl⟩ := name_eq_ok.mp htag
  obtain ⟨o', rfl⟩ := name_eq_ok.mp hs
  exact ⟨o, o', rfl⟩

theorem spans_param {ts rest : List Token} {p : Param} (h : Gives (param ts) p rest) :
    Spans (Sentence (.item .parameter)) ts rest := by
  obtain ⟨o, o', rfl⟩ := param_cases h
  exact spans_cons trivial (spans_cons trivial (spans_nil .parameter))

theorem paramItems_cases {ts rest : List Token} {ps : List Param}
    (h : Gives (paramItems ts) ps rest) : ∃ p us, Gives (param ts) p us ∧
      ((Gives (listNext us) false rest ∧ ps = [p]) ∨
        ∃ vs others, Gives (listNext us) true vs ∧ Gives (paramItems vs) others rest ∧
          ps = p :: others) := by
  unfold paramItems at h
  obtain ⟨⟨p, us, hu⟩, hp, h⟩ := gives_bind.mp h
  obtain ⟨⟨more, vs, hv⟩, hn, h⟩ := gives_bind.mp h
  refine ⟨p, us, ⟨hu, hp⟩, ?_⟩
  match more with
  | true =>
    obtain ⟨⟨others, ws, hw⟩, ho, h⟩ := gives_bind.mp h
    obtain ⟨rfl, rfl⟩ := gives_pure.mp h
    exact .inr ⟨vs, others, ⟨hv, hn⟩, ⟨hw, ho⟩, rfl⟩
  | false =>
    obtain ⟨rfl, rfl⟩ := gives_pure.mp h
    exact .inl ⟨⟨hv, hn⟩, rfl⟩

theorem spans_paramItems {ts rest : List Token} {ps : List Param}
    (h : Gives (paramItems ts) ps rest) : Spans (Sentence (.items .parameter)) ts rest := by
  induction ps generalizing ts with
  | nil => obtain ⟨p, us, -, ⟨-, hps⟩ | ⟨vs, others, -, -, hps⟩⟩ := paramItems_cases h <;> cases hps
  | cons q ps ih =>
    obtain ⟨p, us, hp, ⟨hn, -⟩ | ⟨vs, others, hn, ho, hps⟩⟩ := paramItems_cases h
    · exact (spans_param hp).lastItem hn
    · obtain ⟨-, rfl⟩ := List.cons.inj hps
      exact (spans_param hp).items hn (ih ho)

theorem params_cases {ts rest : List Token} {ps : List Param} (h : Gives (params ts) ps rest) :
    (ps = [] ∧ ∃ o, dropNewlines ts = ⟨.mark .closeParen, o⟩ :: rest) ∨
      Gives (paramItems (dropNewlines ts)) ps rest := by
  unfold params at h
  obtain ⟨⟨qs, us, hu⟩, hq, h⟩ := gives_bind.mp h
  obtain ⟨rfl, rfl⟩ := gives_pure.mp h
  have hat : Gives (paramsAt (dropNewlines ts)) qs us := ⟨hu, hq⟩
  generalize dropNewlines ts = vs at hat
  unfold paramsAt at hat
  split at hat
  · next o _ =>
    obtain ⟨rfl, rfl⟩ := gives_pure.mp hat
    exact .inl ⟨rfl, o, rfl⟩
  · exact .inr hat

theorem spans_params {ts rest : List Token} {ps : List Param} (h : Gives (params ts) ps rest) :
    Spans (Sentence (.list .parameter)) ts rest := by
  rcases params_cases h with ⟨-, o, hd⟩ | hitems
  · exact spans_noItem hd
  · exact (spans_paramItems hitems).list

theorem spans_returnTag (ts : List Token) :
    Spans (· = printTag (returnTag ts).1) ts (returnTag ts).2.val := by
  unfold returnTag
  split
  · exact spans_cons trivial (spans_nil rfl)
  · exact spans_nil rfl

/-! ## What is read -/

/-- The source, the block or the tokens end here. -/
def Halts (rest : List Token) : Prop :=
  ∀ t us, rest = t :: us → t.lexeme = .stop ∨ t.lexeme = .mark .closeBrace

/-- Statements, and then the lexemes of the tail. -/
def StatementsThen (tail ls : List Lexeme) : Prop :=
  ∃ body, Sentence .statements body ∧ ls = body ++ tail

/-- What the lexemes of a phrase are, with `rest` after them. -/
def Phrase.Shape (rest : List Token) (ls : List Lexeme) : Phrase → Prop
  | .expression _ => Sentence .expression ls
  | .links _ => Sentence .chain ls
  | .operand _ => Sentence .operand ls
  | .arguments _ => Sentence (.list .argument) ls
  | .items _ => Sentence (.items .argument) ls
  | .condition _ _ => ∃ e, Sentence .expression e ∧ ls = parenthesized e
  | .branch _ => Sentence .conditional (.keyword .ifWord :: ls)
  | .otherwise _ => Sentence .otherwise ls
  | .alternative _ => ∀ ns, Newlines ns → Sentence .otherwise (ns ++ .keyword .elseWord :: ls)
  | .block _ => Sentence .block ls
  | .statements _ => StatementsThen [.mark .closeBrace] ls
  | .statement _ => (∃ s l, Sentence .statement s ∧ Separators [l] ∧ ls = s ++ [l]) ∨
      Sentence .statement ls ∧ Halts rest
  | .unterminated _ => Sentence .statement ls
  | .function _ => Sentence .statement (.keyword .fnWord :: ls)

theorem terminator_cases {ts rest : List Token} {h : rest.length ≤ ts.length}
    (ht : terminator ts = .ok ⟨rest, h⟩) :
    (∃ t, isSeparator t = true ∧ ts = t :: rest) ∨ (ts = rest ∧ Halts rest) := by
  match ts with
  | [] =>
    obtain rfl : [] = rest := by simpa [terminator] using ht
    exact .inr ⟨rfl, by simp [Halts]⟩
  | t :: ts =>
    by_cases hs : isSeparator t = true
    · obtain rfl : ts = rest := by simpa [terminator, hs] using ht
      exact .inl ⟨t, hs, rfl⟩
    · by_cases hh : t.lexeme = .stop ∨ t.lexeme = .mark .closeBrace
      · obtain rfl : t :: ts = rest := by simpa [terminator, hs, hh] using ht
        refine .inr ⟨rfl, fun u us hu => ?_⟩
        rw [← (List.cons.inj hu).1]
        exact hh
      · exact absurd ht (by simp [terminator, hs, hh])

/-- A statement with its end, and the statements after it. -/
theorem sentence_statements {seps ls ms : List Lexeme} {rest : List Token} {e : Expr}
    (hseps : Separators seps) (h : (Phrase.statement e).Shape rest ls)
    (hm : Sentence .statements ms) (hrest : ∀ l ks, ms = l :: ks → ∃ o us, rest = ⟨l, o⟩ :: us) :
    Sentence .statements (seps ++ (ls ++ ms)) := by
  rcases h with ⟨s, l, hs, hl, rfl⟩ | ⟨hs, hhalt⟩
  · rw [List.append_assoc]
    exact .statements hseps hs (hm.lines_cons (hl l (by simp)))
  · -- No statement follows a statement without a separator.
    match ms with
    | [] => exact .statements hseps hs (.lastLine nofun)
    | l :: ks =>
      obtain ⟨o, us, rfl⟩ := hrest l ks rfl
      rcases hhalt _ _ rfl with rfl | rfl
      · exact absurd rfl hm.statements_head.2
      · exact absurd rfl hm.statements_head.1

theorem Spans.statements {e : Expr} {tail : List Lexeme} {ts us rest : List Token}
    (hx : Spans (fun ls => (Phrase.statement e).Shape us ls) (dropSeparators ts) us)
    (ho : Spans (StatementsThen tail) us rest) : Spans (StatementsThen tail) ts rest := by
  obtain ⟨bs, rfl, hb, body, hbody, hbs⟩ := ho
  have hrest : ∀ l ks, body = l :: ks → ∃ o as, bs ++ rest = ⟨l, o⟩ :: as := by
    rintro l ks rfl
    obtain ⟨o, as, rfl, -⟩ := spelt_cons.mp hbs
    exact ⟨o, as ++ rest, rfl⟩
  refine (spans_dropSeparators ts).append (hx.append (Q := (· = body ++ tail))
    ⟨bs, rfl, hb, hbs⟩ (R := fun ls => ∃ s, (Phrase.statement e).Shape (bs ++ rest) s ∧
      ls = s ++ (body ++ tail)) ?_) ?_
  · rintro s _ hs rfl
    exact ⟨s, hs, rfl⟩
  · rintro seps _ hseps ⟨s, hs, rfl⟩
    exact ⟨_, sentence_statements hseps hs hbody hrest, by simp⟩

/-- **What is read is a sentence.** -/
theorem Derives.spans {p : Phrase} {ts rest : List Token} (h : Derives p ts rest) :
    Spans (p.Shape rest) ts rest := by
  induction h with
  | expression _ _ hx hl => exact hx.append hl fun _ _ => .expression
  | noLink _ => exact spans_nil .noLink
  | link _ _ hx hl => exact spans_cons trivial (hx.append hl fun _ _ => .link)
  | number hx => exact spans_cons ⟨_, hx⟩ (spans_nil .number)
  | based hx => exact spans_cons ⟨_, hx⟩ (spans_nil .based)
  | text => exact spans_cons trivial (spans_nil .text)
  | var _ => exact spans_cons trivial (spans_nil .var)
  | group _ hx => exact spans_cons trivial (hx.close trivial fun _ => .group)
  | call _ ha => exact spans_cons trivial (spans_cons trivial (ha.mono fun _ => .call))
  | ret _ hx => exact spans_cons trivial (hx.mono fun _ => .ret)
  | conditional _ hx => exact spans_cons trivial (hx.mono fun _ => .branch)
  | whileLoop hl _ _ hc hb =>
    refine spans_cons trivial ((spans_label hl).append (hc.append hb
      (R := fun ls => ∃ c body, Sentence .expression c ∧ Sentence .block body ∧
        ls = parenthesized c ++ body) ?_) ?_)
    · rintro _ body ⟨c, hc, rfl⟩ hb
      exact ⟨c, body, hc, hb, rfl⟩
    · rintro _ _ rfl ⟨c, body, hc, hb, rfl⟩
      exact .whileLoop hc hb
  | loop hl _ hb =>
    refine spans_cons trivial ((spans_label hl).append hb ?_)
    rintro _ body rfl hb
    exact .loop hb
  | breakTo hl => exact spans_cons trivial ((spans_label hl).mono fun _ h => h ▸ .breakTo)
  | continueTo hl => exact spans_cons trivial ((spans_label hl).mono fun _ h => h ▸ .continueTo)
  | noArguments hd => exact spans_noItem hd
  | arguments _ hi => exact hi.list
  | lastItem _ hn hx => exact (hx.mono fun _ => .argument).lastItem hn
  | item _ hn _ hx hi => exact (hx.mono fun _ => .argument).items hn hi
  | condition _ hx => exact spans_cons trivial (hx.close trivial fun e he => ⟨e, he, rfl⟩)
  | branch hl _ _ _ hc hy hn =>
    refine (spans_label hl).append (hc.append (hy.append hn
      (R := fun ls => ∃ yes no, Sentence .block yes ∧ Sentence .otherwise no ∧ ls = yes ++ no) ?_)
      (R := fun ls => ∃ c yes no, Sentence .expression c ∧ Sentence .block yes ∧
        Sentence .otherwise no ∧ ls = parenthesized c ++ (yes ++ no)) ?_) ?_
    · exact fun yes no hy hn => ⟨yes, no, hy, hn, rfl⟩
    · rintro _ _ ⟨c, hc, rfl⟩ ⟨yes, no, hy, hn, rfl⟩
      exact ⟨c, yes, no, hc, hy, hn, rfl⟩
    · rintro _ _ rfl ⟨c, yes, no, hc, hy, hn, rfl⟩
      exact .conditional hc hy hn
  | noElse _ => exact spans_nil .noElse
  | @otherwise _ ts o us vs ho _ ha =>
    refine (spans_dropNewlines ts).append (Q := fun ls => ∀ ns, Newlines ns →
      Sentence .otherwise (ns ++ ls)) ?_ fun ns _ hns ha => ha ns hns
    rw [ho]
    exact spans_cons trivial ha
  | elseIf _ hx => exact spans_cons trivial (hx.mono fun _ h _ hns => .elseIf hns h)
  | elseBlock _ hb => exact hb.mono fun _ h _ hns => .elseBlock hns h
  | block _ hb =>
    refine spans_cons trivial (hb.mono ?_)
    rintro _ ⟨body, hb, rfl⟩
    exact .block hb
  | @noStatement ts o us hd =>
    refine (spans_dropSeparators ts).append (Q := (· = [.mark .closeBrace])) ?_
      fun seps _ hs hls => ⟨seps, .blank hs, by rw [hls]⟩
    rw [hd]
    exact spans_cons trivial (spans_nil rfl)
  | statements _ _ hx ho => exact hx.statements ho
  | statement _ ht hx =>
    rcases terminator_cases ht with ⟨⟨l, o⟩, hs, rfl⟩ | ⟨rfl, hhalt⟩
    · have hl := separator_of_isSeparator hs
      have hseps : Separators [l] := fun m hm => List.mem_singleton.mp hm ▸ hl
      refine hx.close ?_ fun s hs => .inl ⟨s, l, hs, hseps, rfl⟩
      rcases hl with rfl | rfl <;> trivial
    · exact hx.mono fun _ h => .inr ⟨h, hhalt⟩
  | declaration _ hf => exact spans_cons trivial hf
  | assignment _ hx => exact spans_cons trivial (spans_cons trivial (hx.mono fun _ => .assignment))
  | bare _ _ hx => exact hx.mono fun _ => .bare
  | @function _ _ _ _ _ _ vs _ hp _ hb =>
    refine spans_cons trivial (spans_cons trivial ((spans_params hp).append
      ((spans_returnTag vs).append hb (R := fun ls => ∃ tag body, Sentence .block body ∧
        ls = printTag tag ++ body) ?_) ?_))
    · rintro _ body rfl hb
      exact ⟨_, body, hb, rfl⟩
    · rintro ps _ hps ⟨tag, body, hb, rfl⟩
      exact .declaration hps hb

/-! ## Programs -/

theorem Phrase.Shape.no_stop {e : Expr} {rest : List Token} {ls : List Lexeme}
    (h : (Phrase.statement e).Shape rest ls) : .stop ∉ ls := by
  rcases h with ⟨s, l, hs, hl, rfl⟩ | ⟨hs, -⟩
  · simpa [hs.no_stop] using hl.no_stop
  · exact hs.no_stop

/-- A stretch in which the source does not end leaves its end. -/
theorem Spans.before_stop {P : List Lexeme → Prop} {ts us rest : List Token} {o : Nat}
    (h : Spans P us rest) (hP : ∀ ls, P ls → .stop ∉ ls) (hts : ∀ t ∈ ts, t.lexeme ≠ .stop)
    (hus : us = ts ++ [⟨.stop, o⟩]) :
    ∃ vs, rest = vs ++ [⟨.stop, o⟩] ∧ ∀ t ∈ vs, t.lexeme ≠ .stop := by
  obtain ⟨as, rfl, -, hp⟩ := h
  rcases List.append_eq_append_iff.mp hus with ⟨vs, rfl, rfl⟩ | ⟨vs, rfl, hstop⟩
  · exact ⟨vs, rfl, fun t ht => hts t (by simp [ht])⟩
  · match vs, hstop with
    | [], hstop => exact ⟨[], hstop.symm, by simp⟩
    | v :: vs, hstop =>
      obtain ⟨rfl, -⟩ := List.cons.inj hstop
      exact absurd hp fun hp => hP _ hp (by simp)

/-- **A program that is read is a sentence.** -/
theorem DerivesProgram.spans {ts us : List Token} {es : Program} {o : Nat}
    (h : DerivesProgram us es) (hts : ∀ t ∈ ts, t.lexeme ≠ .stop)
    (hus : us = ts ++ [⟨.stop, o⟩]) : Spans (StatementsThen []) us [⟨.stop, o⟩] := by
  induction h generalizing ts with
  | @done us hs =>
    have hseps := spans_dropSeparators us
    obtain ⟨vs, hvs, hstops⟩ := hseps.before_stop (fun _ => Separators.no_stop) hts hus
    match vs with
    | [] =>
      rw [hvs] at hseps
      exact hseps.mono fun seps hs => ⟨seps, .blank hs, (List.append_nil seps).symm⟩
    | v :: vs => exact absurd (hs v _ hvs) (hstops v (by simp))
  | @more e es us vs hx _ ih =>
    obtain ⟨as, has, hstops⟩ :=
      (spans_dropSeparators us).before_stop (fun _ => Separators.no_stop) hts hus
    obtain ⟨bs, rfl, hstops'⟩ := hx.spans.before_stop (fun _ => Phrase.Shape.no_stop) hstops has
    exact hx.spans.statements (ih hstops' rfl)

theorem sentence_of_program {ts : List Token} {o : Nat} {es : Program}
    (h : program (ts ++ [⟨.stop, o⟩]) = .ok es) (hts : ∀ t ∈ ts, t.lexeme ≠ .stop) :
    (∀ t ∈ ts, t.lexeme.Valid) ∧ Sentence .statements (ts.map (·.lexeme)) := by
  obtain ⟨us, hus, hv, body, hbody, hls⟩ := (derivesProgram_iff.mpr h).spans hts rfl
  obtain rfl : ts = us := List.append_cancel_right hus
  rw [List.append_nil] at hls
  exact ⟨hv, hls ▸ hbody⟩

end Read

end Radix
