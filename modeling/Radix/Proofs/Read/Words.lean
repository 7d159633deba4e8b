import Mathlib.Data.List.Forall2
import Radix.Proofs.Read.Grammar

/-!
# Proofs/Read/Words — the readers lose no token and reorder none

`Expr.words` reads a program aloud in the order of its source: names, numerals, texts, operators and
keywords, with the offsets that the program has for them.  Marks and separators are silent.  What
the readers take off the front of a list of tokens says, silent tokens apart, exactly the words of
what they give for it (`Derives.speaks`).

Grouping a chain of operators moves operands into trees but no word past another
(`words_assemble`): no link is left over when the last tier is taken in.
-/

namespace Radix

/-! ## Words -/

/-- What a token says that stays in the program, with its offset where the program has it. -/
inductive Word where
  | numeral (x : Numeral)
  | text (quoted : QuotedText) (offset : Nat)
  /-- The name of a variable, a function, a parameter or a label, or a tag. -/
  | name (s : String)
  /-- The name of a function that is called. -/
  | callee (s : String) (offset : Nat)
  | operator (op : Operator) (offset : Option Nat)
  | ret (offset : Nat)
  /-- A keyword other than `ret`. -/
  | keyword (k : Keyword)
  deriving Repr, DecidableEq

/-- A name that may be missing. -/
def nameWords (s : Option String) : List Word := s.toList.map .name

/-- The tags and names of parameters. -/
def paramWords (ps : List Param) : List Word := ps.flatMap fun p => [.name p.tag, .name p.name]

mutual

/-- The words of an expression, in the order in which they are written. -/
def Expr.words : Expr → List Word
  | .numeral x => [.numeral x]
  | .text quoted offset => [.text quoted offset]
  | .var name => [.name name]
  | .assign name value => .name name :: value.words
  | .binary op left right offset => left.words ++ .operator op offset :: right.words
  | .call name args offset => .callee name offset :: listWords args
  | .ret value offset => .ret offset :: value.words
  | .branch label condition yes no =>
    .keyword .ifWord :: (nameWords label ++ (condition.words ++ (listWords yes ++ elseWords no)))
  | .whileLoop label condition body =>
    .keyword .whileWord :: (nameWords label ++ (condition.words ++ listWords body))
  | .loop label body => .keyword .loopWord :: (nameWords label ++ listWords body)
  | .breakTo label => .keyword .breakWord :: nameWords label
  | .continueTo label => .keyword .continueWord :: nameWords label
  | .function name params returns body =>
    .keyword .fnWord :: .name name :: (paramWords params ++ (nameWords returns ++ listWords body))

/-- The words of the other branch of a conditional, if it has one. -/
def elseWords : Option (List Expr) → List Word
  | none => []
  | some no => .keyword .elseWord :: listWords no

/-- The words of expressions one after the other. -/
def listWords : List Expr → List Word
  | [] => []
  | e :: es => e.words ++ listWords es

end

theorem listWords_singleton (e : Expr) : listWords [e] = e.words := List.append_nil _

/-- The words of the rest of a chain. -/
def linkWords (ls : List Link) : List Word :=
  ls.flatMap fun l => .operator l.op (some l.offset) :: l.operand.words

/-! ## Chains -/

/-- A tier takes no word past another. -/
theorem words_joinTier (tier : Tier) (first : Expr) (ls : List Link) :
    (joinTier tier first ls).1.words ++ linkWords (joinTier tier first ls).2 =
      first.words ++ linkWords ls := by
  induction ls generalizing first with
  | nil => rfl
  | cons l ls ih =>
    by_cases h : l.op.tier = tier
    · rw [joinTier_cons_eq h, ih]
      simp [Expr.words, linkWords]
    · have hrest := ih l.operand
      rw [joinTier_cons_ne h]
      simp only [linkWords, List.flatMap_cons, List.cons_append] at hrest ⊢
      rw [hrest]

/-- No link of a tier that was taken in is left, and no operator is new. -/
theorem tier_of_foldl_joinTier (tiers : List Tier) (chain : Expr × List Link) :
    ∀ l ∈ (tiers.foldl (fun chain tier => joinTier tier chain.1 chain.2) chain).2,
      l.op.tier ∉ tiers ∧ ∃ m ∈ chain.2, l.op = m.op := by
  induction tiers generalizing chain with
  | nil => exact fun l hl => ⟨List.not_mem_nil, l, hl, rfl⟩
  | cons tier tiers ih =>
    intro l hl
    obtain ⟨hnot, m, hm, heq⟩ := ih _ l hl
    obtain ⟨hne, k, hk, heq'⟩ := joinTier_links tier _ _ m hm
    refine ⟨fun hmem => ?_, k, hk, heq.trans heq'⟩
    rcases List.mem_cons.mp hmem with h | h
    · exact hne (heq ▸ h)
    · exact hnot h

theorem Tier.mem_descending (tier : Tier) : tier ∈ Tier.descending := by
  cases tier <;> decide

/-- **The words of a chain are those of its operands and operators in order.** -/
theorem words_assemble (first : Expr) (ls : List Link) :
    (assemble first ls).words = first.words ++ linkWords ls := by
  have folded : ∀ (tiers : List Tier) (chain : Expr × List Link),
      (tiers.foldl (fun chain tier => joinTier tier chain.1 chain.2) chain).1.words ++
          linkWords (tiers.foldl (fun chain tier => joinTier tier chain.1 chain.2) chain).2 =
        chain.1.words ++ linkWords chain.2 := by
    intro tiers
    induction tiers with
    | nil => exact fun _ => rfl
    | cons tier tiers ih => exact fun chain => (ih _).trans (words_joinTier tier _ _)
  have left : (Tier.descending.foldl (fun chain tier => joinTier tier chain.1 chain.2)
      (first, ls)).2 = [] :=
    List.eq_nil_iff_forall_not_mem.mpr fun l hl =>
      (tier_of_foldl_joinTier _ _ l hl).1 l.op.tier.mem_descending
  have whole := folded Tier.descending (first, ls)
  rw [left] at whole
  exact (List.append_nil _).symm.trans whole

/-! ## What tokens say -/

/-- Parentheses, braces, commas, `=`, `@` and what separates statements say nothing, and neither
does the end of the source. -/
def Lexeme.isSilent : Lexeme → Bool
  | .mark m => m ≠ .bang
  | .newline | .stop => true
  | _ => false

/-- The token says the word, and the offset in the word is its own. -/
inductive Token.Says : Token → Word → Prop
  | number {digits o x} : Numeral.ofDigits 10 digits = .ok x →
    Says ⟨.number digits, o⟩ (.numeral x)
  | based {base digits o x} : Numeral.ofDigits base digits = .ok x →
    Says ⟨.based base digits, o⟩ (.numeral x)
  | text {quoted o} : Says ⟨.text quoted, o⟩ (.text quoted o)
  | name {s o} : Says ⟨.name s, o⟩ (.name s)
  | callee {s o} : Says ⟨.name s, o⟩ (.callee s o)
  | operator {op o} : Says ⟨.operator op, o⟩ (.operator op (some o))
  | ret {o} : Says ⟨.keyword .retWord, o⟩ (.ret o)
  | keyword {k o} : k ≠ .retWord → Says ⟨.keyword k, o⟩ (.keyword k)

theorem Token.Says.not_silent {t : Token} {w : Word} (h : t.Says w) :
    t.lexeme.isSilent = false := by
  cases h <;> rfl

/-- The tokens that say something. -/
def speaking (ts : List Token) : List Token := ts.filter fun t => !t.lexeme.isSilent

namespace Read

/-- The tokens in front of `rest` say the words. -/
def Speaks (ws : List Word) (ts rest : List Token) : Prop :=
  ∃ us, ts = us ++ rest ∧ List.Forall₂ Token.Says (speaking us) ws

section Speaks

variable {ws vs : List Word} {ts us rest : List Token} {l : Lexeme} {o : Nat}

theorem speaks_nil : Speaks [] ts ts := ⟨[], rfl, .nil⟩

theorem Speaks.append (h : Speaks ws ts us) (h' : Speaks vs us rest) :
    Speaks (ws ++ vs) ts rest := by
  obtain ⟨as, rfl, ha⟩ := h
  obtain ⟨bs, rfl, hb⟩ := h'
  refine ⟨as ++ bs, (List.append_assoc ..).symm, ?_⟩
  rw [speaking, List.filter_append]
  exact List.rel_append ha hb

theorem speaks_word {w : Word} (hw : Token.Says ⟨l, o⟩ w) : Speaks [w] (⟨l, o⟩ :: ts) ts := by
  refine ⟨[⟨l, o⟩], rfl, ?_⟩
  rw [speaking, List.filter_cons_of_pos (by simpa using hw.not_silent)]
  exact .cons hw .nil

theorem speaks_silent (hl : l.isSilent = true) : Speaks [] (⟨l, o⟩ :: ts) ts := by
  refine ⟨[⟨l, o⟩], rfl, ?_⟩
  rw [speaking, List.filter_cons_of_neg (by simp [hl])]
  exact .nil

theorem Speaks.after_word {w : Word} (h : Speaks ws us rest) (hw : Token.Says ⟨l, o⟩ w) :
    Speaks (w :: ws) (⟨l, o⟩ :: us) rest := (speaks_word hw).append h

theorem Speaks.after_silent (h : Speaks ws us rest) (hl : l.isSilent = true) :
    Speaks ws (⟨l, o⟩ :: us) rest := (speaks_silent hl).append h

theorem Speaks.before_silent (h : Speaks ws ts (⟨l, o⟩ :: rest)) (hl : l.isSilent = true) :
    Speaks ws ts rest := by
  simpa using h.append (speaks_silent hl)

/-- A stretch in which all but the names is silent says the names. -/
theorem Spans.speaks {P : List Lexeme → Prop} (h : Spans P ts rest) (names : List String)
    (hP : ∀ ls, P ls → ls.filter (fun l => !l.isSilent) = names.map .name) :
    Speaks (names.map .name) ts rest := by
  obtain ⟨us, rfl, -, hp⟩ := h
  have lexemes : (speaking us).map (·.lexeme) = names.map .name := by
    rw [← hP _ hp, List.filter_map]
    rfl
  have named : List.Forall₂ (fun t s => t.lexeme = .name s) (speaking us) names := by
    rwa [← List.forall₂_eq_eq_eq, List.forall₂_map_left_iff, List.forall₂_map_right_iff] at lexemes
  refine ⟨us, rfl, List.forall₂_map_right_iff.mpr (named.imp ?_)⟩
  rintro ⟨_, o⟩ s rfl
  exact .name

end Speaks

/-! ## Separators, labels and parameters -/

theorem speaks_dropNewlines (ts : List Token) : Speaks [] ts (dropNewlines ts) :=
  (spans_dropNewlines ts).speaks [] fun ls hls =>
    List.filter_eq_nil_iff.mpr fun l hl => by simp [hls l hl, Lexeme.isSilent]

theorem speaks_dropSeparators (ts : List Token) : Speaks [] ts (dropSeparators ts) :=
  (spans_dropSeparators ts).speaks [] fun ls hls => List.filter_eq_nil_iff.mpr fun l hl => by
    rcases hls l hl with rfl | rfl <;> simp [Lexeme.isSilent]

theorem speaks_listNext {more : Bool} {ts rest : List Token} (h : Gives (listNext ts) more rest) :
    Speaks [] ts rest := by
  refine (speaks_dropNewlines ts).append ?_
  rcases gives_listNextAt_cases (gives_listNext.mp h) with ⟨-, o, us, ho, rfl⟩ | ⟨-, o, ho⟩
  · rw [ho]
    exact (speaks_dropNewlines us).after_silent rfl
  · rw [ho]
    exact speaks_silent rfl

theorem speaks_label {l : Option String} {ts rest : List Token} (h : Gives (label ts) l rest) :
    Speaks (nameWords l) ts rest :=
  (spans_label h).speaks l.toList fun ls hls => by cases l <;> rw [hls] <;> rfl

theorem speaks_returnTag (ts : List Token) :
    Speaks (nameWords (returnTag ts).1) ts (returnTag ts).2.val :=
  (spans_returnTag ts).speaks _ fun ls hls => by
    rw [hls]
    cases (returnTag ts).1 <;> rfl

theorem speaks_param {p : Param} {ts rest : List Token} (h : Gives (param ts) p rest) :
    Speaks [.name p.tag, .name p.name] ts rest := by
  obtain ⟨o, o', rfl⟩ := param_cases h
  exact (speaks_word .name).after_word .name

theorem speaks_paramItems {ps : List Param} {ts rest : List Token}
    (h : Gives (paramItems ts) ps rest) : Speaks (paramWords ps) ts rest := by
  induction ps generalizing ts with
  | nil => obtain ⟨p, us, -, ⟨-, hps⟩ | ⟨vs, others, -, -, hps⟩⟩ := paramItems_cases h <;> cases hps
  | cons q ps ih =>
    obtain ⟨p, us, hp, ⟨hn, hps⟩ | ⟨vs, others, hn, ho, hps⟩⟩ := paramItems_cases h
    · obtain ⟨rfl, rfl⟩ := List.cons.inj hps
      exact (speaks_param hp).append (speaks_listNext hn)
    · obtain ⟨rfl, rfl⟩ := List.cons.inj hps
      exact (speaks_param hp).append ((speaks_listNext hn).append (ih ho))

theorem speaks_params {ps : List Param} {ts rest : List Token} (h : Gives (params ts) ps rest) :
    Speaks (paramWords ps) ts rest := by
  refine (speaks_dropNewlines ts).append ?_
  rcases params_cases h with ⟨rfl, o, hd⟩ | hitems
  · rw [hd]
    exact speaks_silent rfl
  · exact speaks_paramItems hitems

/-! ## What is read -/

/-- The tokens in front of `rest` say the words of the phrase.  A conditional and a declaration are
read after their keyword. -/
def Phrase.Speaks (ts rest : List Token) : Phrase → Prop
  | .expression e | .operand e | .condition _ e | .statement e | .unterminated e =>
    Read.Speaks e.words ts rest
  | .branch e => ∀ o, Read.Speaks e.words (⟨.keyword .ifWord, o⟩ :: ts) rest
  | .function e => ∀ o, Read.Speaks e.words (⟨.keyword .fnWord, o⟩ :: ts) rest
  | .links ls => Read.Speaks (linkWords ls) ts rest
  | .arguments es | .items es | .alternative es | .block es | .statements es =>
    Read.Speaks (listWords es) ts rest
  | .otherwise no => Read.Speaks (elseWords no) ts rest

/-- **What is read says what it was read from.** -/
theorem Derives.speaks {p : Phrase} {ts rest : List Token} (h : Derives p ts rest) :
    p.Speaks ts rest := by
  induction h with
  | expression _ _ hx hl =>
    rw [Phrase.Speaks, words_assemble]
    exact hx.append hl
  | noLink _ | noElse _ => exact speaks_nil
  | link _ _ hx hl => exact (hx.append hl).after_word .operator
  | number hx => exact speaks_word (.number hx)
  | based hx => exact speaks_word (.based hx)
  | text => exact speaks_word .text
  | var _ => exact speaks_word .name
  | group _ hx | condition _ hx => exact (hx.before_silent rfl).after_silent rfl
  | call _ ha => exact (ha.after_silent rfl).after_word .callee
  | ret _ hx => exact hx.after_word .ret
  | @conditional _ o _ _ _ hx => exact hx o
  | whileLoop hl _ _ hc hb =>
    exact ((speaks_label hl).append (hc.append hb)).after_word (.keyword (by decide))
  | loop hl _ hb => exact ((speaks_label hl).append hb).after_word (.keyword (by decide))
  | breakTo hl | continueTo hl => exact (speaks_label hl).after_word (.keyword (by decide))
  | @noArguments ts o us hd =>
    refine (speaks_dropNewlines ts).append ?_
    rw [hd]
    exact speaks_silent rfl
  | @arguments _ ts _ _ ih => exact (speaks_dropNewlines ts).append ih
  | lastItem _ hn hx =>
    rw [Phrase.Speaks, listWords_singleton]
    simpa using hx.append (speaks_listNext hn)
  | item _ hn _ hx hi => exact hx.append ((speaks_listNext hn).append hi)
  | branch hl _ _ _ hc hy hn =>
    exact fun o => ((speaks_label hl).append (hc.append (hy.append hn))).after_word
      (.keyword (by decide))
  | @otherwise _ ts o us _ ho _ ha =>
    refine (speaks_dropNewlines ts).append ?_
    rw [ho]
    exact ha.after_word (.keyword (by decide))
  | @elseIf _ o _ _ _ hx =>
    rw [Phrase.Speaks, listWords_singleton]
    exact hx o
  | elseBlock _ ih | bare _ _ ih => exact ih
  | block _ hb => exact hb.after_silent rfl
  | @noStatement ts o us hd =>
    refine (speaks_dropSeparators ts).append ?_
    rw [hd]
    exact speaks_silent rfl
  | @statements _ _ ts _ _ _ _ hx ho => exact (speaks_dropSeparators ts).append (hx.append ho)
  | statement _ ht hx =>
    rcases terminator_cases ht with ⟨⟨l, o⟩, hs, rfl⟩ | ⟨rfl, -⟩
    · refine hx.before_silent ?_
      rcases separator_of_isSeparator hs with rfl | rfl <;> rfl
    · exact hx
  | @declaration _ o _ _ _ hf => exact hf o
  | assignment _ hx => exact (hx.after_silent rfl).after_word .name
  | @function _ _ _ _ _ _ vs _ hp _ hb =>
    have body := (speaks_params hp).append ((speaks_returnTag vs).append hb)
    exact fun o => ((body.after_silent rfl).after_word .name).after_word (.keyword (by decide))

/-! ## Programs -/

/-- What follows the last statement begins with the end of the source, if there is anything. -/
theorem DerivesProgram.speaks {ts : List Token} {es : Program} (h : DerivesProgram ts es) :
    ∃ rest, Speaks (listWords es) ts rest ∧ ∀ t us, rest = t :: us → t.lexeme = .stop := by
  induction h with
  | @done ts hstop => exact ⟨_, speaks_dropSeparators ts, hstop⟩
  | @more e es ts us hx _ ih =>
    obtain ⟨rest, hes, hstop⟩ := ih
    exact ⟨rest, (speaks_dropSeparators ts).append (hx.speaks.append hes), hstop⟩

/-- **The readers lose no token and reorder none.**  Take any tokens in which the source ends once,
at the end, and which are read as a program.  The words of the program, in the order in which they
are written, are what the tokens say that are not silent, and its texts, operators, calls and
returns have the offsets of their tokens. -/
theorem program_says_tokens {ts : List Token} {o : Nat} {es : Program}
    (hts : ∀ t ∈ ts, t.lexeme ≠ .stop) (h : program (ts ++ [⟨.stop, o⟩]) = .ok es) :
    List.Forall₂ Token.Says (speaking (ts ++ [⟨.stop, o⟩])) (listWords es) := by
  obtain ⟨rest, ⟨us, hus, hsays⟩, hstop⟩ := (derivesProgram_iff.mpr h).speaks
  have silent : speaking rest = [] := by
    rcases List.eq_nil_or_concat rest with rfl | ⟨vs, last, rfl⟩
    · rfl
    -- The source ends only with the last token, so that is all there is after the statements.
    rw [List.concat_eq_append, ← List.append_assoc] at hus
    obtain ⟨rfl, hlast⟩ := List.append_inj' hus rfl
    cases vs with
    | nil => simp [speaking, ← List.cons.inj hlast |>.1, Lexeme.isSilent]
    | cons t vs => exact absurd (hstop t _ rfl) (hts t (by simp))
  rw [hus, speaking, List.filter_append]
  rw [speaking] at silent hsays
  rwa [silent, List.append_nil]

/-- A function, a labelled loop, a conditional with both branches, and an operand in parentheses.
```
fn f(number n) number { ret n*(n-b16@1f) }
while @up (a<f(b)) { if (a) { break @up } else { a="x"; continue } }
```
-/
def upTokens : List Token := [
  ⟨.keyword .fnWord, 0⟩, ⟨.name "f", 3⟩, ⟨.mark .openParen, 4⟩, ⟨.name "number", 5⟩,
    ⟨.name "n", 12⟩, ⟨.mark .closeParen, 13⟩, ⟨.name "number", 15⟩, ⟨.mark .openBrace, 22⟩,
  ⟨.keyword .retWord, 24⟩, ⟨.name "n", 28⟩, ⟨.operator .mul, 29⟩, ⟨.mark .openParen, 30⟩,
    ⟨.name "n", 31⟩, ⟨.operator .sub, 32⟩, ⟨.based 16 ['1', 'f'], 33⟩, ⟨.mark .closeParen, 39⟩,
    ⟨.mark .closeBrace, 41⟩, ⟨.newline, 42⟩,
  ⟨.keyword .whileWord, 43⟩, ⟨.mark .at, 49⟩, ⟨.name "up", 50⟩, ⟨.mark .openParen, 53⟩,
    ⟨.name "a", 54⟩, ⟨.operator .lt, 55⟩, ⟨.name "f", 56⟩, ⟨.mark .openParen, 57⟩, ⟨.name "b", 58⟩,
    ⟨.mark .closeParen, 59⟩, ⟨.mark .closeParen, 60⟩, ⟨.mark .openBrace, 62⟩,
  ⟨.keyword .ifWord, 64⟩, ⟨.mark .openParen, 67⟩, ⟨.name "a", 68⟩, ⟨.mark .closeParen, 69⟩,
    ⟨.mark .openBrace, 71⟩, ⟨.keyword .breakWord, 73⟩, ⟨.mark .at, 79⟩, ⟨.name "up", 80⟩,
    ⟨.mark .closeBrace, 83⟩, ⟨.keyword .elseWord, 85⟩, ⟨.mark .openBrace, 90⟩,
  ⟨.name "a", 92⟩, ⟨.mark .assign, 93⟩, ⟨.text (.plain ['x']), 94⟩, ⟨.mark .semicolon, 97⟩,
    ⟨.keyword .continueWord, 99⟩, ⟨.mark .closeBrace, 108⟩, ⟨.mark .closeBrace, 110⟩]

/-- What is read off them. -/
def upProgram : Program := [
  .function "f" [⟨"number", "n"⟩] (some "number")
    [.ret (.binary .mul (.var "n")
      (.binary .sub (.var "n") (.numeral ⟨16, ['1', 'f']⟩) (some 32)) (some 29)) 24],
  .whileLoop (some "up") (.binary .lt (.var "a") (.call "f" [.var "b"] 56) (some 55))
    [.branch none (.var "a") [.breakTo (some "up")]
      (some [.assign "a" (.text (.plain ['x']) 94), .continueTo none])]]

theorem upProgram_says_upTokens :
    program (upTokens ++ [⟨.stop, 111⟩]) = .ok upProgram ∧
    List.Forall₂ Token.Says (speaking (upTokens ++ [⟨.stop, 111⟩])) [
      .keyword .fnWord, .name "f", .name "number", .name "n", .name "number",
      .ret 24, .name "n", .operator .mul (some 29), .name "n", .operator .sub (some 32),
        .numeral ⟨16, ['1', 'f']⟩,
      .keyword .whileWord, .name "up", .name "a", .operator .lt (some 55), .callee "f" 56,
        .name "b",
      .keyword .ifWord, .name "a", .keyword .breakWord, .name "up",
      .keyword .elseWord, .name "a", .text (.plain ['x']) 94, .keyword .continueWord] := by
  have read : program (upTokens ++ [⟨.stop, 111⟩]) = .ok upProgram := by with_unfolding_all rfl
  exact ⟨read, program_says_tokens (by decide) read⟩

end Read

end Radix
