import Radix.Proofs.Expr.Parts
import Radix.Proofs.Read.Grammar

/-!
# Proofs/Read/Made — what programs are made of

Each node of a program comes from tokens: a numeral from its digits, a call from a name, an operator
from itself, and a construct with a block from a closing brace, among others.  `Makes T P` says that
nodes that come from tokens with `T` have `P`; then every node of a program that was read from such
tokens has `P` (`made_of_program`).
-/

namespace Radix.Read

/-- Nodes that are made from tokens with `T` have `P`.  Laws about nodes that `P` does not restrict
hold by default. -/
structure Makes (T : Token → Prop) (P : Expr → Prop) : Prop where
  number {digits o x} : T ⟨.number digits, o⟩ → Numeral.ofDigits 10 digits = .ok x →
    P (.numeral x) := by intros; trivial
  based {base digits o x} : T ⟨.based base digits, o⟩ → Numeral.ofDigits base digits = .ok x →
    P (.numeral x) := by intros; trivial
  text {quoted o} : T ⟨.text quoted, o⟩ → P (.text quoted o) := by intros; trivial
  var {s} : P (.var s) := by intros; trivial
  assign {s e} : P (.assign s e) := by intros; trivial
  binary {op l r o} : T ⟨.operator op, o⟩ → P (.binary op l r (some o)) := by intros; trivial
  call {s args o} : T ⟨.name s, o⟩ → P (.call s args o) := by intros; trivial
  ret {e o} : T ⟨.keyword .retWord, o⟩ → P (.ret e o) := by intros; trivial
  breakTo {l} : P (.breakTo l) := by intros; trivial
  continueTo {l} : P (.continueTo l) := by intros; trivial
  -- These hold a block.
  branch {o l c yes no} : T ⟨.mark .closeBrace, o⟩ → P (.branch l c yes no) := by intros; trivial
  whileLoop {o l c body} : T ⟨.mark .closeBrace, o⟩ → P (.whileLoop l c body) := by
    intros; trivial
  loop {o l body} : T ⟨.mark .closeBrace, o⟩ → P (.loop l body) := by intros; trivial
  function {o s ps tag body} : T ⟨.mark .closeBrace, o⟩ → P (.function s ps tag body) := by
    intros; trivial

/-- The property holds of the expressions that the phrase consists of, and the relation of the
operators in it and their offsets. -/
def Phrase.All (V : Operator → Nat → Prop) (Q : Expr → Prop) : Phrase → Prop
  | .expression e | .operand e | .condition _ e | .branch e | .statement e | .unterminated e
  | .function e => Q e
  | .links ls => ∀ l ∈ ls, V l.op l.offset ∧ Q l.operand
  | .arguments es | .items es | .alternative es | .block es | .statements es => ∀ e ∈ es, Q e
  | .otherwise es => ∀ e ∈ es.getD [], Q e

section Tokens

variable {T : Token → Prop} {ts us : List Token}

theorem Spans.rest {S : List Lexeme → Prop} (h : Spans S ts us) (hts : ∀ t ∈ ts, T t) :
    ∀ t ∈ us, T t := by
  obtain ⟨ws, rfl, -⟩ := h
  exact fun t ht => hts t (List.mem_append_right ws ht)

/-- A block ends with a closing brace. -/
theorem Derives.closeBrace {es : List Expr} (h : Derives (.block es) ts us)
    (hts : ∀ t ∈ ts, T t) : ∃ o, T ⟨.mark .closeBrace, o⟩ := by
  obtain ⟨ws, rfl, -, hws⟩ := h.spans
  have hmem : Lexeme.mark .closeBrace ∈ ws.map (·.lexeme) := by
    generalize ws.map (·.lexeme) = ls at hws
    cases hws with
    | block _ => simp [braced]
  obtain ⟨⟨_, o⟩, ht, rfl⟩ := List.mem_map.mp hmem
  exact ⟨o, hts _ (List.mem_append_left us ht)⟩

end Tokens

variable {T : Token → Prop} {P : Expr → Prop} (M : Makes T P)

include M

/-- **What is read off tokens is made of them.** -/
theorem Derives.made {p : Phrase} {ts rest : List Token} (h : Derives p ts rest)
    (hts : ∀ t ∈ ts, T t) :
    p.All (fun op o => T ⟨.operator op, o⟩) (Expr.Everywhere P) := by
  have listed : ∀ {x : Expr} {xs : List Expr}, x.Everywhere P → (∀ y ∈ xs, y.Everywhere P) →
      ∀ y ∈ x :: xs, y.Everywhere P := fun hx hxs => List.forall_mem_cons.mpr ⟨hx, hxs⟩
  have single : ∀ {x : Expr}, x.Everywhere P → ∀ y ∈ [x], y.Everywhere P :=
    fun hx => listed hx nofun
  have binary : ∀ op l r o, T ⟨.operator op, o⟩ → l.Everywhere P → r.Everywhere P →
      (Expr.binary op l r (some o)).Everywhere P :=
    fun _ _ _ _ ho hl hr => .intro (M.binary ho) (listed hl (single hr))
  induction h with
  | expression h _ hx hl =>
    exact assemble_closed binary (hx hts) (hl (h.spans.rest hts))
  | noLink _ => exact nofun
  | link h _ hx hl =>
    obtain ⟨hop, hts⟩ := List.forall_mem_cons.mp hts
    exact List.forall_mem_cons.mpr ⟨⟨hop, hx hts⟩, hl (h.spans.rest hts)⟩
  | number hx => exact .intro (M.number (hts _ List.mem_cons_self) hx) nofun
  | based hx => exact .intro (M.based (hts _ List.mem_cons_self) hx) nofun
  | text => exact .intro (M.text (hts _ List.mem_cons_self)) nofun
  | var _ => exact .intro M.var nofun
  | call _ ha =>
    obtain ⟨hname, hts⟩ := List.forall_mem_cons.mp hts
    exact .intro (M.call hname) (ha (List.forall_mem_cons.mp hts).2)
  | ret _ hx =>
    obtain ⟨hret, hts⟩ := List.forall_mem_cons.mp hts
    exact .intro (M.ret hret) (single (hx hts))
  | breakTo _ => exact .intro M.breakTo nofun
  | continueTo _ => exact .intro M.continueTo nofun
  | whileLoop hlabel h h' hc hb =>
    have hts := (spans_label hlabel).rest (List.forall_mem_cons.mp hts).2
    have hts' := h.spans.rest hts
    obtain ⟨o, hclose⟩ := h'.closeBrace hts'
    exact .intro (M.whileLoop hclose) (listed (hc hts) (hb hts'))
  | loop hlabel h hb =>
    have hts := (spans_label hlabel).rest (List.forall_mem_cons.mp hts).2
    obtain ⟨o, hclose⟩ := h.closeBrace hts
    exact .intro (M.loop hclose) (hb hts)
  | noArguments _ | noElse _ | noStatement _ => exact nofun
  | @arguments _ ts _ _ ih => exact ih ((spans_dropNewlines ts).rest hts)
  | lastItem _ _ hx => exact single (hx hts)
  | item h hnext _ hx ho =>
    exact listed (hx hts) (ho ((spans_listNext_comma hnext).rest (h.spans.rest hts)))
  | branch hlabel h h' h'' hc hy hn =>
    have hts := (spans_label hlabel).rest hts
    have hts' := h.spans.rest hts
    obtain ⟨o, hclose⟩ := h'.closeBrace hts'
    have hparts := List.forall_mem_append.mpr ⟨hy hts', hn (h'.spans.rest hts')⟩
    exact .intro (M.branch hclose) (listed (hc hts) hparts)
  | @otherwise _ ts o us _ hd _ ih =>
    have hts := (spans_dropNewlines ts).rest hts
    rw [hd] at hts
    exact ih (List.forall_mem_cons.mp hts).2
  | elseIf _ hx => exact single (hx (List.forall_mem_cons.mp hts).2)
  | @statements _ _ ts _ _ h _ hx ho =>
    have hts := (spans_dropSeparators ts).rest hts
    exact listed (hx hts) (ho (h.spans.rest hts))
  | assignment _ hx =>
    have hts := (List.forall_mem_cons.mp (List.forall_mem_cons.mp hts).2).2
    exact .intro M.assign (single (hx hts))
  | @function _ _ _ _ _ _ vs _ hp h hb =>
    have hts := (List.forall_mem_cons.mp (List.forall_mem_cons.mp hts).2).2
    have hts := (spans_returnTag vs).rest ((spans_params hp).rest hts)
    obtain ⟨o, hclose⟩ := h.closeBrace hts
    exact .intro (M.function hclose) (hb hts)
  | group _ ih | conditional _ ih | condition _ ih | block _ ih | declaration _ ih =>
    exact ih (List.forall_mem_cons.mp hts).2
  | elseBlock _ ih | statement _ _ ih | bare _ _ ih => exact ih hts

/-- **A program is made of the tokens that it was read from.** -/
theorem made_of_program {ts : List Token} {es : Program} (h : program ts = .ok es)
    (hts : ∀ t ∈ ts, T t) : ∀ e ∈ es, e.Everywhere P := by
  induction derivesProgram_iff.mpr h with
  | done _ => exact nofun
  | @more e es ts us hx hp ih =>
    have hts := (spans_dropSeparators ts).rest hts
    exact List.forall_mem_cons.mpr
      ⟨hx.made M hts, ih (derivesProgram_iff.mp hp) (hx.spans.rest hts)⟩

omit M in
theorem makes_texts (Q : QuotedText → Nat → Prop) :
    Makes (fun t => ∀ q, t.lexeme = .text q → Q q t.offset) fun y =>
      ∀ q o, y = .text q o → Q q o where
  text {quoted _} ht q o he := by
    obtain ⟨rfl, rfl⟩ := Expr.text.inj he
    exact ht quoted rfl
  number _ _ := nofun
  based _ _ := nofun
  var := nofun
  assign := nofun
  binary _ := nofun
  call _ := nofun
  ret _ := nofun
  breakTo := nofun
  continueTo := nofun
  branch _ := nofun
  whileLoop _ := nofun
  loop _ := nofun
  function _ := nofun

omit M in
/-- **The texts of a program are among the tokens it was read from.** -/
theorem texts_of_program {ts : List Token} {es : Program} (h : program ts = .ok es) :
    ∀ e ∈ es, e.Texts fun q o => ⟨.text q, o⟩ ∈ ts :=
  made_of_program (makes_texts _) h fun ⟨_, _⟩ ht _ hl => hl ▸ ht

end Radix.Read
