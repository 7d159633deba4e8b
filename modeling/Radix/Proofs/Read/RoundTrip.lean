import Radix.Proofs.Read.Spelt
import Radix.Proofs.Read.Written

/-!
# Proofs/Read/RoundTrip — reading undoes writing

Every construct is read back from what is written for it, whatever follows that is not taken for
more of it.  Operators are the one place where what is written does not show the tree: a chain of
operands is read, and the tiers group it (`assemble_cut`).  So three statements are carried through
the induction (`reads`): how an expression is read as part of a chain, as a whole, and as a
statement.
-/

namespace Radix.Read

/-! ## Chains -/

/-- Operators, each with its operand, are read off the front one after the other. -/
inductive Linked : List Link → List Token → List Token → Prop
  | nil {ts} : Linked [] ts ts
  | cons {op o x ls us vs ws} : Derives (.operand x) us vs → Linked ls vs ws →
    Linked (⟨op, o, x⟩ :: ls) (⟨.operator op, o⟩ :: us) ws

theorem Linked.append {ls ms : List Link} {ts us vs : List Token} (h : Linked ls ts us)
    (h' : Linked ms us vs) : Linked (ls ++ ms) ts vs := by
  induction h with
  | nil => exact h'
  | cons hx _ ih => exact .cons hx (ih h')

theorem Linked.derives {ls : List Link} {ts rest : List Token} (h : Linked ls ts rest)
    (hr : Closes rest) : Derives (.links ls) ts rest := by
  induction h with
  | nil => exact .noLink hr.operator
  | cons hx _ ih => exact .link hx (ih hr)

/-- The chain is read off the front. -/
def Chained (chain : Expr × List Link) (ts rest : List Token) : Prop :=
  ∃ us, Derives (.operand chain.1) ts us ∧ Linked chain.2 us rest

/-! ## Three ways of being read back -/

section Reads

variable (chained : Bool) (e : Expr)

/-- The expression is read back as part of a chain. -/
def ReadsChain : Prop :=
  ∀ us rest, Spelt (e.print chained) us → Ends rest →
    ∃ chain, Chained chain (us ++ rest) rest ∧ placelessChain chain = placelessChain (e.cut 5)

/-- The expression is read back as a whole. -/
def ReadsExpression : Prop :=
  ∀ us rest, Spelt (e.print chained) us → Closes rest →
    ∃ x, Derives (.expression x) (us ++ rest) rest ∧ x.placeless = e.placeless

/-- The expression is read back as a statement. -/
def ReadsStatement : Prop :=
  ∀ us rest, Spelt (e.print chained) us → Closes rest →
    ∃ x, Derives (.unterminated x) (us ++ rest) rest ∧ x.placeless = e.placeless

/-- The expression is read back wherever it may stand. -/
structure Reads : Prop where
  chain : e.isStatement = false → (∀ v o, e ≠ .ret v o) → ReadsChain chained e
  expression : e.isStatement = false → ReadsExpression chained e
  statement : ReadsStatement chained e

variable {chained e}

/-- Grouping what was read as a chain gives the expression. -/
theorem ReadsChain.expression (h : ReadsChain chained e) : ReadsExpression chained e := by
  intro us rest hus hr
  obtain ⟨⟨f, ls⟩, ⟨vs, hf, hl⟩, hc⟩ := h us rest hus hr.toEnds
  refine ⟨assemble f ls, .expression hf (hl.derives hr), ?_⟩
  have hparts : f.placeless = (e.cut 5).1.placeless ∧
      ls.map Link.placeless = (e.cut 5).2.map Link.placeless := Prod.mk.inj hc
  rw [placeless_assemble, hparts.1, hparts.2, ← placeless_assemble, assemble_cut]

/-- An expression that begins with an assigned name ends before its assignment. -/
theorem Derives.rest_of_assign {x : Expr} {s : String} {o o' : Nat} {us rest : List Token}
    (h : Derives (.expression x) (⟨.name s, o⟩ :: ⟨.mark .assign, o'⟩ :: us) rest) :
    rest = ⟨.mark .assign, o'⟩ :: us := by
  cases h with
  | expression hx hl =>
    cases hx with
    | var _ =>
      cases hl with
      | noLink _ => rfl

theorem ReadsExpression.statement (h : ReadsExpression chained e) : ReadsStatement chained e := by
  intro us rest hus hr
  obtain ⟨x, hx, he⟩ := h us rest hus hr
  refine ⟨x, .bare (fun s o o' vs hs => ?_) hx, he⟩
  rw [hs] at hx
  exact hr.assign o' vs hx.rest_of_assign

theorem ReadsChain.reads (h : ReadsChain chained e) : Reads chained e :=
  ⟨fun _ _ => h, fun _ => h.expression, h.expression.statement⟩

theorem ReadsStatement.reads (h : ReadsStatement chained e) (hs : e.isStatement = true) :
    Reads chained e :=
  ⟨fun hf => absurd (hs.symm.trans hf) (by decide),
    fun hf => absurd (hs.symm.trans hf) (by decide), h⟩

/-- An operand that is not taken apart is a chain of its own. -/
theorem readsChain_of_operand (hcut : e.cut 5 = (e, []))
    (h : ∀ us rest, Spelt (e.print chained) us → Ends rest →
      ∃ x, Derives (.operand x) (us ++ rest) rest ∧ x.placeless = e.placeless) :
    ReadsChain chained e := by
  intro us rest hus hr
  obtain ⟨x, hx, he⟩ := h us rest hus hr
  refine ⟨(x, []), ⟨rest, hx, .nil⟩, ?_⟩
  rw [hcut, placelessChain, he]
  rfl

/-- An operand of an operator, with its parentheses if it needs them. -/
theorem Reads.enclosed (h : Reads chained e) (hs : e.isStatement = false) {least : Nat}
    {us rest : List Token} (hus : Spelt (enclosed (e.needsParens least) (e.print chained)) us)
    (hr : Ends rest) : ∃ chain, Chained chain (us ++ rest) rest ∧
      placelessChain chain = placelessChain (e.cutOperand 5 least) := by
  unfold Expr.cutOperand
  match hp : e.needsParens least with
  | true =>
    rw [hp] at hus
    obtain ⟨o, o', vs, rfl, hvs⟩ := spelt_parenthesized.mp hus
    obtain ⟨x, hx, he⟩ := h.expression hs vs (⟨.mark .closeParen, o'⟩ :: rest) hvs
      (closes_mark (by simp) o' rest)
    refine ⟨(x, []), ⟨rest, ?_, .nil⟩, by simp [placelessChain, he]⟩
    simpa using Derives.group (o := o) hx
  | false =>
    rw [hp] at hus
    refine h.chain hs (fun v o he => ?_) us rest hus hr
    rw [he] at hp
    exact absurd hp (by simp [Expr.needsParens])

end Reads

/-! ## Conditions and arguments -/

section Lists

variable {chained : Bool} {e : Expr} {es : List Expr}

theorem ReadsExpression.condition (h : ReadsExpression chained e) (k : Keyword)
    (rest : List Token) {us : List Token} (hus : Spelt (parenthesized (e.print chained)) us) :
    ∃ x, Derives (.condition k x) (us ++ rest) rest ∧ x.placeless = e.placeless := by
  obtain ⟨o, o', vs, rfl, hvs⟩ := spelt_parenthesized.mp hus
  obtain ⟨x, hx, he⟩ := h vs (⟨.mark .closeParen, o'⟩ :: rest) hvs (closes_mark (by simp) o' rest)
  refine ⟨x, ?_, he⟩
  simpa using Derives.condition (k := k) (o := o) hx

/-- Arguments are read back up to the closing parenthesis. -/
theorem readsItems {es : List Expr} (h : ∀ e ∈ es, ReadsExpression chained e) (hne : es ≠ [])
    (o : Nat) (rest : List Token) {us : List Token}
    (hus : Spelt (printList chained (.mark .comma) es) us) :
    ∃ xs, Derives (.items xs) (us ++ ⟨.mark .closeParen, o⟩ :: rest) rest ∧
      xs.map Expr.placeless = es.map Expr.placeless := by
  match es, hne with
  | [e], _ =>
    rw [printList] at hus
    obtain ⟨x, hx, he⟩ := h e (by simp) us _ hus (closes_mark (.inr (.inl rfl)) o rest)
    exact ⟨[x], .lastItem hx (gives_listNext_close o rest), by simp [he]⟩
  | e :: y :: es, _ =>
    rw [printList] at hus
    obtain ⟨vs, _, rfl, hvs, hcons⟩ := spelt_append.mp hus
    obtain ⟨o', ws, rfl, hws⟩ := spelt_cons.mp hcons
    obtain ⟨xs, hxs, hes⟩ := readsItems (fun z hz => h z (by simp [hz])) (by simp) o rest hws
    obtain ⟨x, hx, he⟩ := h e (by simp) vs _ hvs
      (closes_mark (.inl rfl) o' (ws ++ ⟨.mark .closeParen, o⟩ :: rest))
    have hopen : Opens ws := opens_of_spelt hws (printList_opens chained _ (by simp))
    have hnext := gives_listNext_comma o' (ws ++ ⟨.mark .closeParen, o⟩ :: rest)
    rw [(hopen.append _).dropNewlines] at hnext
    refine ⟨x :: xs, ?_, by simp [he, hes]⟩
    simpa using Derives.item hx hnext hxs

theorem readsArguments (h : ∀ e ∈ es, ReadsExpression chained e) (o : Nat) (rest : List Token)
    {us : List Token} (hus : Spelt (printList chained (.mark .comma) es) us) :
    ∃ xs, Derives (.arguments xs) (us ++ ⟨.mark .closeParen, o⟩ :: rest) rest ∧
      xs.map Expr.placeless = es.map Expr.placeless := by
  by_cases hne : es = []
  · subst hne
    rw [printList] at hus
    obtain rfl := spelt_nil.mp hus
    exact ⟨[], .noArguments (dropNewlines_cons (by simp) o rest), rfl⟩
  · obtain ⟨xs, hxs, he⟩ := readsItems h hne o rest hus
    have hopen := (opens_of_spelt hus (printList_opens chained _ hne)).append
      (⟨.mark .closeParen, o⟩ :: rest)
    refine ⟨xs, .arguments ?_, he⟩
    rwa [hopen.dropNewlines]

/-! ## Statements on lines of their own -/

/-- Statements, each with its end, are read up to where the tokens are `last`. -/
inductive Lines : List Expr → List Token → List Token → Prop
  | nil {ts last} : dropSeparators ts = last → Lines [] ts last
  | cons {x xs ts us last} : Derives (.statement x) (dropSeparators ts) us → Lines xs us last →
    Lines (x :: xs) ts last

theorem Lines.statements {xs : List Expr} {ts rest : List Token} {o : Nat}
    (h : Lines xs ts (⟨.mark .closeBrace, o⟩ :: rest)) : Derives (.statements xs) ts rest := by
  generalize hl : (⟨.mark .closeBrace, o⟩ : Token) :: rest = last at h
  induction h with
  | nil hd => exact .noStatement (hd.trans hl.symm)
  | cons hx _ ih => exact .statements hx (ih hl)

theorem Lines.program {xs : List Expr} {ts rest : List Token} {o : Nat}
    (h : Lines xs ts (⟨.stop, o⟩ :: rest)) : DerivesProgram ts xs := by
  generalize hl : (⟨.stop, o⟩ : Token) :: rest = last at h
  induction h with
  | nil hd =>
    refine .done fun t us ht => ?_
    rw [← (List.cons.inj (hl.trans (hd.symm.trans ht))).1]
  | cons hx _ ih => exact .more hx (ih hl)

/-- The tokens end a list of statements, and are left where they are. -/
structure Last (last : List Token) : Prop where
  closes : Closes last
  terminator : Read.terminator last = .ok ⟨last, Nat.le_refl _⟩
  dropSeparators : Read.dropSeparators last = last

theorem last_closeBrace (o : Nat) (rest : List Token) : Last (⟨.mark .closeBrace, o⟩ :: rest) where
  closes := closes_mark (by simp) o rest
  terminator := by simp [Read.terminator, isSeparator]
  dropSeparators := by simp [Read.dropSeparators, isSeparator]

theorem last_stop (o : Nat) (rest : List Token) : Last (⟨.stop, o⟩ :: rest) where
  closes := closes_stop o rest
  terminator := by simp [Read.terminator, isSeparator]
  dropSeparators := by simp [Read.dropSeparators, isSeparator]

/-- **Statements are read back line by line.** -/
theorem readsLines {es : List Expr} (h : ∀ e ∈ es, ReadsStatement chained e) {us last : List Token}
    (hlast : Last last) (hus : Spelt (printList chained .newline es) us) :
    ∃ xs, Lines xs (us ++ last) last ∧ xs.map Expr.placeless = es.map Expr.placeless := by
  match es with
  | [] =>
    rw [printList] at hus
    obtain rfl := spelt_nil.mp hus
    exact ⟨[], .nil hlast.dropSeparators, rfl⟩
  | [e] =>
    rw [printList] at hus
    obtain ⟨x, hx, he⟩ := h e (by simp) us last hus hlast.closes
    have hopen := (opens_of_spelt hus (print_opens chained e)).append last
    have hline : Derives (.statement x) (dropSeparators (us ++ last)) last := by
      rw [hopen.dropSeparators]
      exact .statement hx hlast.terminator
    exact ⟨[x], .cons hline (.nil hlast.dropSeparators), by simp [he]⟩
  | e :: y :: es =>
    rw [printList] at hus
    obtain ⟨vs, _, rfl, hvs, hcons⟩ := spelt_append.mp hus
    obtain ⟨o, ws, rfl, hws⟩ := spelt_cons.mp hcons
    obtain ⟨xs, hxs, hes⟩ := readsLines (fun z hz => h z (by simp [hz])) hlast hws
    have hopen : Opens ws := opens_of_spelt hws (printList_opens chained _ (by simp))
    obtain ⟨x, hx, he⟩ := h e (by simp) vs (⟨.newline, o⟩ :: (ws ++ last)) hvs
      (closes_newline o (hopen.append last))
    have hfirst := (opens_of_spelt hvs (print_opens chained e)).append
      (⟨.newline, o⟩ :: (ws ++ last))
    have hterm : terminator (⟨.newline, o⟩ :: (ws ++ last)) = .ok ⟨ws ++ last, by simp⟩ := by
      simp [terminator, isSeparator]
    have hline : Derives (.statement x)
        (dropSeparators (vs ++ ⟨.newline, o⟩ :: ws ++ last)) (ws ++ last) := by
      rw [List.append_assoc, List.cons_append, hfirst.dropSeparators]
      exact .statement hx hterm
    exact ⟨x :: xs, .cons hline hxs, by simp [he, hes]⟩

theorem readsBlock (h : ∀ e ∈ es, ReadsStatement chained e) (rest : List Token)
    {us : List Token} (hus : Spelt (braced (printList chained .newline es)) us) :
    ∃ xs, Derives (.block xs) (us ++ rest) rest ∧
      xs.map Expr.placeless = es.map Expr.placeless := by
  obtain ⟨o, o', vs, rfl, hvs⟩ := spelt_braced.mp hus
  obtain ⟨xs, hxs, he⟩ := readsLines h (last_closeBrace o' rest) hvs
  refine ⟨xs, ?_, he⟩
  simpa using Derives.block (o := o) hxs.statements

/-- A token that is an operand makes a program. -/
theorem program_of_operand {e : Expr} {t : Token} {o : Nat} (ht : t.lexeme.opens = true)
    (h : Derives (.operand e) [t, ⟨.stop, o⟩] [⟨.stop, o⟩]) :
    program [t, ⟨.stop, o⟩] = .ok [e] := by
  have hopen : Opens [t, ⟨.stop, o⟩] := ⟨t, _, rfl, ht⟩
  have hwhole : Derives (.expression e) [t, ⟨.stop, o⟩] [⟨.stop, o⟩] :=
    .expression h (.noLink (by simp))
  have hline : Derives (.statement e) (dropSeparators [t, ⟨.stop, o⟩]) [⟨.stop, o⟩] := by
    rw [hopen.dropSeparators]
    exact .statement (.bare (by simp) hwhole) (last_stop o []).terminator
  have hlines : Lines [e] [t, ⟨.stop, o⟩] [⟨.stop, o⟩] :=
    .cons hline (.nil (last_stop o []).dropSeparators)
  exact derivesProgram_iff.mp hlines.program

end Lists

/-! ## Constructs -/

section Constructs

variable {chained : Bool}

/-- The lexeme of a numeral is read as its digits are. -/
theorem derives_numeral {x y : Numeral} (h : Numeral.ofDigits x.base x.digits = .ok y) (o : Nat)
    (rest : List Token) : Derives (.operand (.numeral y)) (⟨x.lexeme, o⟩ :: rest) rest := by
  unfold Numeral.lexeme
  split
  · next hb =>
    rw [hb] at h
    exact .number h
  · exact .based h

theorem readsChain_numeral {x : Numeral} (hx : x.Written) : ReadsChain chained (.numeral x) := by
  refine readsChain_of_operand rfl fun us rest hus _ => ?_
  simp only [Expr.print, spelt_cons, spelt_nil] at hus
  obtain ⟨o, _, rfl, rfl⟩ := hus
  exact ⟨.numeral x, derives_numeral hx.ofDigits o rest, rfl⟩

theorem readsChain_text (quoted : QuotedText) (offset : Nat) :
    ReadsChain chained (.text quoted offset) := by
  refine readsChain_of_operand rfl fun us rest hus _ => ?_
  simp only [Expr.print, spelt_cons, spelt_nil] at hus
  obtain ⟨o, _, rfl, rfl⟩ := hus
  exact ⟨.text quoted o, .text, rfl⟩

theorem readsChain_var (s : String) : ReadsChain chained (.var s) := by
  refine readsChain_of_operand rfl fun us rest hus hr => ?_
  simp only [Expr.print, spelt_cons, spelt_nil] at hus
  obtain ⟨o, _, rfl, rfl⟩ := hus
  exact ⟨.var s, .var hr.paren, rfl⟩

theorem readsChain_call (s : String) {args : List Expr} (offset : Nat)
    (h : ∀ e ∈ args, ReadsExpression chained e) : ReadsChain chained (.call s args offset) := by
  refine readsChain_of_operand rfl fun us rest hus _ => ?_
  simp only [Expr.print, spelt_cons, spelt_parenthesized] at hus
  obtain ⟨o, _, rfl, o₁, o₂, vs, rfl, hvs⟩ := hus
  obtain ⟨xs, hxs, he⟩ := readsArguments h o₂ rest hvs
  refine ⟨.call s xs o, ?_, by simp [he]⟩
  simpa using Derives.call (o := o) hxs

theorem readsExpression_ret {value : Expr} (offset : Nat) (h : ReadsExpression chained value) :
    ReadsExpression chained (.ret value offset) := by
  intro us rest hus hr
  rw [Expr.print] at hus
  obtain ⟨o, vs, rfl, hvs⟩ := spelt_cons.mp hus
  obtain ⟨x, hx, he⟩ := h vs rest hvs hr
  have hret : Derives (.expression (assemble (.ret x o) []))
      (⟨.keyword .retWord, o⟩ :: (vs ++ rest)) rest := .expression (.ret hx) (.noLink hr.operator)
  exact ⟨_, hret, congrArg (Expr.ret · 0) he⟩

theorem readsChain_breakTo (l : Option String) : ReadsChain chained (.breakTo l) := by
  refine readsChain_of_operand rfl fun us rest hus hr => ?_
  rw [Expr.print] at hus
  obtain ⟨o, vs, rfl, hvs⟩ := spelt_cons.mp hus
  exact ⟨.breakTo l, .breakTo (gives_label hvs hr.label), rfl⟩

theorem readsChain_continueTo (l : Option String) : ReadsChain chained (.continueTo l) := by
  refine readsChain_of_operand rfl fun us rest hus hr => ?_
  rw [Expr.print] at hus
  obtain ⟨o, vs, rfl, hvs⟩ := spelt_cons.mp hus
  exact ⟨.continueTo l, .continueTo (gives_label hvs hr.label), rfl⟩

theorem readsChain_whileLoop (l : Option String) {c : Expr} {body : List Expr}
    (hc : ReadsExpression chained c) (hbody : ∀ e ∈ body, ReadsStatement chained e) :
    ReadsChain chained (.whileLoop l c body) := by
  refine readsChain_of_operand rfl fun us rest hus _ => ?_
  simp only [Expr.print, spelt_cons, spelt_append] at hus
  obtain ⟨o, _, rfl, ls, _, rfl, hls, cs, bs, rfl, hcs, hbs⟩ := hus
  obtain ⟨x, hx, he⟩ := hc.condition .whileWord (bs ++ rest) hcs
  obtain ⟨ys, hys, hes⟩ := readsBlock hbody rest hbs
  have hl : Gives (label (ls ++ (cs ++ (bs ++ rest)))) l (cs ++ (bs ++ rest)) :=
    gives_label hls (ne_at_of_spelt hcs (by decide))
  refine ⟨.whileLoop l x ys, ?_, by simp [he, hes]⟩
  simpa using Derives.whileLoop (o := o) hl hx hys

theorem readsChain_loop (l : Option String) {body : List Expr}
    (hbody : ∀ e ∈ body, ReadsStatement chained e) : ReadsChain chained (.loop l body) := by
  refine readsChain_of_operand rfl fun us rest hus _ => ?_
  simp only [Expr.print, spelt_cons, spelt_append] at hus
  obtain ⟨o, _, rfl, ls, bs, rfl, hls, hbs⟩ := hus
  obtain ⟨ys, hys, hes⟩ := readsBlock hbody rest hbs
  have hl : Gives (label (ls ++ (bs ++ rest))) l (bs ++ rest) :=
    gives_label hls (ne_at_of_spelt hbs (by decide))
  refine ⟨.loop l ys, ?_, by simp [hes]⟩
  simpa using Derives.loop (o := o) hl hys

/-- A conditional that is read as a chain is read as a conditional. -/
theorem ReadsChain.branch {l : Option String} {c : Expr} {yes : List Expr}
    {no : Option (List Expr)} (h : ReadsChain chained (.branch l c yes no)) {us rest : List Token}
    (hus : Spelt ((Expr.branch l c yes no).print chained) us) (hr : Ends rest) :
    ∃ x o vs, us ++ rest = ⟨.keyword .ifWord, o⟩ :: vs ∧ Derives (.branch x) vs rest ∧
      x.placeless = (Expr.branch l c yes no).placeless := by
  obtain ⟨⟨f, ls⟩, ⟨ws, hf, hl⟩, hc⟩ := h us rest hus hr
  obtain ⟨hplace, hlinks⟩ := Prod.mk.inj hc
  obtain rfl : ls = [] := List.map_eq_nil_iff.mp hlinks
  cases hl
  rw [Expr.print] at hus
  obtain ⟨o, vs, rfl, -⟩ := spelt_cons.mp hus
  cases hf with
  | conditional hx => exact ⟨f, o, _, rfl, hx, hplace⟩

/-- What stands after an `else` is read back, a block or another conditional. -/
theorem readsAlternative {no : List Expr} (h : ∀ e ∈ no, Reads chained e)
    {us rest : List Token} (hr : Ends rest)
    (hus : Spelt (if chained && isElseIf no then printList chained .newline no
      else braced (printList chained .newline no)) us) :
    ∃ xs, Derives (.alternative xs) (us ++ rest) rest ∧
      xs.map Expr.placeless = no.map Expr.placeless := by
  match hif : chained && isElseIf no with
  | true =>
    obtain ⟨l, c, yes, no', rfl⟩ : ∃ l c yes no', no = [.branch l c yes no'] := by
      unfold isElseIf at hif
      split at hif
      · exact ⟨_, _, _, _, rfl⟩
      · simp at hif
    rw [hif, if_pos rfl, printList] at hus
    have hbranch := h (.branch l c yes no') (by simp)
    obtain ⟨x, o, vs, hvs, hx, he⟩ := (hbranch.chain rfl (by simp)).branch hus hr
    refine ⟨[x], ?_, by rw [List.map_singleton, List.map_singleton, he]⟩
    rw [hvs]
    exact .elseIf hx
  | false =>
    rw [hif, if_neg (by simp)] at hus
    obtain ⟨xs, hxs, he⟩ := readsBlock (fun e he => (h e he).statement) rest hus
    exact ⟨xs, .elseBlock hxs, he⟩

theorem readsOtherwise {no : Option (List Expr)} (h : ∀ e ∈ no.getD [], Reads chained e)
    {us rest : List Token} (hr : Ends rest) (hus : Spelt (printElse chained no) us) :
    ∃ xs, Derives (.otherwise xs) (us ++ rest) rest ∧
      xs.map (List.map Expr.placeless) = no.map (List.map Expr.placeless) := by
  match no with
  | none =>
    rw [printElse] at hus
    obtain rfl := spelt_nil.mp hus
    exact ⟨none, .noElse hr.otherwise, rfl⟩
  | some es =>
    rw [printElse] at hus
    obtain ⟨o, vs, rfl, hvs⟩ := spelt_cons.mp hus
    obtain ⟨xs, hxs, he⟩ := readsAlternative h hr hvs
    exact ⟨some xs, .otherwise (dropNewlines_cons (by simp) o (vs ++ rest)) hxs,
      congrArg some he⟩

theorem readsChain_branch (l : Option String) {c : Expr} {yes : List Expr}
    {no : Option (List Expr)} (hc : ReadsExpression chained c)
    (hyes : ∀ e ∈ yes, ReadsStatement chained e) (hno : ∀ e ∈ no.getD [], Reads chained e) :
    ReadsChain chained (.branch l c yes no) := by
  refine readsChain_of_operand rfl fun us rest hus hr => ?_
  simp only [Expr.print, spelt_cons, spelt_append] at hus
  obtain ⟨o, _, rfl, ls, _, rfl, hls, cs, _, rfl, hcs, ys, ns, rfl, hys, hns⟩ := hus
  obtain ⟨x, hx, he⟩ := hc.condition .ifWord (ys ++ (ns ++ rest)) hcs
  obtain ⟨xs, hxs, hes⟩ := readsBlock hyes (ns ++ rest) hys
  obtain ⟨zs, hzs, hos⟩ := readsOtherwise hno hr hns
  have hl : Gives (label (ls ++ (cs ++ (ys ++ (ns ++ rest))))) l (cs ++ (ys ++ (ns ++ rest))) :=
    gives_label hls (ne_at_of_spelt hcs (by decide))
  refine ⟨.branch l x xs zs, ?_, by simp [he, hes, hos]⟩
  simpa using Derives.conditional (o := o) (.branch hl hx hxs hzs)

/-- An operator joins the chains of its operands. -/
theorem readsChain_binary (op : Operator) {l r : Expr} (offset : Option Nat)
    (hl : Reads chained l) (hr : Reads chained r) (hls : l.isStatement = false)
    (hrs : r.isStatement = false) : ReadsChain chained (.binary op l r offset) := by
  intro us rest hus hrest
  simp only [Expr.print, spelt_append, spelt_cons] at hus
  obtain ⟨as, _, rfl, has, o, bs, rfl, hbs⟩ := hus
  obtain ⟨⟨x, xs⟩, ⟨vs, hx, hxs⟩, hxc⟩ :=
    hl.enclosed hls has (ends_operator op o (bs ++ rest))
  obtain ⟨⟨y, ys⟩, ⟨ws, hy, hys⟩, hyc⟩ := hr.enclosed hrs hbs hrest
  refine ⟨(x, xs ++ ⟨op, o, y⟩ :: ys), ⟨vs, ?_, hxs.append (.cons hy hys)⟩, ?_⟩
  · simpa using hx
  · rw [Expr.cut_binary op.level_lt]
    obtain ⟨hx₁, hx₂⟩ := Prod.mk.inj hxc
    obtain ⟨hy₁, hy₂⟩ := Prod.mk.inj hyc
    simp only [placelessChain, List.map_append, List.map_cons, Link.placeless]
    rw [hx₁, hx₂, hy₁, hy₂]

theorem readsStatement_assign (s : String) {value : Expr} (h : ReadsExpression chained value) :
    ReadsStatement chained (.assign s value) := by
  intro us rest hus hr
  simp only [Expr.print, spelt_cons] at hus
  obtain ⟨o, _, rfl, o', vs, rfl, hvs⟩ := hus
  obtain ⟨x, hx, he⟩ := h vs rest hvs hr
  exact ⟨.assign s x, .assignment hx, congrArg (Expr.assign s) he⟩

theorem readsStatement_function (s : String) (ps : List Param) (tag : Option String)
    {body : List Expr} (h : ∀ e ∈ body, ReadsStatement chained e) :
    ReadsStatement chained (.function s ps tag body) := by
  intro us rest hus _
  simp only [Expr.print, spelt_cons, spelt_append, spelt_parenthesized] at hus
  obtain ⟨o, _, rfl, o', _, rfl, _, _, rfl, ⟨o₁, o₂, as, rfl, has⟩, ts, bs, rfl, hts, hbs⟩ := hus
  obtain ⟨xs, hxs, he⟩ := readsBlock h rest hbs
  obtain ⟨htag, hbody⟩ := returnTag_spelt hts hbs rest
  have hps : Gives (params (as ++ ⟨.mark .closeParen, o₂⟩ :: (ts ++ (bs ++ rest)))) ps
    (ts ++ (bs ++ rest)) := gives_params o₂ _ has
  rw [← hbody] at hxs
  have hfun : Derives (.function (.function s ps (returnTag (ts ++ (bs ++ rest))).1 xs))
      (⟨.name s, o'⟩ :: ⟨.mark .openParen, o₁⟩ ::
        (as ++ ⟨.mark .closeParen, o₂⟩ :: (ts ++ (bs ++ rest)))) rest := .function hps hxs
  rw [htag] at hfun
  refine ⟨.function s ps tag xs, ?_, by simp [he]⟩
  simpa using Derives.declaration (o := o) hfun

/-! ## Expressions and programs -/

/-- **Every expression is read back wherever it may stand.** -/
theorem reads (chained : Bool) (e : Expr) : e.Regular → e.Written → Reads chained e := by
  induction e using Expr.parts_induction with
  | step e ih =>
    intro hreg hwrit
    have ih : ∀ x ∈ e.parts, Reads chained x := fun x hx =>
      ih x hx (hreg.part hx) (hwrit.part hx)
    have operand : ∀ x ∈ e.operands, x.isStatement = false := hreg.self
    match e with
    | .numeral x => exact (readsChain_numeral (hwrit.self x rfl)).reads
    | .text quoted offset => exact (readsChain_text quoted offset).reads
    | .var s => exact (readsChain_var s).reads
    | .assign s value =>
      have hvalue := (ih value (by simp [Expr.parts])).expression
        (operand value (by simp [Expr.operands]))
      exact (readsStatement_assign s hvalue).reads rfl
    | .binary op l r offset =>
      exact (readsChain_binary op offset (ih l (by simp [Expr.parts])) (ih r (by simp [Expr.parts]))
        (operand l (by simp [Expr.operands])) (operand r (by simp [Expr.operands]))).reads
    | .call s args offset =>
      exact (readsChain_call s offset fun x hx =>
        (ih x hx).expression (operand x hx)).reads
    | .ret value offset =>
      have hret := readsExpression_ret offset ((ih value (by simp [Expr.parts])).expression
        (operand value (by simp [Expr.operands])))
      exact ⟨fun _ h => absurd rfl (h value offset), fun _ => hret, hret.statement⟩
    | .branch l c yes no =>
      exact (readsChain_branch l ((ih c (by simp [Expr.parts])).expression
        (operand c (by simp [Expr.operands])))
        (fun x hx => (ih x (by simp [Expr.parts, hx])).statement)
        (fun x hx => ih x (by simp only [Expr.parts, List.mem_cons, List.mem_append, hx, or_true]))
        ).reads
    | .whileLoop l c body =>
      exact (readsChain_whileLoop l ((ih c (by simp [Expr.parts])).expression
        (operand c (by simp [Expr.operands]))) fun x hx =>
          (ih x (by simp [Expr.parts, hx])).statement).reads
    | .loop l body =>
      exact (readsChain_loop l fun x hx => (ih x hx).statement).reads
    | .breakTo l => exact (readsChain_breakTo l).reads
    | .continueTo l => exact (readsChain_continueTo l).reads
    | .function s ps tag body =>
      exact (readsStatement_function s ps tag fun x hx => (ih x hx).statement).reads rfl

end Constructs

/-- **Reading undoes writing.**  Take any program whose assignments and declarations stand as
statements and whose numerals are as they are read.  Tokens that spell what is written for it, at
any offsets, are read as that program, up to offsets. -/
theorem program_of_printProgram (chained : Bool) (es : Program)
    (hes : ∀ e ∈ es, e.Regular ∧ e.Written) (ts : List Token)
    (hts : Spelt (printProgram chained es) ts) :
    ∃ xs, program ts = .ok xs ∧ xs.map Expr.placeless = es.map Expr.placeless := by
  obtain ⟨us, _, rfl, hus, hstop⟩ := spelt_append.mp hts
  obtain ⟨o, _, rfl, hnil⟩ := spelt_cons.mp hstop
  obtain rfl := spelt_nil.mp hnil
  have hread : ∀ e ∈ es, ReadsStatement chained e := fun e he =>
    (reads chained e (hes e he).1 (hes e he).2).statement
  obtain ⟨xs, hxs, hplace⟩ := readsLines hread (last_stop o []) hus
  exact ⟨xs, derivesProgram_iff.mp hxs.program, hplace⟩

/-- A program with a function, a labelled loop, a chain of conditionals, and operands that need
their parentheses next to some that do not. -/
def rowsProgram : Program := [
  .function "area" [⟨"number", "w"⟩, ⟨"number", "h"⟩] (some "number")
    [.ret (.binary .mul (.var "w") (.binary .sub (.var "h") (.numeral ⟨16, ['f']⟩) none) none) 0],
  .whileLoop (some "rows") (.binary .sub (.binary .sub (.var "a") (.var "b") none)
      (.binary .sub (.var "c") (.ret (.numeral ⟨10, ['1']⟩) 0) none) none)
    [.branch none (.binary .and (.binary .eq (.var "a") (.var "b") none)
        (.binary .lt (.call "area" [.var "a", .var "b"] 0) (.var "c") none) none)
      [.breakTo (some "rows")]
      (some [.branch none (.var "b") [] (some [.assign "b" (.var "c"), .continueTo none])])]]

/-- What is written for it. -/
def rowsLexemes : List Lexeme := [
  .keyword .fnWord, .name "area", .mark .openParen, .name "number", .name "w", .mark .comma,
    .name "number", .name "h", .mark .closeParen, .name "number", .mark .openBrace,
  .keyword .retWord, .name "w", .operator .mul, .mark .openParen, .name "h", .operator .sub,
    .based 16 ['f'], .mark .closeParen, .mark .closeBrace, .newline,
  .keyword .whileWord, .mark .at, .name "rows", .mark .openParen, .name "a", .operator .sub,
    .name "b", .operator .sub, .mark .openParen, .name "c", .operator .sub, .mark .openParen,
    .keyword .retWord, .number ['1'], .mark .closeParen, .mark .closeParen, .mark .closeParen,
    .mark .openBrace,
  .keyword .ifWord, .mark .openParen, .name "a", .operator .eq, .name "b", .operator .and,
    .name "area", .mark .openParen, .name "a", .mark .comma, .name "b", .mark .closeParen,
    .operator .lt, .name "c", .mark .closeParen, .mark .openBrace,
  .keyword .breakWord, .mark .at, .name "rows", .mark .closeBrace,
  .keyword .elseWord, .keyword .ifWord, .mark .openParen, .name "b", .mark .closeParen,
    .mark .openBrace, .mark .closeBrace, .keyword .elseWord, .mark .openBrace,
  .name "b", .mark .assign, .name "c", .newline,
  .keyword .continueWord, .mark .closeBrace, .mark .closeBrace, .stop]

theorem rowsProgram_of_rowsLexemes :
    (∀ e ∈ rowsProgram, e.Regular ∧ e.Written) ∧ printProgram true rowsProgram = rowsLexemes ∧
    ∃ xs, program (rowsLexemes.map (⟨·, 0⟩)) = .ok xs ∧
      xs.map Expr.placeless = rowsProgram.map Expr.placeless := by
  have regular : ∀ e ∈ rowsProgram, e.Regular ∧ e.Written :=
    of_decide_eq_true (by with_unfolding_all rfl)
  have printed : printProgram true rowsProgram = rowsLexemes := rfl
  refine ⟨regular, printed, program_of_printProgram true rowsProgram regular _ ?_⟩
  rw [printed]
  exact List.map_map.trans (List.map_id _)

end Radix.Read
