import Radix.Proofs.Read.Grammar
import Radix.Proofs.Read.RoundTrip

/-!
# Proofs/Read/Acceptance — the readers accept exactly the grammar

Every sentence of the grammar is read (`Sentence.admits`).  The readers are greedy and the grammar
is not: the value of a `ret` takes every operator that follows, those of the expression around it
too.  So what is carried through the induction is not that an operand is read where it ends, but
that it is read somewhere in the chain it begins, and that the chain is read to its end (`Begins`).
With the converse, a list of tokens makes a program exactly if it is a sentence whose numerals are
valid (`program_ok_iff_sentence`).
-/

namespace Radix.Read

/-! ## Line ends and separators -/

/-- No `else` follows, line ends apart. -/
def NoElse (rest : List Token) : Prop :=
  ∀ o us, dropNewlines rest ≠ ⟨.keyword .elseWord, o⟩ :: us

section Skipped

variable {ls : List Lexeme} {us rest : List Token}

theorem dropNewlines_spelt (hls : Newlines ls) (hus : Spelt ls us) (rest : List Token) :
    dropNewlines (us ++ rest) = dropNewlines rest := by
  refine List.dropWhile_append_of_pos fun t ht => decide_eq_true (hls _ ?_)
  rw [← hus]
  exact List.mem_map.mpr ⟨t, ht, rfl⟩

theorem isSeparator_spelt (hls : Separators ls) (hus : Spelt ls us) :
    ∀ t ∈ us, isSeparator t = true := by
  intro t ht
  have hl := hls t.lexeme (by rw [← hus]; exact List.mem_map.mpr ⟨t, ht, rfl⟩)
  simpa [isSeparator] using hl

theorem dropSeparators_spelt (hls : Separators ls) (hus : Spelt ls us) (rest : List Token) :
    dropSeparators (us ++ rest) = dropSeparators rest :=
  List.dropWhile_append_of_pos (isSeparator_spelt hls hus)

theorem Opens.noElse (h : Opens rest) : NoElse rest := by
  intro o us he
  rw [h.dropNewlines] at he
  obtain ⟨t, vs, rfl, ht⟩ := h
  rw [(List.cons.inj he).1] at ht
  exact absurd ht (by simp [Lexeme.opens])

/-- A separator ends an expression, if no `else` follows it. -/
theorem closes_separator {t : Token} (ht : isSeparator t = true) (hr : NoElse rest) :
    Closes (t :: rest) := by
  obtain ⟨l, o⟩ := t
  rcases separator_of_isSeparator ht with rfl | rfl
  · refine ⟨⟨by simp, by simp, fun o' us he => hr o' us ?_⟩, by simp, by simp⟩
    simpa [dropNewlines] using he
  · exact ⟨⟨by simp, by simp, by simp [dropNewlines_cons]⟩, by simp, by simp⟩

/-- So do more of them. -/
theorem closes_separators (h : ∀ t ∈ us, isSeparator t = true) (hne : us ≠ []) (hr : NoElse rest) :
    Closes (us ++ rest) := by
  induction us with
  | nil => exact absurd rfl hne
  | cons t us ih =>
    refine closes_separator (h t (by simp)) ?_
    by_cases hus : us = []
    · rwa [hus]
    · exact (ih (fun u hu => h u (by simp [hu])) hus).otherwise

theorem Closes.after_separators (hr : Closes rest) (h : ∀ t ∈ us, isSeparator t = true) :
    Closes (us ++ rest) := by
  by_cases hus : us = []
  · rwa [hus]
  · exact closes_separators h hus hr.otherwise

theorem Closes.after_newlines (hr : Closes rest) (hls : Newlines ls) (hus : Spelt ls us) :
    Closes (us ++ rest) :=
  hr.after_separators (isSeparator_spelt (fun l hl => .inl (hls l hl)) hus)

end Skipped

/-! ## Lists of items -/

/-- An item is read. -/
def ItemRead (ts rest : List Token) : Item → Prop
  | .argument => ∃ x, Derives (.expression x) ts rest
  | .parameter => ∃ p, Gives (param ts) p rest

/-- Items are read up to the closing parenthesis. -/
def ItemsRead (ts rest : List Token) : Item → Prop
  | .argument => ∃ xs, Derives (.items xs) ts rest
  | .parameter => ∃ ps, Gives (paramItems ts) ps rest

/-- A list is read, after its opening parenthesis. -/
def ListRead (ts rest : List Token) : Item → Prop
  | .argument => ∃ xs, Derives (.arguments xs) ts rest
  | .parameter => ∃ ps, Gives (params ts) ps rest

section Items

variable {k : Item} {ts us vs rest : List Token}

theorem itemsRead_last (h : ItemRead ts us k) (hn : Gives (listNext us) false rest) :
    ItemsRead ts rest k := by
  match k with
  | .argument =>
    obtain ⟨x, hx⟩ := h
    exact ⟨[x], .lastItem hx hn⟩
  | .parameter =>
    obtain ⟨p, hu, hp⟩ := h
    obtain ⟨hr, hn⟩ := hn
    refine ⟨[p], ?_⟩
    unfold paramItems
    exact gives_bind.mpr ⟨_, hp, gives_bind.mpr ⟨_, hn, gives_pure.mpr ⟨rfl, rfl⟩⟩⟩

theorem itemsRead_cons (h : ItemRead ts us k) (hn : Gives (listNext us) true vs)
    (hi : ItemsRead vs rest k) : ItemsRead ts rest k := by
  match k with
  | .argument =>
    obtain ⟨x, hx⟩ := h
    obtain ⟨xs, hxs⟩ := hi
    exact ⟨x :: xs, .item hx hn hxs⟩
  | .parameter =>
    obtain ⟨p, hu, hp⟩ := h
    obtain ⟨hv, hn⟩ := hn
    obtain ⟨ps, hr, hps⟩ := hi
    refine ⟨p :: ps, ?_⟩
    unfold paramItems
    exact gives_bind.mpr ⟨_, hp, gives_bind.mpr ⟨_, hn,
      gives_bind.mpr ⟨_, hps, gives_pure.mpr ⟨rfl, rfl⟩⟩⟩⟩

theorem listRead_nil {o : Nat} (h : dropNewlines ts = ⟨.mark .closeParen, o⟩ :: rest) (k : Item) :
    ListRead ts rest k := by
  match k with
  | .argument => exact ⟨[], .noArguments h⟩
  | .parameter =>
    refine ⟨[], gives_params_of_paramsAt ?_⟩
    rw [h]
    exact ⟨_, rfl⟩

theorem listRead_items (ho : Opens (dropNewlines ts)) (h : ItemsRead (dropNewlines ts) rest k) :
    ListRead ts rest k := by
  match k with
  | .argument =>
    obtain ⟨xs, hxs⟩ := h
    exact ⟨xs, .arguments hxs⟩
  | .parameter =>
    obtain ⟨ps, hps⟩ := h
    refine ⟨ps, gives_params_of_paramsAt ?_⟩
    rwa [ho.paramsAt]

end Items

/-! ## Chains -/

/-- The rest of a chain is read from `ts` on, up to `rest`. -/
structure Trails (ts rest : List Token) : Prop where
  ends : Ends ts
  closes : Closes rest
  links : ∃ ls, Derives (.links ls) ts rest

theorem Closes.trails {rest : List Token} (h : Closes rest) : Trails rest rest :=
  ⟨h.toEnds, h, [], .noLink h.operator⟩

/-- In front of the rest of a chain, the lexemes begin a chain that is read to the same end. -/
def Begins (ls : List Lexeme) : Prop :=
  ∀ us mid rest, Spelt ls us → Trails mid rest →
    ∃ x vs, Derives (.operand x) (us ++ mid) vs ∧ Trails vs rest

section Chains

variable {ls ms : List Lexeme}

/-- An operand that is read where it ends. -/
theorem begins_of_operand
    (h : ∀ us rest, Spelt ls us → Ends rest → ∃ x, Derives (.operand x) (us ++ rest) rest) :
    Begins ls := by
  intro us mid rest hus hmid
  obtain ⟨x, hx⟩ := h us mid hus hmid.ends
  exact ⟨x, mid, hx, hmid⟩

theorem Begins.expression (h : Begins ls) {us rest : List Token} (hus : Spelt ls us)
    (hr : Closes rest) : ∃ x, Derives (.expression x) (us ++ rest) rest := by
  obtain ⟨x, vs, hx, hv⟩ := h us rest rest hus hr.trails
  obtain ⟨links, hlinks⟩ := hv.links
  exact ⟨_, .expression hx hlinks⟩

theorem Begins.parenthesized (h : Begins ls) {us : List Token} (hus : Spelt (parenthesized ls) us)
    (rest : List Token) : ∃ x o o' vs, us ++ rest = ⟨.mark .openParen, o⟩ :: vs ∧
      Derives (.expression x) vs (⟨.mark .closeParen, o'⟩ :: rest) := by
  obtain ⟨o, o', vs, rfl, hvs⟩ := spelt_parenthesized.mp hus
  obtain ⟨x, hx⟩ := h.expression hvs (closes_mark (.inr (.inl rfl)) o' rest)
  refine ⟨x, o, o', vs ++ ⟨.mark .closeParen, o'⟩ :: rest, ?_, hx⟩
  rw [List.cons_append, List.append_assoc, List.singleton_append]

theorem Begins.condition (h : Begins ls) (k : Keyword) {us : List Token}
    (hus : Spelt (Radix.parenthesized ls) us) (rest : List Token) :
    ∃ x, Derives (.condition k x) (us ++ rest) rest := by
  obtain ⟨x, o, o', vs, hvs, hx⟩ := h.parenthesized hus rest
  rw [hvs]
  exact ⟨x, .condition hx⟩

/-- The value of a `ret` takes the rest of the chain around it. -/
theorem begins_ret (h : Begins ls) : Begins (.keyword .retWord :: ls) := by
  intro us mid rest hus hmid
  obtain ⟨o, vs, rfl, hvs⟩ := spelt_cons.mp hus
  obtain ⟨x, ws, hx, hws⟩ := h vs mid rest hvs hmid
  obtain ⟨links, hlinks⟩ := hws.links
  exact ⟨_, rest, .ret (.expression hx hlinks), hmid.closes.trails⟩

end Chains

/-! ## What is read of each category -/

/-- The sentences of a category are read, whatever follows that is not taken for more of them. -/
def Category.Admits (ls : List Lexeme) : Category → Prop
  | .statements => ∀ us last, Spelt ls us → Last last → ∃ xs, Lines xs (us ++ last) last
  | .lines => ∀ us last, Spelt ls us → Last last → Closes (us ++ last) ∧
      ∃ vs h xs, terminator (us ++ last) = .ok ⟨vs, h⟩ ∧ Lines xs vs last
  | .block => ∀ us rest, Spelt ls us → ∃ xs, Derives (.block xs) (us ++ rest) rest
  | .statement => ∀ us rest, Spelt ls us → Closes rest →
      ∃ x, Derives (.unterminated x) (us ++ rest) rest
  | .expression | .operand => Begins ls
  | .chain => ∀ us mid rest, Spelt ls us → Trails mid rest → Trails (us ++ mid) rest
  | .conditional => ∀ us rest, Spelt ls us → Ends rest →
      ∃ x o vs, us ++ rest = ⟨.keyword .ifWord, o⟩ :: vs ∧ Derives (.branch x) vs rest
  | .otherwise => ∀ us rest, Spelt ls us → Ends rest →
      ∃ no, Derives (.otherwise no) (us ++ rest) rest
  | .item k => ∀ us rest, Spelt ls us → Closes rest → ItemRead (us ++ rest) rest k
  | .list k => ∀ us rest, Spelt ls us → ListRead (us ++ rest) rest k
  | .items k => ∀ us rest, Spelt ls us → ItemsRead (us ++ rest) rest k

/-! ## Statements -/

section Statements

variable {seps s more body e : List Lexeme}

theorem admits_blank (hs : Separators seps) : Category.statements.Admits seps := by
  intro us last hus hlast
  exact ⟨[], .nil ((dropSeparators_spelt hs hus last).trans hlast.dropSeparators)⟩

/-- A statement and the lines after it, with separators in front. -/
theorem lines_of_statement (hopen : ∃ l ms, s = l :: ms ∧ l.opens = true)
    (hs : Category.statement.Admits s) (hmore : Category.lines.Admits more)
    {as us ms last : List Token} (has : ∀ t ∈ as, isSeparator t = true) (hus : Spelt s us)
    (hms : Spelt more ms) (hlast : Last last) :
    ∃ xs, Lines xs (as ++ (us ++ (ms ++ last))) last := by
  obtain ⟨hcloses, vs, h, xs, hterm, hxs⟩ := hmore ms last hms hlast
  obtain ⟨x, hx⟩ := hs us (ms ++ last) hus hcloses
  refine ⟨x :: xs, .cons ?_ hxs⟩
  have hdrop : dropSeparators (as ++ (us ++ (ms ++ last))) = us ++ (ms ++ last) := by
    rw [dropSeparators, List.dropWhile_append_of_pos has]
    exact ((opens_of_spelt hus hopen).append _).dropSeparators
  rw [hdrop]
  exact .statement hx hterm

theorem admits_statements (hseps : Separators seps) (hopen : ∃ l ms, s = l :: ms ∧ l.opens = true)
    (hs : Category.statement.Admits s) (hmore : Category.lines.Admits more) :
    Category.statements.Admits (seps ++ (s ++ more)) := by
  intro us last hus hlast
  obtain ⟨as, _, rfl, has, hrest⟩ := spelt_append.mp hus
  obtain ⟨bs, cs, rfl, hbs, hcs⟩ := spelt_append.mp hrest
  simp only [List.append_assoc]
  exact lines_of_statement hopen hs hmore (isSeparator_spelt hseps has) hbs hcs hlast

theorem terminator_separator {t : Token} (ht : isSeparator t = true) (rest : List Token) :
    terminator (t :: rest) = .ok ⟨rest, Nat.le_succ _⟩ := by
  simp [terminator, ht]

theorem admits_lastLine (hseps : Separators seps) : Category.lines.Admits seps := by
  intro us last hus hlast
  have hall := isSeparator_spelt hseps hus
  refine ⟨hlast.closes.after_separators hall, ?_⟩
  match us with
  | [] => exact ⟨last, _, [], hlast.terminator, .nil hlast.dropSeparators⟩
  | u :: us =>
    refine ⟨us ++ last, _, [], terminator_separator (hall u (by simp)) _, .nil ?_⟩
    rw [dropSeparators, List.dropWhile_append_of_pos fun t ht => hall t (by simp [ht])]
    exact hlast.dropSeparators

theorem admits_line (hseps : Separators seps) (hne : seps ≠ [])
    (hopen : ∃ l ms, s = l :: ms ∧ l.opens = true) (hs : Category.statement.Admits s)
    (hmore : Category.lines.Admits more) : Category.lines.Admits (seps ++ (s ++ more)) := by
  intro us last hus hlast
  obtain ⟨as, _, rfl, has, hrest⟩ := spelt_append.mp hus
  obtain ⟨bs, cs, rfl, hbs, hcs⟩ := spelt_append.mp hrest
  have hall := isSeparator_spelt hseps has
  rw [List.append_assoc, List.append_assoc]
  match as with
  | [] => exact absurd has.symm hne
  | a :: as =>
    have htail : ∀ t ∈ as, isSeparator t = true := fun t ht => hall t (by simp [ht])
    refine ⟨closes_separators hall (by simp) ((opens_of_spelt hbs hopen).append _).noElse, ?_⟩
    obtain ⟨xs, hxs⟩ := lines_of_statement hopen hs hmore htail hbs hcs hlast
    exact ⟨as ++ (bs ++ (cs ++ last)), _, xs, terminator_separator (hall a (by simp)) _, hxs⟩

theorem admits_block (h : Category.statements.Admits body) :
    Category.block.Admits (braced body) := by
  intro us rest hus
  obtain ⟨o, o', vs, rfl, hvs⟩ := spelt_braced.mp hus
  obtain ⟨xs, hxs⟩ := h vs _ hvs (last_closeBrace o' rest)
  refine ⟨xs, ?_⟩
  simpa using Derives.block (o := o) hxs.statements

/-- A block begins with its brace. -/
theorem Sentence.block_brace (h : Sentence .block body) :
    ∃ ls, body = .mark .openBrace :: ls := by
  cases h with
  | block _ => exact ⟨_, rfl⟩

theorem admits_declaration {s : String} {tag : Option String} {params : List Lexeme}
    (hp : (Category.list .parameter).Admits params) (hb : Sentence .block body)
    (h : Category.block.Admits body) : Category.statement.Admits
      (.keyword .fnWord :: .name s :: .mark .openParen :: (params ++ (printTag tag ++ body))) := by
  intro us rest hus hr
  simp only [spelt_cons, spelt_append] at hus
  obtain ⟨o, _, rfl, o₁, _, rfl, o₂, _, rfl, as, _, rfl, has, ts, bs, rfl, hts, hbs⟩ := hus
  obtain ⟨xs, hxs⟩ := h bs rest hbs
  obtain ⟨ps, hps⟩ := hp as (ts ++ (bs ++ rest)) has
  obtain ⟨ls, rfl⟩ := hb.block_brace
  rw [← (returnTag_spelt hts hbs rest).2] at hxs
  refine ⟨.function s ps (returnTag (ts ++ (bs ++ rest))).1 xs, ?_⟩
  have declared : Derives (.function (.function s ps (returnTag (ts ++ (bs ++ rest))).1 xs))
      (⟨.name s, o₁⟩ :: ⟨.mark .openParen, o₂⟩ :: (as ++ (ts ++ (bs ++ rest)))) rest :=
    .function hps hxs
  simpa using Derives.declaration (o := o) declared

theorem admits_assignment {s : String} (h : Begins e) :
    Category.statement.Admits (.name s :: .mark .assign :: e) := by
  intro us rest hus hr
  simp only [spelt_cons] at hus
  obtain ⟨o, _, rfl, o', vs, rfl, hvs⟩ := hus
  obtain ⟨x, hx⟩ := h.expression hvs hr
  exact ⟨.assign s x, .assignment hx⟩

theorem admits_bare (h : Begins e) : Category.statement.Admits e := by
  intro us rest hus hr
  obtain ⟨x, hx⟩ := h.expression hus hr
  refine ⟨x, .bare (fun s o o' vs hs => ?_) hx⟩
  rw [hs] at hx
  exact hr.assign o' vs hx.rest_of_assign

end Statements

/-! ## Operands -/

section Operands

variable {x more args c body yes no ns : List Lexeme} {label : Option String}

theorem begins_expression (hx : Begins x) (hmore : Category.chain.Admits more) :
    Begins (x ++ more) := by
  intro us mid rest hus hmid
  obtain ⟨as, bs, rfl, has, hbs⟩ := spelt_append.mp hus
  rw [List.append_assoc]
  exact hx as (bs ++ mid) rest has (hmore bs mid rest hbs hmid)

theorem admits_noLink : Category.chain.Admits [] := by
  intro us mid rest hus hmid
  obtain rfl := spelt_nil.mp hus
  exact hmid

theorem admits_link {op : Operator} (hx : Begins x) (hmore : Category.chain.Admits more) :
    Category.chain.Admits (.operator op :: (x ++ more)) := by
  intro us mid rest hus hmid
  simp only [spelt_cons, spelt_append] at hus
  obtain ⟨o, _, rfl, as, bs, rfl, has, hbs⟩ := hus
  obtain ⟨y, vs, hy, hvs⟩ := hx as (bs ++ mid) rest has (hmore bs mid rest hbs hmid)
  obtain ⟨links, hlinks⟩ := hvs.links
  refine ⟨ends_operator op o _, hmid.closes, ⟨op, o, y⟩ :: links, ?_⟩
  simpa using Derives.link (o := o) hy hlinks

/-- An operand of one token. -/
theorem begins_single {l : Lexeme}
    (h : ∀ o rest, Ends rest → ∃ y, Derives (.operand y) (⟨l, o⟩ :: rest) rest) : Begins [l] := by
  refine begins_of_operand fun us rest hus hr => ?_
  simp only [spelt_cons, spelt_nil] at hus
  obtain ⟨o, _, rfl, rfl⟩ := hus
  exact h o rest hr

theorem begins_call {s : String} (h : (Category.list .argument).Admits args) :
    Begins (.name s :: .mark .openParen :: args) := by
  refine begins_of_operand fun us rest hus _ => ?_
  simp only [spelt_cons] at hus
  obtain ⟨o, _, rfl, o', vs, rfl, hvs⟩ := hus
  obtain ⟨xs, hxs⟩ := h vs rest hvs
  exact ⟨.call s xs o, .call hxs⟩

theorem begins_group (h : Begins x) : Begins (parenthesized x) := by
  refine begins_of_operand fun us rest hus _ => ?_
  obtain ⟨y, o, o', vs, hvs, hy⟩ := h.parenthesized hus rest
  rw [hvs]
  exact ⟨y, .group hy⟩

theorem begins_branch (h : Category.conditional.Admits c) : Begins c := by
  refine begins_of_operand fun us rest hus hr => ?_
  obtain ⟨y, o, vs, hvs, hy⟩ := h us rest hus hr
  rw [hvs]
  exact ⟨y, .conditional hy⟩

theorem begins_whileLoop (hc : Begins c) (hb : Category.block.Admits body) :
    Begins (.keyword .whileWord :: (printLabel label ++ (parenthesized c ++ body))) := by
  refine begins_of_operand fun us rest hus _ => ?_
  simp only [spelt_cons, spelt_append] at hus
  obtain ⟨o, _, rfl, as, _, rfl, has, cs, bs, rfl, hcs, hbs⟩ := hus
  obtain ⟨y, hy⟩ := hc.condition .whileWord hcs (bs ++ rest)
  obtain ⟨xs, hxs⟩ := hb bs rest hbs
  have next : ∀ o vs, cs ++ (bs ++ rest) ≠ ⟨.mark .at, o⟩ :: vs :=
    ne_at_of_spelt hcs (by decide)
  have hl := gives_label has next
  refine ⟨.whileLoop label y xs, ?_⟩
  simpa using Derives.whileLoop (o := o) hl hy hxs

theorem begins_loop (hbody : Sentence .block body) (hb : Category.block.Admits body) :
    Begins (.keyword .loopWord :: (printLabel label ++ body)) := by
  refine begins_of_operand fun us rest hus _ => ?_
  simp only [spelt_cons, spelt_append] at hus
  obtain ⟨o, _, rfl, as, bs, rfl, has, hbs⟩ := hus
  obtain ⟨xs, hxs⟩ := hb bs rest hbs
  obtain ⟨ls, rfl⟩ := hbody.block_brace
  have next : ∀ o vs, bs ++ rest ≠ ⟨.mark .at, o⟩ :: vs :=
    ne_at_of_spelt hbs (by decide)
  have hl := gives_label has next
  refine ⟨.loop label xs, ?_⟩
  simpa using Derives.loop (o := o) hl hxs

theorem begins_breakTo : Begins (.keyword .breakWord :: printLabel label) := by
  refine begins_of_operand fun us rest hus hr => ?_
  obtain ⟨o, vs, rfl, hvs⟩ := spelt_cons.mp hus
  exact ⟨.breakTo label, .breakTo (gives_label hvs hr.label)⟩

theorem begins_continueTo : Begins (.keyword .continueWord :: printLabel label) := by
  refine begins_of_operand fun us rest hus hr => ?_
  obtain ⟨o, vs, rfl, hvs⟩ := spelt_cons.mp hus
  exact ⟨.continueTo label, .continueTo (gives_label hvs hr.label)⟩

theorem admits_conditional (hc : Begins c) (hy : Category.block.Admits yes)
    (hn : Category.otherwise.Admits no) : Category.conditional.Admits
      (.keyword .ifWord :: (printLabel label ++ (parenthesized c ++ (yes ++ no)))) := by
  intro us rest hus hr
  simp only [spelt_cons, spelt_append] at hus
  obtain ⟨o, _, rfl, as, _, rfl, has, cs, _, rfl, hcs, ys, zs, rfl, hys, hzs⟩ := hus
  obtain ⟨y, hy'⟩ := hc.condition .ifWord hcs (ys ++ (zs ++ rest))
  obtain ⟨xs, hxs⟩ := hy ys (zs ++ rest) hys
  obtain ⟨other, hother⟩ := hn zs rest hzs hr
  have next : ∀ o vs, cs ++ (ys ++ (zs ++ rest)) ≠ ⟨.mark .at, o⟩ :: vs :=
    ne_at_of_spelt hcs (by decide)
  have hl := gives_label has next
  refine ⟨.branch label y xs other, o, _, rfl, ?_⟩
  simpa using Derives.branch hl hy' hxs hother

theorem admits_noElse : Category.otherwise.Admits [] := by
  intro us rest hus hr
  obtain rfl := spelt_nil.mp hus
  exact ⟨none, .noElse hr.otherwise⟩

/-- An `else` is found behind line ends. -/
theorem admits_else (hns : Newlines ns) (h : ∀ us rest, Spelt no us → Ends rest →
    ∃ xs, Derives (.alternative xs) (us ++ rest) rest) :
    Category.otherwise.Admits (ns ++ .keyword .elseWord :: no) := by
  intro us rest hus hr
  simp only [spelt_cons, spelt_append] at hus
  obtain ⟨as, _, rfl, has, o, vs, rfl, hvs⟩ := hus
  obtain ⟨xs, hxs⟩ := h vs rest hvs hr
  refine ⟨some xs, .otherwise (o := o) ?_ hxs⟩
  rw [List.append_assoc, dropNewlines_spelt hns has]
  exact dropNewlines_cons (by simp) o (vs ++ rest)

theorem alternative_of_conditional (h : Category.conditional.Admits c) (us rest : List Token)
    (hus : Spelt c us) (hr : Ends rest) : ∃ xs, Derives (.alternative xs) (us ++ rest) rest := by
  obtain ⟨y, o, vs, hvs, hy⟩ := h us rest hus hr
  rw [hvs]
  exact ⟨[y], .elseIf hy⟩

theorem alternative_of_block (h : Category.block.Admits body) (us rest : List Token)
    (hus : Spelt body us) (_ : Ends rest) : ∃ xs, Derives (.alternative xs) (us ++ rest) rest := by
  obtain ⟨xs, hxs⟩ := h us rest hus
  exact ⟨xs, .elseBlock hxs⟩

end Operands

/-! ## Lists -/

section Lists

variable {k : Item} {i is ns ns' : List Lexeme}

theorem admits_noItem (hns : Newlines ns) :
    (Category.list k).Admits (ns ++ [.mark .closeParen]) := by
  intro us rest hus
  simp only [spelt_append, spelt_cons, spelt_nil] at hus
  obtain ⟨as, _, rfl, has, o, _, rfl, rfl⟩ := hus
  refine listRead_nil (o := o) ?_ k
  rw [List.append_assoc, dropNewlines_spelt hns has]
  exact dropNewlines_cons (by simp) o rest

theorem admits_list (hns : Newlines ns) (hopen : ∃ l ms, is = l :: ms ∧ l.opens = true)
    (h : (Category.items k).Admits is) : (Category.list k).Admits (ns ++ is) := by
  intro us rest hus
  obtain ⟨as, bs, rfl, has, hbs⟩ := spelt_append.mp hus
  have hopens := (opens_of_spelt hbs hopen).append rest
  have hdrop : dropNewlines (as ++ bs ++ rest) = bs ++ rest := by
    rw [List.append_assoc, dropNewlines_spelt hns has, hopens.dropNewlines]
  refine listRead_items ?_ ?_
  · rwa [hdrop]
  · rw [hdrop]
    exact h bs rest hbs

theorem admits_lastItem (hi : (Category.item k).Admits i) (hns : Newlines ns) :
    (Category.items k).Admits (i ++ (ns ++ [.mark .closeParen])) := by
  intro us rest hus
  simp only [spelt_append, spelt_cons, spelt_nil] at hus
  obtain ⟨as, _, rfl, has, bs, _, rfl, hbs, o, _, rfl, rfl⟩ := hus
  have hcloses : Closes (⟨.mark .closeParen, o⟩ :: rest) := closes_mark (.inr (.inl rfl)) o rest
  have hnext : Gives (listNext (bs ++ ⟨.mark .closeParen, o⟩ :: rest)) false rest := by
    rw [gives_listNext, dropNewlines_spelt hns hbs, ← gives_listNext]
    exact gives_listNext_close o rest
  simpa using itemsRead_last (hi as _ has (hcloses.after_newlines hns hbs)) hnext

theorem admits_items (hi : (Category.item k).Admits i) (hns : Newlines ns) (hns' : Newlines ns')
    (hopen : ∃ l ms, is = l :: ms ∧ l.opens = true) (his : (Category.items k).Admits is) :
    (Category.items k).Admits (i ++ (ns ++ .mark .comma :: (ns' ++ is))) := by
  intro us rest hus
  simp only [spelt_append, spelt_cons] at hus
  obtain ⟨as, _, rfl, has, bs, _, rfl, hbs, o, _, rfl, cs, ds, rfl, hcs, hds⟩ := hus
  have hopens := (opens_of_spelt hds hopen).append rest
  have hcloses : Closes (⟨.mark .comma, o⟩ :: (cs ++ (ds ++ rest))) :=
    closes_mark (.inl rfl) o (cs ++ (ds ++ rest))
  have hnext : Gives (listNext (bs ++ ⟨.mark .comma, o⟩ :: (cs ++ (ds ++ rest)))) true
      (ds ++ rest) := by
    rw [gives_listNext, dropNewlines_spelt hns hbs, ← gives_listNext]
    have hcomma := gives_listNext_comma o (cs ++ (ds ++ rest))
    rwa [dropNewlines_spelt hns' hcs, hopens.dropNewlines] at hcomma
  simpa using itemsRead_cons (hi as _ has (hcloses.after_newlines hns hbs)) hnext (his ds rest hds)

end Lists

/-! ## Every sentence is read -/

/-- **Every sentence with valid numerals is read.** -/
theorem Sentence.admits {c : Category} {ls : List Lexeme} (h : Sentence c ls) :
    (∀ l ∈ ls, l.Valid) → c.Admits ls := by
  induction h with
  | blank hs => exact fun _ => admits_blank hs
  | statements hs h _ ihs ihm =>
    exact fun hv => admits_statements hs (h.opens rfl) (ihs fun l hl => hv l (by simp [hl]))
      (ihm fun l hl => hv l (by simp [hl]))
  | lastLine hs => exact fun _ => admits_lastLine hs
  | line hs hne h _ ihs ihm =>
    exact fun hv => admits_line hs hne (h.opens rfl) (ihs fun l hl => hv l (by simp [hl]))
      (ihm fun l hl => hv l (by simp [hl]))
  | block _ ih => exact fun hv => admits_block (ih fun l hl => hv l (by simp [braced, hl]))
  | declaration _ hb ihp ihb =>
    exact fun hv => admits_declaration (ihp fun l hl => hv l (by simp [hl])) hb
      (ihb fun l hl => hv l (by simp [hl]))
  | assignment _ ih => exact fun hv => admits_assignment (ih fun l hl => hv l (by simp [hl]))
  | bare _ ih => exact fun hv => admits_bare (ih hv)
  | expression _ _ ihx ihm =>
    exact fun hv => begins_expression (ihx fun l hl => hv l (by simp [hl]))
      (ihm fun l hl => hv l (by simp [hl]))
  | noLink => exact fun _ => admits_noLink
  | link _ _ ihx ihm =>
    exact fun hv => admits_link (ihx fun l hl => hv l (by simp [hl]))
      (ihm fun l hl => hv l (by simp [hl]))
  | number =>
    intro hv
    obtain ⟨x, hx⟩ := hv _ (List.mem_singleton.mpr rfl)
    exact begins_single fun _ _ _ => ⟨.numeral x, .number hx⟩
  | based =>
    intro hv
    obtain ⟨x, hx⟩ := hv _ (List.mem_singleton.mpr rfl)
    exact begins_single fun _ _ _ => ⟨.numeral x, .based hx⟩
  | text => exact fun _ => begins_single fun _ _ _ => ⟨_, .text⟩
  | var => exact fun _ => begins_single fun _ _ hr => ⟨_, .var hr.paren⟩
  | call _ ih => exact fun hv => begins_call (ih fun l hl => hv l (by simp [hl]))
  | group _ ih => exact fun hv => begins_group (ih fun l hl => hv l (by simp [parenthesized, hl]))
  | ret _ ih => exact fun hv => begins_ret (ih fun l hl => hv l (by simp [hl]))
  | branch _ ih => exact fun hv => begins_branch (ih hv)
  | whileLoop _ _ ihc ihb =>
    exact fun hv => begins_whileLoop (ihc fun l hl => hv l (by simp [parenthesized, hl]))
      (ihb fun l hl => hv l (by simp [hl]))
  | loop hb ih => exact fun hv => begins_loop hb (ih fun l hl => hv l (by simp [hl]))
  | breakTo => exact fun _ => begins_breakTo
  | continueTo => exact fun _ => begins_continueTo
  | conditional _ _ _ ihc ihy ihn =>
    exact fun hv => admits_conditional (ihc fun l hl => hv l (by simp [parenthesized, hl]))
      (ihy fun l hl => hv l (by simp [hl])) (ihn fun l hl => hv l (by simp [hl]))
  | noElse => exact fun _ => admits_noElse
  | elseIf hns _ ih =>
    exact fun hv => admits_else hns
      (alternative_of_conditional (ih fun l hl => hv l (by simp [hl])))
  | elseBlock hns _ ih =>
    exact fun hv => admits_else hns (alternative_of_block (ih fun l hl => hv l (by simp [hl])))
  | argument _ ih => exact fun hv us rest hus hr => (ih hv).expression hus hr
  | @parameter tag name =>
    intro _ us rest hus _
    simp only [spelt_cons, spelt_nil] at hus
    obtain ⟨o, _, rfl, o', _, rfl, rfl⟩ := hus
    exact ⟨⟨tag, name⟩, gives_param ⟨tag, name⟩ o o' rest⟩
  | noItem hns => exact fun _ => admits_noItem hns
  | list hns hi ih =>
    exact fun hv => admits_list hns (hi.opens rfl) (ih fun l hl => hv l (by simp [hl]))
  | lastItem _ hns ih => exact fun hv => admits_lastItem (ih fun l hl => hv l (by simp [hl])) hns
  | items _ hns hns' hi ih ihs =>
    exact fun hv => admits_items (ih fun l hl => hv l (by simp [hl])) hns hns' (hi.opens rfl)
      (ihs fun l hl => hv l (by simp [hl]))

/-- **The readers accept exactly the grammar.**  Take any tokens in which the source does not end.
They are read as a program exactly if their numerals are written in their bases and they are
statements of the grammar. -/
theorem program_ok_iff_sentence (ts : List Token) (o : Nat) (hts : ∀ t ∈ ts, t.lexeme ≠ .stop) :
    (∃ es, program (ts ++ [⟨.stop, o⟩]) = .ok es) ↔
      (∀ t ∈ ts, t.lexeme.Valid) ∧ Sentence .statements (ts.map (·.lexeme)) := by
  constructor
  · rintro ⟨es, hes⟩
    exact sentence_of_program hes hts
  · rintro ⟨hv, hs⟩
    have hall : ∀ l ∈ ts.map (·.lexeme), l.Valid := by
      intro l hl
      obtain ⟨t, ht, rfl⟩ := List.mem_map.mp hl
      exact hv t ht
    obtain ⟨xs, hxs⟩ := hs.admits hall ts [⟨.stop, o⟩] rfl (last_stop o [])
    exact ⟨xs, derivesProgram_iff.mp hxs.program⟩

/-- The operator after the value of a `ret`, and an `else` on a later line. -/
def lateElse : List Token := [
  ⟨.name "x", 0⟩, ⟨.mark .assign, 1⟩, ⟨.number ['2'], 2⟩, ⟨.operator .mul, 3⟩,
  ⟨.keyword .retWord, 4⟩, ⟨.based 16 ['f'], 5⟩, ⟨.operator .add, 6⟩, ⟨.name "y", 7⟩,
  ⟨.mark .semicolon, 8⟩, ⟨.keyword .ifWord, 9⟩, ⟨.mark .openParen, 10⟩, ⟨.name "x", 11⟩,
  ⟨.mark .closeParen, 12⟩, ⟨.mark .openBrace, 13⟩, ⟨.mark .closeBrace, 14⟩, ⟨.newline, 15⟩,
  ⟨.keyword .elseWord, 16⟩, ⟨.mark .openBrace, 17⟩, ⟨.keyword .breakWord, 18⟩,
  ⟨.mark .closeBrace, 19⟩]

theorem lateElse_sentence : (∀ t ∈ lateElse, t.lexeme ≠ .stop) ∧
    program (lateElse ++ [⟨.stop, 20⟩]) = .ok [
      .assign "x" (.binary .mul (.numeral ⟨10, ['2']⟩)
        (.ret (.binary .add (.numeral ⟨16, ['f']⟩) (.var "y") (some 6)) 4) (some 3)),
      .branch none (.var "x") [] (some [.breakTo none])] ∧
    (∀ t ∈ lateElse, t.lexeme.Valid) ∧ Sentence .statements (lateElse.map (·.lexeme)) := by
  refine ⟨by decide, by with_unfolding_all rfl, ?_⟩
  exact (program_ok_iff_sentence lateElse 20 (by decide)).mp ⟨_, by with_unfolding_all rfl⟩

end Radix.Read
