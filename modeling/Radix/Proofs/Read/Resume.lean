import Radix.Proofs.Read.Acceptance
import Radix.Proofs.Read.Alike

/-!
# Proofs/Read/Resume — reading on where a source ended

A source ends with the lexeme `stop`.  `Resumes` puts a line end and more tokens in its place.  If
no `else` comes first among these, nothing that was read takes any of them: what is read off the
front of the tokens is still read, and the same is left but for that (`Derives.resumes`).  So two
programs with a line end between them are read one after the other (`program_append_newline`).
-/

namespace Radix.Read

/-- The second tokens are the first ones, which end where the source does, with a line end and more
tokens in place of its end. -/
inductive Resumes (p : Nat) (more : List Token) : List Token → List Token → Prop
  | stop (o) : Resumes p more [⟨.stop, o⟩] (⟨.newline, p⟩ :: more)
  | cons {t ts ts'} : t.lexeme ≠ .stop → Resumes p more ts ts' →
    Resumes p more (t :: ts) (t :: ts')

theorem Spans.opens {P : List Lexeme → Prop} {ts rest : List Token} (h : Spans P ts rest)
    (hP : ∀ ls, P ls → ∃ l ms, ls = l :: ms ∧ l.opens = true) : Opens ts := by
  obtain ⟨us, rfl, -, hp⟩ := h
  exact (opens_of_spelt rfl (hP _ hp)).append rest

theorem gives_params_iff {ts rest : List Token} {ps : List Param} : Gives (params ts) ps rest ↔
    (ps = [] ∧ ∃ o, dropNewlines ts = ⟨.mark .closeParen, o⟩ :: rest) ∨
      Gives (paramItems (dropNewlines ts)) ps rest := by
  refine ⟨params_cases, ?_⟩
  rintro (⟨rfl, o, hd⟩ | h)
  · refine gives_params_of_paramsAt ?_
    rw [hd]
    exact ⟨_, rfl⟩
  · have hopen : Opens (dropNewlines ts) := (spans_paramItems h).opens fun _ hi => hi.opens rfl
    refine gives_params_of_paramsAt ?_
    rwa [hopen.paramsAt]

theorem resumes_append {ts : List Token} (hts : ∀ t ∈ ts, t.lexeme ≠ .stop) (o p : Nat)
    (more : List Token) :
    Resumes p more (ts ++ [⟨.stop, o⟩]) (ts ++ ⟨.newline, p⟩ :: more) := by
  induction ts with
  | nil => exact .stop o
  | cons t ts ih =>
    obtain ⟨ht, hts⟩ := List.forall_mem_cons.mp hts
    exact .cons ht (ih hts)

namespace Resumes

variable {p o : Nat} {more ts ts' us rest : List Token} {t : Token} {l : Lexeme}

/-! ## Single tokens -/

/-- A token in front stays in front. -/
theorem head (h : Resumes p more (⟨l, o⟩ :: us) ts') (hl : l ≠ .stop) :
    ∃ us', ts' = ⟨l, o⟩ :: us' ∧ Resumes p more us us' := by
  cases h with
  | stop => exact absurd rfl hl
  | cons _ h => exact ⟨_, rfl, h⟩

/-- A token that was not in front is not, unless it is a line end. -/
theorem ne_head (h : Resumes p more ts ts') (hts : ∀ us, ts ≠ ⟨l, o⟩ :: us) (hl : l ≠ .newline)
    (us : List Token) : ts' ≠ ⟨l, o⟩ :: us := by
  cases h with
  | stop =>
    intro heq
    exact hl (Token.mk.inj (List.cons.inj heq).1).1.symm
  | cons _ h =>
    intro heq
    exact hts _ (by rw [(List.cons.inj heq).1])

/-- The same of two tokens. -/
theorem ne_pair {l' : Lexeme} {o' : Nat} (h : Resumes p more ts ts')
    (hts : ∀ us, ts ≠ ⟨l, o⟩ :: ⟨l', o'⟩ :: us) (hl : l ≠ .newline) (hl' : l' ≠ .newline)
    (us : List Token) : ts' ≠ ⟨l, o⟩ :: ⟨l', o'⟩ :: us := by
  cases h with
  | stop =>
    intro heq
    exact hl (Token.mk.inj (List.cons.inj heq).1).1.symm
  | cons _ h =>
    intro heq
    obtain ⟨rfl, hus⟩ := List.cons.inj heq
    exact h.ne_head (fun vs hvs => hts vs (by rw [hvs])) hl' us hus

/-- What comes after tokens that are skipped still comes after them, and the source does not end
before it. -/
theorem dropWhile {skip : Token → Bool} (h : Resumes p more ts ts')
    (hd : ts.dropWhile skip = ⟨l, o⟩ :: us) (hl : l ≠ .stop) :
    ∃ us', ts'.dropWhile skip = ⟨l, o⟩ :: us' ∧ Resumes p more us us' := by
  induction h with
  | stop q =>
    by_cases hs : skip ⟨.stop, q⟩ = true
    · simp [hs] at hd
    · rw [List.dropWhile_cons_of_neg hs] at hd
      exact absurd (Token.mk.inj (List.cons.inj hd).1).1.symm hl
  | @cons t ts ts' ht hts ih =>
    by_cases hs : skip t = true
    · rw [List.dropWhile_cons_of_pos hs] at hd ⊢
      exact ih hd
    · rw [List.dropWhile_cons_of_neg hs] at hd ⊢
      obtain ⟨rfl, rfl⟩ := List.cons.inj hd
      exact ⟨_, rfl, hts⟩

/-- If an expression or a statement begins after the tokens that are skipped, it still does. -/
theorem dropWhile_opens {skip : Token → Bool} (h : Resumes p more ts ts')
    (ho : Opens (ts.dropWhile skip)) :
    Resumes p more (ts.dropWhile skip) (ts'.dropWhile skip) := by
  obtain ⟨⟨l, o⟩, us, hd, hl⟩ := ho
  have hstop : l ≠ .stop := by
    rintro rfl
    exact absurd hl (by simp [Lexeme.opens])
  obtain ⟨us', hd', hus⟩ := h.dropWhile hd hstop
  rw [hd, hd']
  exact .cons hstop hus

theorem noElse (h : Resumes p more ts ts') (hmore : NoElse more) (hts : NoElse ts) :
    NoElse ts' := by
  induction h with
  | stop => exact (closes_separator rfl hmore).otherwise
  | @cons t ts ts' ht hts' ih =>
    by_cases hn : t.lexeme = .newline
    · have skip : ∀ us, dropNewlines (t :: us) = dropNewlines us := fun us =>
        List.dropWhile_cons_of_pos (by simpa using hn)
      unfold NoElse at hts ⊢
      rw [skip] at hts ⊢
      exact ih hts
    · have stay : ∀ us, dropNewlines (t :: us) = t :: us := fun us =>
        List.dropWhile_cons_of_neg (by simpa using hn)
      unfold NoElse at hts ⊢
      rw [stay] at hts ⊢
      intro o us heq
      exact hts o ts (by rw [(List.cons.inj heq).1])

/-! ## Labels, lists and parameters -/

theorem label {s : Option String} (h : Resumes p more ts ts') (hs : Gives (label ts) s rest) :
    ∃ rest', Gives (Read.label ts') s rest' ∧ Resumes p more rest rest' := by
  by_cases hat : ∃ o us, ts = ⟨.mark .at, o⟩ :: us
  · obtain ⟨o, us, rfl⟩ := hat
    obtain ⟨us', rfl, hus⟩ := h.head nofun
    obtain ⟨⟨x, vs, hv⟩, hx, hp⟩ := gives_bind.mp hs
    obtain ⟨rfl, rfl⟩ := gives_pure.mp hp
    obtain ⟨o', rfl⟩ := name_eq_ok.mp hx
    obtain ⟨vs', rfl, hvs⟩ := hus.head nofun
    exact ⟨vs', ⟨_, rfl⟩, hvs⟩
  · have absent : ∀ o us, ts ≠ ⟨.mark .at, o⟩ :: us := fun o us he => hat ⟨o, us, he⟩
    have nothing : Spelt (printLabel none) [] := rfl
    obtain ⟨rfl, rfl⟩ : s = none ∧ rest = ts := by
      obtain ⟨_, hs⟩ := hs
      obtain ⟨_, hnone⟩ := gives_label nothing absent
      simpa using hs.symm.trans hnone
    exact ⟨ts', gives_label nothing fun o => h.ne_head (absent o) nofun, h⟩

theorem listNext_close (h : Resumes p more ts ts') (hn : Gives (listNext ts) false rest) :
    ∃ rest', Gives (listNext ts') false rest' ∧ Resumes p more rest rest' := by
  rcases gives_listNextAt_cases (gives_listNext.mp hn) with ⟨hmore, -⟩ | ⟨-, o, ho⟩
  · exact nomatch hmore
  · obtain ⟨us', hus', hus⟩ := h.dropWhile ho nofun
    refine ⟨us', gives_listNext.mpr ?_, hus⟩
    rw [show dropNewlines ts' = _ from hus']
    exact ⟨_, rfl⟩

theorem listNext_comma (h : Resumes p more ts ts') (hn : Gives (listNext ts) true rest)
    (ho : Opens rest) : ∃ rest', Gives (listNext ts') true rest' ∧ Resumes p more rest rest' := by
  rcases gives_listNextAt_cases (gives_listNext.mp hn) with ⟨-, o, us, hc, rfl⟩ | ⟨hmore, -⟩
  · obtain ⟨us', hus', hus⟩ := h.dropWhile hc nofun
    refine ⟨dropNewlines us', gives_listNext.mpr ?_, hus.dropWhile_opens ho⟩
    rw [show dropNewlines ts' = _ from hus']
    exact ⟨_, rfl⟩
  · exact nomatch hmore

theorem param {q : Param} (h : Resumes p more ts ts') (hq : Gives (param ts) q rest) :
    ∃ rest', Gives (Read.param ts') q rest' ∧ Resumes p more rest rest' := by
  obtain ⟨o, o', rfl⟩ := param_cases hq
  obtain ⟨us', rfl, hus⟩ := h.head nofun
  obtain ⟨vs', rfl, hvs⟩ := hus.head nofun
  exact ⟨vs', gives_param q o o' vs', hvs⟩

theorem paramItems {qs : List Param} (h : Resumes p more ts ts')
    (hqs : Gives (paramItems ts) qs rest) :
    ∃ rest', Gives (Read.paramItems ts') qs rest' ∧ Resumes p more rest rest' := by
  induction qs generalizing ts ts' with
  | nil =>
    obtain ⟨q, us, -, ⟨-, hps⟩ | ⟨vs, others, -, -, hps⟩⟩ := paramItems_cases hqs <;> cases hps
  | cons q qs ih =>
    obtain ⟨_, us, hq, hrest⟩ := paramItems_cases hqs
    obtain ⟨us', ⟨hu, hq'⟩, hus⟩ := h.param hq
    rw [Read.paramItems]
    rcases hrest with ⟨hn, hqs⟩ | ⟨vs, others, hn, ho, hqs⟩
    · obtain ⟨rest', ⟨hr, hn'⟩, hrest⟩ := hus.listNext_close hn
      rw [hqs]
      exact ⟨rest', gives_bind.mpr ⟨_, hq', gives_bind.mpr ⟨_, hn', gives_pure.mpr ⟨rfl, rfl⟩⟩⟩,
        hrest⟩
    · obtain ⟨rfl, rfl⟩ := List.cons.inj hqs
      have hopen : Opens vs := (spans_paramItems ho).opens fun _ hi => hi.opens rfl
      obtain ⟨vs', ⟨hv, hn'⟩, hvs⟩ := hus.listNext_comma hn hopen
      obtain ⟨rest', ⟨hr, ho'⟩, hrest⟩ := ih hvs ho
      exact ⟨rest', gives_bind.mpr ⟨_, hq', gives_bind.mpr ⟨_, hn',
        gives_bind.mpr ⟨_, ho', gives_pure.mpr ⟨rfl, rfl⟩⟩⟩⟩, hrest⟩

theorem params {qs : List Param} (h : Resumes p more ts ts') (hqs : Gives (params ts) qs rest) :
    ∃ rest', Gives (Read.params ts') qs rest' ∧ Resumes p more rest rest' := by
  rcases gives_params_iff.mp hqs with ⟨rfl, o, hd⟩ | hitems
  · obtain ⟨rest', hd', hrest⟩ := h.dropWhile hd nofun
    exact ⟨rest', gives_params_iff.mpr (.inl ⟨rfl, o, hd'⟩), hrest⟩
  · have hopen : Opens (dropNewlines ts) :=
      (spans_paramItems hitems).opens fun _ hi => hi.opens rfl
    obtain ⟨rest', hitems', hrest⟩ := (h.dropWhile_opens hopen).paramItems hitems
    exact ⟨rest', gives_params_iff.mpr (.inr hitems'), hrest⟩

theorem returnTag (h : Resumes p more ts ts') : (returnTag ts').1 = (Read.returnTag ts).1 ∧
    Resumes p more (Read.returnTag ts).2.val (Read.returnTag ts').2.val := by
  by_cases htag : ∃ s o o' us, ts = ⟨.name s, o⟩ :: ⟨.mark .openBrace, o'⟩ :: us
  · obtain ⟨s, o, o', us, rfl⟩ := htag
    obtain ⟨us', rfl, hus⟩ := h.head nofun
    obtain ⟨vs', rfl, hvs⟩ := hus.head nofun
    exact ⟨rfl, .cons nofun hvs⟩
  · have absent : ∀ s o o' us, ts ≠ ⟨.name s, o⟩ :: ⟨.mark .openBrace, o'⟩ :: us :=
      fun s o o' us he => htag ⟨s, o, o', us, he⟩
    have absent' : ∀ s o o' us, ts' ≠ ⟨.name s, o⟩ :: ⟨.mark .openBrace, o'⟩ :: us :=
      fun s o o' => h.ne_pair (absent s o o') nofun nofun
    rw [returnTag_of_ne absent, returnTag_of_ne absent']
    exact ⟨rfl, h⟩

end Resumes

/-! ## Phrases -/

/-- What is left of the tokens once the phrase was read.  A statement that ended with the source now
ends with the line end and takes it. -/
def Phrase.Leaves (p : Nat) (more : List Token) (rest rest' : List Token) : Phrase → Prop
  | .statement _ => Resumes p more rest rest' ∨ (∃ o, rest = [⟨.stop, o⟩]) ∧ rest' = more
  | _ => Resumes p more rest rest'

theorem Derives.items_opens {es : List Expr} {ts rest : List Token}
    (h : Derives (.items es) ts rest) : Opens ts :=
  h.spans.opens fun _ hi => Sentence.opens hi rfl

theorem Derives.statement_opens {e : Expr} {ts rest : List Token}
    (h : Derives (.statement e) ts rest) : Opens ts := by
  refine h.spans.opens ?_
  rintro ls (⟨s, l, hs, -, rfl⟩ | ⟨hs, -⟩)
  · exact opens_append (hs.opens rfl) [l]
  · exact hs.opens rfl

/-- No block ends where the source does. -/
theorem not_derives_statements_stop {es : List Expr} {o : Nat} {rest : List Token} :
    ¬ Derives (.statements es) [⟨.stop, o⟩] rest := by
  have stays : dropSeparators [⟨.stop, o⟩] = [⟨.stop, o⟩] := rfl
  intro h
  cases h with
  | noStatement hd => exact nomatch stays.symm.trans hd
  | statements hx _ =>
    obtain ⟨t, us, ht, hl⟩ := hx.statement_opens
    obtain ⟨rfl, -⟩ := List.cons.inj (stays.symm.trans ht)
    exact absurd hl (by simp [Lexeme.opens])

theorem Resumes.terminator {p : Nat} {more ts ts' rest : List Token} (e : Expr)
    {h : rest.length ≤ ts.length} (hr : Resumes p more ts ts')
    (ht : terminator ts = .ok ⟨rest, h⟩) :
    ∃ rest' h', Read.terminator ts' = .ok ⟨rest', h'⟩ ∧
      (Phrase.statement e).Leaves p more rest rest' := by
  rcases terminator_cases ht with ⟨t, hs, rfl⟩ | ⟨rfl, hhalt⟩
  · have hstop : t.lexeme ≠ .stop := by
      intro hl
      rcases separator_of_isSeparator hs with h | h <;> exact nomatch hl.symm.trans h
    obtain ⟨rest', rfl, hrest⟩ := hr.head hstop
    exact ⟨rest', _, terminator_separator hs rest', .inl hrest⟩
  · cases hr with
    | stop o => exact ⟨more, _, terminator_separator rfl more, .inr ⟨⟨o, rfl⟩, rfl⟩⟩
    | @cons t _ ts' hstop hts =>
      have hclose : t.lexeme = .mark .closeBrace := (hhalt _ _ rfl).resolve_left hstop
      exact ⟨t :: ts', Nat.le_refl _, by simp [Read.terminator, isSeparator, hclose],
        .inl (.cons hstop hts)⟩

/-- **Nothing that is read reaches across the line end.** -/
theorem Derives.resumes {φ : Phrase} {p : Nat} {more ts ts' rest : List Token}
    (h : Derives φ ts rest) (hmore : NoElse more) (hr : Resumes p more ts ts') :
    ∃ rest', Derives φ ts' rest' ∧ φ.Leaves p more rest rest' := by
  induction h generalizing ts' with
  | expression _ _ ihx ihl =>
    obtain ⟨us', hx, hus⟩ := ihx hr
    obtain ⟨vs', hl, hvs⟩ := ihl hus
    exact ⟨vs', .expression hx hl, hvs⟩
  | noLink hn => exact ⟨ts', .noLink fun op o => hr.ne_head (hn op o) nofun, hr⟩
  | link _ _ ihx ihl =>
    obtain ⟨us', rfl, hus⟩ := hr.head nofun
    obtain ⟨vs', hx, hvs⟩ := ihx hus
    obtain ⟨ws', hl, hws⟩ := ihl hvs
    exact ⟨ws', .link hx hl, hws⟩
  | number hx =>
    obtain ⟨us', rfl, hus⟩ := hr.head nofun
    exact ⟨us', .number hx, hus⟩
  | based hx =>
    obtain ⟨us', rfl, hus⟩ := hr.head nofun
    exact ⟨us', .based hx, hus⟩
  | text =>
    obtain ⟨us', rfl, hus⟩ := hr.head nofun
    exact ⟨us', .text, hus⟩
  | group _ ih =>
    obtain ⟨us', rfl, hus⟩ := hr.head nofun
    obtain ⟨vs', hx, hvs⟩ := ih hus
    obtain ⟨ws', rfl, hws⟩ := Resumes.head hvs nofun
    exact ⟨ws', .group hx, hws⟩
  | call _ ih =>
    obtain ⟨us', rfl, hus⟩ := hr.head nofun
    obtain ⟨vs', rfl, hvs⟩ := hus.head nofun
    obtain ⟨ws', ha, hws⟩ := ih hvs
    exact ⟨ws', .call ha, hws⟩
  | var hn =>
    obtain ⟨us', rfl, hus⟩ := hr.head nofun
    exact ⟨us', .var fun o => hus.ne_head (hn o) nofun, hus⟩
  | ret _ ih =>
    obtain ⟨us', rfl, hus⟩ := hr.head nofun
    obtain ⟨vs', hx, hvs⟩ := ih hus
    exact ⟨vs', .ret hx, hvs⟩
  | conditional _ ih =>
    obtain ⟨us', rfl, hus⟩ := hr.head nofun
    obtain ⟨vs', hx, hvs⟩ := ih hus
    exact ⟨vs', .conditional hx, hvs⟩
  | whileLoop hl _ _ ihc ihb =>
    obtain ⟨us', rfl, hus⟩ := hr.head nofun
    obtain ⟨vs', hl, hvs⟩ := hus.label hl
    obtain ⟨ws', hc, hws⟩ := ihc hvs
    obtain ⟨xs', hb, hxs⟩ := ihb hws
    exact ⟨xs', .whileLoop hl hc hb, hxs⟩
  | loop hl _ ihb =>
    obtain ⟨us', rfl, hus⟩ := hr.head nofun
    obtain ⟨vs', hl, hvs⟩ := hus.label hl
    obtain ⟨ws', hb, hws⟩ := ihb hvs
    exact ⟨ws', .loop hl hb, hws⟩
  | breakTo hl =>
    obtain ⟨us', rfl, hus⟩ := hr.head nofun
    obtain ⟨vs', hl, hvs⟩ := hus.label hl
    exact ⟨vs', .breakTo hl, hvs⟩
  | continueTo hl =>
    obtain ⟨us', rfl, hus⟩ := hr.head nofun
    obtain ⟨vs', hl, hvs⟩ := hus.label hl
    exact ⟨vs', .continueTo hl, hvs⟩
  | noArguments hd =>
    obtain ⟨us', hd', hus⟩ := hr.dropWhile hd nofun
    exact ⟨us', .noArguments hd', hus⟩
  | arguments hi ih =>
    obtain ⟨us', hi', hus⟩ := ih (hr.dropWhile_opens hi.items_opens)
    exact ⟨us', .arguments hi', hus⟩
  | lastItem _ hn ih =>
    obtain ⟨us', hx, hus⟩ := ih hr
    obtain ⟨vs', hn', hvs⟩ := Resumes.listNext_close hus hn
    exact ⟨vs', .lastItem hx hn', hvs⟩
  | item _ hn hi ihx ihi =>
    obtain ⟨us', hx, hus⟩ := ihx hr
    obtain ⟨vs', hn', hvs⟩ := Resumes.listNext_comma hus hn hi.items_opens
    obtain ⟨ws', hi', hws⟩ := ihi hvs
    exact ⟨ws', .item hx hn' hi', hws⟩
  | condition _ ih =>
    obtain ⟨us', rfl, hus⟩ := hr.head nofun
    obtain ⟨vs', hx, hvs⟩ := ih hus
    obtain ⟨ws', rfl, hws⟩ := Resumes.head hvs nofun
    exact ⟨ws', .condition hx, hws⟩
  | branch hl _ _ _ ihc ihy ihn =>
    obtain ⟨us', hl, hus⟩ := hr.label hl
    obtain ⟨vs', hc, hvs⟩ := ihc hus
    obtain ⟨ws', hy, hws⟩ := ihy hvs
    obtain ⟨xs', hn, hxs⟩ := ihn hws
    exact ⟨xs', .branch hl hc hy hn, hxs⟩
  | noElse hn => exact ⟨ts', .noElse (hr.noElse hmore hn), hr⟩
  | otherwise ho _ ih =>
    obtain ⟨us', ho', hus⟩ := hr.dropWhile ho nofun
    obtain ⟨vs', ha, hvs⟩ := ih hus
    exact ⟨vs', .otherwise ho' ha, hvs⟩
  | elseIf _ ih =>
    obtain ⟨us', rfl, hus⟩ := hr.head nofun
    obtain ⟨vs', hx, hvs⟩ := ih hus
    exact ⟨vs', .elseIf hx, hvs⟩
  | elseBlock _ ih =>
    obtain ⟨us', hb, hus⟩ := ih hr
    exact ⟨us', .elseBlock hb, hus⟩
  | block _ ih =>
    obtain ⟨us', rfl, hus⟩ := hr.head nofun
    obtain ⟨vs', hb, hvs⟩ := ih hus
    exact ⟨vs', .block hb, hvs⟩
  | noStatement hd =>
    obtain ⟨us', hd', hus⟩ := hr.dropWhile hd nofun
    exact ⟨us', .noStatement hd', hus⟩
  | statements hx ho ihx ihs =>
    obtain ⟨us', hx', hus⟩ := ihx (hr.dropWhile_opens hx.statement_opens)
    rcases hus with hus | ⟨⟨o, rfl⟩, -⟩
    · obtain ⟨vs', ho', hvs⟩ := ihs hus
      exact ⟨vs', .statements hx' ho', hvs⟩
    · exact absurd ho not_derives_statements_stop
  | statement _ ht ih =>
    obtain ⟨us', hx, hus⟩ := ih hr
    obtain ⟨vs', _, ht', hvs⟩ := Resumes.terminator _ hus ht
    exact ⟨vs', .statement hx ht', hvs⟩
  | declaration _ ih =>
    obtain ⟨us', rfl, hus⟩ := hr.head nofun
    obtain ⟨vs', hf, hvs⟩ := ih hus
    exact ⟨vs', .declaration hf, hvs⟩
  | assignment _ ih =>
    obtain ⟨us', rfl, hus⟩ := hr.head nofun
    obtain ⟨vs', rfl, hvs⟩ := hus.head nofun
    obtain ⟨ws', hx, hws⟩ := ih hvs
    exact ⟨ws', .assignment hx, hws⟩
  | bare hn _ ih =>
    obtain ⟨us', hx, hus⟩ := ih hr
    exact ⟨us', .bare (fun s o o' => hr.ne_pair (hn s o o') nofun nofun) hx, hus⟩
  | function hp _ ihb =>
    obtain ⟨us', rfl, hus⟩ := hr.head nofun
    obtain ⟨vs', rfl, hvs⟩ := hus.head nofun
    obtain ⟨ws', hp', hws⟩ := hvs.params hp
    obtain ⟨htag, hxs⟩ := hws.returnTag
    obtain ⟨ys', hb, hys⟩ := ihb hxs
    exact ⟨ys', htag ▸ .function hp' hb, hys⟩

/-! ## Programs -/

/-- What separators stand in front of a program does not matter. -/
theorem DerivesProgram.of_dropSeparators {ts us : List Token} {es : Program}
    (h : DerivesProgram us es) (hd : dropSeparators ts = dropSeparators us) :
    DerivesProgram ts es := by
  cases h with
  | done hs => exact .done (hd ▸ hs)
  | more hx hes => exact .more (hd ▸ hx) hes

/-- What comes after the line ends comes after the separators, unless it is one. -/
theorem dropSeparators_of_dropNewlines {ts us : List Token} {t : Token}
    (h : dropNewlines ts = t :: us) (ht : isSeparator t = false) : dropSeparators ts = t :: us := by
  induction ts with
  | nil => exact nomatch h
  | cons u ts ih =>
    by_cases hn : u.lexeme = .newline
    · rw [dropNewlines, List.dropWhile_cons_of_pos (by simpa using hn)] at h
      rw [dropSeparators, List.dropWhile_cons_of_pos (by simp [isSeparator, hn])]
      exact ih h
    · rw [dropNewlines, List.dropWhile_cons_of_neg (by simpa using hn)] at h
      obtain ⟨rfl, rfl⟩ := List.cons.inj h
      exact List.dropWhile_cons_of_neg (by simp [ht])

/-- A program does not begin with an `else`. -/
theorem DerivesProgram.noElse {ts : List Token} {es : Program} (h : DerivesProgram ts es) :
    NoElse ts := by
  intro o us he
  have hd := dropSeparators_of_dropNewlines he rfl
  cases h with
  | done hs => exact nomatch hs _ _ hd
  | more hx _ =>
    obtain ⟨t, vs, ht, hl⟩ := hx.statement_opens
    obtain ⟨rfl, -⟩ := List.cons.inj (hd.symm.trans ht)
    exact absurd hl (by simp [Lexeme.opens])

/-- If nothing but separators was left, the tokens that follow are next. -/
theorem Resumes.dropSeparators {p : Nat} {more ts ts' : List Token} (h : Resumes p more ts ts')
    (hts : ∀ t us, dropSeparators ts = t :: us → t.lexeme = .stop) :
    dropSeparators ts' = dropSeparators more := by
  induction h with
  | stop => rfl
  | @cons t ts ts' ht _ ih =>
    by_cases hs : isSeparator t = true
    · rw [Read.dropSeparators, List.dropWhile_cons_of_pos hs] at hts ⊢
      exact ih hts
    · rw [Read.dropSeparators, List.dropWhile_cons_of_neg hs] at hts
      exact absurd (hts t ts rfl) ht

theorem DerivesProgram.resumes {p : Nat} {more ts ts' : List Token} {es fs : Program}
    (h : DerivesProgram ts es) (hmore : DerivesProgram more fs) (hr : Resumes p more ts ts') :
    DerivesProgram ts' (es ++ fs) := by
  induction h generalizing ts' with
  | done hs => exact hmore.of_dropSeparators (hr.dropSeparators hs)
  | more hx hes ih =>
    obtain ⟨us', hx', hus⟩ := hx.resumes hmore.noElse (hr.dropWhile_opens hx.statement_opens)
    rcases hus with hus | ⟨⟨o, rfl⟩, rfl⟩
    · exact .more hx' (ih hus)
    · cases hes with
      | done => exact .more hx' hmore
      | more hx _ =>
        obtain ⟨t, vs, ht, hl⟩ := hx.statement_opens
        obtain ⟨rfl, -⟩ := List.cons.inj ht
        exact absurd hl (by simp [Lexeme.opens])

/-- **Programs with a line end between them are read one after the other.** -/
theorem program_append_newline {ts us : List Token} {es fs : Program} {o : Nat}
    (hts : ∀ t ∈ ts, t.lexeme ≠ .stop) (h : program (ts ++ [⟨.stop, o⟩]) = .ok es)
    (h' : program us = .ok fs) (p : Nat) :
    program (ts ++ ⟨.newline, p⟩ :: us) = .ok (es ++ fs) :=
  derivesProgram_iff.mp <| (derivesProgram_iff.mpr h).resumes (derivesProgram_iff.mpr h')
    (resumes_append hts o p us)

end Radix.Read
