import Radix.Proofs.Eval.Failure
import Radix.Proofs.Eval.Visit
import Radix.Proofs.Template.Split

/-!
# Proofs/Unclosed — where a brace that was left open is reported

A brace in a text that is never closed is a fault, found when the text is evaluated and reported at
an offset of the source.  For a text that stands in the program itself this is the offset of the
brace.  A text may also stand in an interpolation of another text.  Its offset is then found by the
places of the text around it, but the places inside it count from its quote as if nothing in between
had been escaped.  Its quotes always are, so the fault is reported before the brace, never at it
(`unclosed_reported`).

Nothing is nested deeper than that: an interpolation ends at the first closing brace, so a text in
it has none.
-/

namespace Radix

/-! ## Whose fault it is -/

namespace Template

/-- The faults in an interpolation are others. -/
theorem interpolation_fault {q : QuotedText} {o i : Nat} {inner : List Char} {e : ReadError}
    (h : interpolation q o i inner = .error e) : e.fault ≠ .unclosedInterpolation := by
  rcases interpolation_eq_error h with ⟨e₀, he₀, rfl⟩ | ⟨us, -, hp⟩ | ⟨n, rfl⟩
  · intro hf
    have lexical := (stuck_of_tokenize he₀).2.lexical
    rw [show e₀.fault = .unclosedInterpolation from hf] at lexical
    exact absurd lexical (by decide)
  · exact (Read.refused_of_program hp).ne_unclosed
  · exact nofun

/-- The fault of a text with a brace that is left open names the place of that brace. -/
theorem leftOpen_of_parts {q : QuotedText} {o p : Nat}
    (h : parts q o = .error ⟨.unclosedInterpolation, p⟩) :
    ∃ m, LeftOpen q.chars m ∧ p = o + q.place m := by
  rcases (splits_partsFrom q o 0 q.chars).fault h with ⟨m, hm, he⟩ | ⟨m, inner, -, he⟩
  · rw [Nat.zero_add] at he
    exact ⟨m, hm, (ReadError.mk.inj he).2⟩
  · exact absurd rfl (interpolation_fault he)

end Template

/-! ## The texts of a source -/

open Template

/-- The text with the offset stands in the source, and its `j`-th character is written at the offset
`place j`.  The flag says whether it stands in an interpolation of another text. -/
inductive TextOf (source : List Char) : Bool → QuotedText → Nat → (Nat → Nat) → Prop
  | outer {ts q o} : tokenize source = .ok ts → ⟨.text q, o⟩ ∈ ts →
    TextOf source false q o fun j => o + q.place j
  | inner {b q o place m cs ts q' k} : TextOf source b q o place → Opens q.chars m cs →
    tokenize cs = .ok ts → ⟨.text q', k⟩ ∈ ts →
    TextOf source true q' (place (m + 1 + k)) fun j => place (m + 1 + k + q'.place j)

variable {source : List Char} {b : Bool} {q : QuotedText} {o : Nat} {place : Nat → Nat}

/-- A text in an interpolation has no closing brace, so it has no interpolation itself. -/
theorem TextOf.not_opens (h : TextOf source true q o place) (m : Nat) (cs : List Char) :
    ¬ Opens q.chars m cs := by
  intro hopens
  cases h with
  | inner _ hm hts hk =>
    obtain ⟨rest, -, hnot⟩ := hm
    exact not_mem_chars_of_tokenize hnot hts hk hopens.mem

/-- **Where a brace that is left open is reported.**  The brace stands in the source.  It is
reported at its offset if the text stands in no interpolation, and before it otherwise. -/
theorem TextOf.unclosed (h : TextOf source b q o place) {p : Nat}
    (hp : parts q o = .error ⟨.unclosedInterpolation, p⟩) :
    ∃ m, LeftOpen q.chars m ∧ p = o + q.place m ∧ source[place m]? = some '\x7b' ∧
      p ≤ place m ∧ (p = place m ↔ b = false) := by
  obtain ⟨m, hm, rfl⟩ := leftOpen_of_parts hp
  refine ⟨m, hm, rfl, ?_⟩
  cases h with
  | outer hts ht =>
    have written := writtenAt_of_tokenize hts ht
    exact ⟨(written.brace (by decide) hm.getElem?).1, Nat.le_refl _, by simp⟩
  | @inner b q₀ o₀ place n cs ts _ k h hn hts ht =>
    -- The text around this one stands in no interpolation.
    cases h with
    | inner h hn' hts' ht' => exact absurd hn (TextOf.not_opens (.inner h hn' hts' ht') n cs)
    | outer hts₀ ht₀ =>
      have around := writtenAt_of_tokenize hts₀ ht₀
      have written := writtenAt_of_tokenize hts ht
      obtain ⟨hbrace, hpos⟩ := written.brace (by decide) hm.getElem?
      have hlen : k + q.place m < cs.length := (List.getElem?_eq_some_iff.mp hbrace).1
      have brace₀ : q₀.chars[n + 1 + k + q.place m]? = some '\x7b' := by
        rw [Nat.add_assoc, hn.getElem? hlen, hbrace]
      have quote₀ : q₀.chars[n + 1 + k]? = some '"' := by
        rw [hn.getElem? (by omega), written.quote]
      have gap := around.place_add_lt quote₀ hpos (List.getElem?_eq_some_iff.mp brace₀).1
      dsimp only
      refine ⟨(around.brace (by decide) brace₀).1, by omega, fun he => ?_, nofun⟩
      omega

/-! ## Running a source -/

/-- The text is one of the source. -/
def IsTextOf (source : List Char) (q : QuotedText) (o : Nat) : Prop :=
  ∃ b place, TextOf source b q o place

/-- The text of the source, in or outside of an interpolation, is refused at the offset for a brace
that it leaves open. -/
def Refuses (source : List Char) (p : Nat) : Prop :=
  ∃ q o, IsTextOf source q o ∧ parts q o = .error ⟨.unclosedInterpolation, p⟩

/-- The texts that come up are those of the source, also in the functions in sight. -/
def ofSource (source : List Char) : Discipline Unit where
  top := ()
  inBranch _ _ := ()
  inLoop _ _ := ()
  expr _ e := e.Texts (IsTextOf source)
  value _ := True
  state s := ∀ name f es, s.frame.functions.get? name = some f → f.body = .program es →
    ∀ e ∈ es, e.Texts (IsTextOf source)
  failure e := ∀ p, e = .read ⟨.unclosedInterpolation, p⟩ → Refuses source p
  jump _ _ _ := True

theorem isTextOf_part {ps : List Part} {e : Expr} (h : IsTextOf source q o)
    (hp : parts q o = .ok ps) (he : .expr e ∈ ps) : e.Texts (IsTextOf source) := by
  obtain ⟨m, cs, hm, hx⟩ := (splits_partsFrom q o 0 q.chars).opens hp he
  rw [Nat.zero_add] at hx
  refine (texts_of_interpolation hx).mono fun y hy q' o' heq => ?_
  obtain ⟨ts, k, hts, hk, rfl⟩ := hy q' o' heq
  obtain ⟨b, place, h⟩ := h
  cases h with
  | outer hts₀ ht₀ => exact ⟨true, _, .inner (.outer hts₀ ht₀) hm hts hk⟩
  | inner h hn hts' ht' => exact absurd hm (TextOf.not_opens (.inner h hn hts' ht') m cs)

theorem ofSource_lawful (source : List Char) : (ofSource source).Lawful where
  text h hp he := isTextOf_part (h.self _ _ rfl) hp he
  assign h := h.assign
  binary h := h.binary
  call h _ he := h.part he
  ret h := h.ret
  branch h := h.branch
  whileLoop h := h.whileLoop
  loop h _ hx := h.part hx
  body hs hf hb := hs _ _ _ hf hb
  bind hs _ := hs
  deeper hs := hs
  leave hs _ := hs
  declare h _ hs := by
    intro name f es hf hb
    rcases Frame.eq_or_get?_of_declare hf with rfl | hf
    · obtain rfl := Body.program.inj hb
      exact fun e he => h.part he
    · exact hs name f es hf hb
  console hs _ _ := hs
  report _ _ hs := hs
  unread h hp p he := by
    obtain rfl := RunError.read.inj he
    exact ⟨_, _, h.self _ _ rfl, hp⟩
  unknownVariable := by simp [ofSource]
  refused _ _ h := by
    rcases Operator.apply_error h with ⟨cause, rfl⟩ | rfl <;> simp [ofSource]
  untrue _ _ := by simp [ofSource]
  unknownFunction _ := by simp [ofSource]
  arguments _ h := by
    rcases Eval.checkArguments_error h with rfl | ⟨i, tag, kind, rfl⟩ <;> simp [ofSource]
  tooDeep _ := by simp [ofSource]
  nativeFailure _ _ h := by
    cases Native.failure_of_run h <;> simp [ofSource]
  unknownTag h := by
    obtain ⟨word, rfl⟩ := Eval.paramTags_error h
    simp [ofSource]

/-- A run of the program comes to the state, before or after one of its statements. -/
inductive ComesTo (es : Program) : State → Prop
  | start {unit console} : ComesTo es ⟨.initial unit, console⟩
  | ran {s e n r t} : ComesTo es s → e ∈ es → runStatement n e s = some (r, t) → ComesTo es t

theorem isTextOf_of_program {ts : List Token} {es : Program} (ht : tokenize source = .ok ts)
    (hp : Read.program ts = .ok es) : ∀ e ∈ es, e.Texts (IsTextOf source) := fun e he =>
  (Read.texts_of_program hp e he).mono fun _ hy q o heq => ⟨false, _, .outer ht (hy q o heq)⟩

theorem ComesTo.keeps {es : Program} (hes : ∀ e ∈ es, e.Texts (IsTextOf source)) {s : State}
    (hs : ComesTo es s) : (ofSource source).state s := by
  induction hs with
  | start => exact fun name f body hf hb => absurd hb (Frame.body_of_get?_initial hf)
  | ran _ he hr ih =>
    exact (Discipline.runStatement_keeps (c := ()) (ofSource_lawful source) (hes _ he) ih hr).1

/-- **A brace that is left open is reported at its offset exactly if its text stands in no
interpolation**, and before it otherwise: always at the offset of the text and the place that the
brace has in it.  Whenever an evaluation of a text fails for such a brace, in a run of the source,
it is the brace of one of the texts of the source. -/
theorem unclosed_reported {ts : List Token} {es : Program} (ht : tokenize source = .ok ts)
    (hp : Read.program ts = .ok es) :
    (∀ {b q o place p}, TextOf source b q o place →
      parts q o = .error ⟨.unclosedInterpolation, p⟩ →
      ∃ m, LeftOpen q.chars m ∧ p = o + q.place m ∧ source[place m]? = some '\x7b' ∧
        p ≤ place m ∧ (p = place m ↔ b = false)) ∧
    ∀ {s e n k q o t u p}, ComesTo es s → e ∈ es → e.Visits n s k (.text q o) t →
      (Expr.text q o).eval k t = .exit (.failed (.read ⟨.unclosedInterpolation, p⟩)) u →
      ∃ b q' o' place, TextOf source b q' o' place ∧
        parts q' o' = .error ⟨.unclosedInterpolation, p⟩ := by
  refine ⟨fun h hp => h.unclosed hp, fun {s e n k q o t u p} hs he hv hx => ?_⟩
  have lawful := ofSource_lawful source
  have texts := isTextOf_of_program ht hp
  obtain ⟨c, hq, hstate⟩ := Discipline.visits_keep (c := ()) lawful hv (texts e he) (hs.keeps texts)
  have kept := Discipline.eval_keeps lawful k c (.text q o) t hq hstate
  rw [hx] at kept
  obtain ⟨q', o', ⟨b, place, h⟩, hp'⟩ := kept.1 p rfl
  exact ⟨b, q', o', place, h, hp'⟩

/-- A text with another text in its interpolation, which leaves a brace open. -/
def nestedSource : List Char := "ret \"\x7blen(\\\"ab\x7bx\\\")\x7d\"".toList

def nestingText : QuotedText where
  chars := "\x7blen(\"ab\x7bx\")\x7d".toList
  places := [1, 2, 3, 4, 5, 6, 8, 9, 10, 11, 12, 14, 15]

def nestedTokens : List Token :=
  [⟨.keyword .retWord, 0⟩, ⟨.text nestingText, 4⟩, ⟨.stop, 21⟩]

def nestedText : QuotedText := .plain ['a', 'b', '\x7b', 'x']

/-- Where the characters of the inner text are written. -/
def nestedPlace (j : Nat) : Nat := 4 + nestingText.place (5 + nestedText.place j)

theorem nestedText_textOf (h : tokenize nestedSource = .ok nestedTokens) :
    TextOf nestedSource true nestedText 10 nestedPlace := by
  have outer : TextOf nestedSource false nestingText 4 fun j => 4 + nestingText.place j :=
    .outer h (by simp [nestedTokens])
  have opens : Opens nestingText.chars 0 "len(\"ab\x7bx\")".toList := ⟨[], .here, by decide⟩
  have tokens : tokenize "len(\"ab\x7bx\")".toList = .ok [⟨.name "len", 0⟩, ⟨.mark .openParen, 3⟩,
      ⟨.text nestedText, 4⟩, ⟨.mark .closeParen, 10⟩, ⟨.stop, 11⟩] := by with_unfolding_all rfl
  have mem : (⟨.text nestedText, 4⟩ : Token) ∈ [⟨.name "len", 0⟩, ⟨.mark .openParen, 3⟩,
      ⟨.text nestedText, 4⟩, ⟨.mark .closeParen, 10⟩, ⟨.stop, 11⟩] := by simp
  exact .inner outer opens tokens mem

/-- Where the run starts. -/
def nestedStart : State := ⟨.initial ⟨nestedSource, "", ""⟩, { feed := .script [] }⟩

/-- The brace of the inner text stands at offset 14, and the evaluation of the text around it fails
at 13. -/
theorem nestedText_reported :
    (tokenize nestedSource = .ok nestedTokens ∧
      Read.program nestedTokens = .ok [.ret (.text nestingText 4) 0] ∧
      TextOf nestedSource true nestedText 10 nestedPlace ∧
      parts nestedText 10 = .error ⟨.unclosedInterpolation, 13⟩ ∧
      (Expr.text nestingText 4).eval 4 nestedStart =
        .exit (.failed (.read ⟨.unclosedInterpolation, 13⟩)) nestedStart ∧ nestedPlace 2 = 14) ∧
    (∃ m, LeftOpen nestedText.chars m ∧ 13 = 10 + nestedText.place m ∧
      nestedSource[nestedPlace m]? = some '\x7b' ∧ 13 ≤ nestedPlace m ∧
      (13 = nestedPlace m ↔ true = false)) ∧
    ∃ b q o place, TextOf nestedSource b q o place ∧
      parts q o = .error ⟨.unclosedInterpolation, 13⟩ := by
  have tokens : tokenize nestedSource = .ok nestedTokens := by with_unfolding_all rfl
  have program : Read.program nestedTokens = .ok [.ret (.text nestingText 4) 0] := by
    with_unfolding_all rfl
  have refused : parts nestedText 10 = .error ⟨.unclosedInterpolation, 13⟩ := by
    with_unfolding_all rfl
  have fails : (Expr.text nestingText 4).eval 4 nestedStart =
      .exit (.failed (.read ⟨.unclosedInterpolation, 13⟩)) nestedStart := by with_unfolding_all rfl
  have text := nestedText_textOf tokens
  obtain ⟨every, runs⟩ := unclosed_reported tokens program
  exact ⟨⟨tokens, program, text, refused, fails, by decide⟩, every text refused,
    runs .start (List.mem_singleton.mpr rfl) (.part .ret .here) fails⟩

end Radix
