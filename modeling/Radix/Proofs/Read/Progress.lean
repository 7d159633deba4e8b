import Radix.Proofs.Read.Alike
import Radix.Proofs.Read.Derivation

/-!
# Proofs/Read/Progress — reading goes on up to the end of the source, and not beyond it

`Heeds` says of a computation what every reader keeps to.  It takes tokens off the front of a list,
and the lexeme `stop` is not among them; where it refuses, it refuses a token that no `stop` comes
before, and it runs dry only where no token is `stop`.  There is one rule for a sequence of readers,
so what holds of single tokens holds of all readers (`heeds_leaves`).

Since each statement takes a token or more, the loop of `program` ends: `Rounds` counts its rounds,
and there are no more of them than tokens before the end of the source.
-/

namespace Radix.Read

/-! ## Tokens before the end -/

/-- Tokens were taken off the front of `ts`, and `rest` is left.  The source does not end among
those that were taken. -/
def Takes (ts rest : List Token) : Prop := ∃ us, ts = us ++ rest ∧ ∀ t ∈ us, t.lexeme ≠ .stop

section Takes

variable {t : Token} {ts us rest : List Token}

theorem takes_refl (ts : List Token) : Takes ts ts := ⟨[], rfl, by simp⟩

theorem Takes.trans (h : Takes ts us) (h' : Takes us rest) : Takes ts rest := by
  obtain ⟨as, rfl, ha⟩ := h
  obtain ⟨bs, rfl, hb⟩ := h'
  refine ⟨as ++ bs, by simp, fun t ht => ?_⟩
  exact (List.mem_append.mp ht).elim (ha t) (hb t)

theorem takes_cons (h : t.lexeme ≠ .stop) : Takes (t :: ts) ts := ⟨[t], rfl, by simpa using h⟩

theorem takes_dropWhile {p : Token → Bool} (hp : ∀ t, p t = true → t.lexeme ≠ .stop)
    (ts : List Token) : Takes ts (ts.dropWhile p) :=
  ⟨ts.takeWhile p, List.takeWhile_append_dropWhile.symm,
    fun t ht => hp t (List.all_eq_true.mp List.all_takeWhile t ht)⟩

theorem takes_dropNewlines (ts : List Token) : Takes ts (dropNewlines ts) := by
  refine takes_dropWhile (fun t ht hs => ?_) ts
  simp [hs] at ht

theorem isSeparator_ne_stop (h : isSeparator t = true) : t.lexeme ≠ .stop := by
  intro hs
  simp [isSeparator, hs] at h

theorem takes_dropSeparators (ts : List Token) : Takes ts (dropSeparators ts) :=
  takes_dropWhile (fun _ => isSeparator_ne_stop) ts

theorem takes_returnTag (ts : List Token) : Takes ts (returnTag ts).2.val := by
  unfold returnTag
  split
  · exact takes_cons (by simp)
  · exact takes_refl _

/-- If everything was taken, the source does not end among the tokens. -/
theorem Takes.no_stop (h : Takes ts []) : ∀ t ∈ ts, t.lexeme ≠ .stop := by
  obtain ⟨us, rfl, hu⟩ := h
  simpa using hu

theorem Takes.mem (h : Takes ts (t :: rest)) : t ∈ ts := by
  obtain ⟨us, rfl, -⟩ := h
  simp

/-- What is left behind a token that was taken was left of the tokens behind it. -/
theorem Takes.tail (h : Takes (t :: ts) rest) (hlen : rest.length ≤ ts.length) : Takes ts rest := by
  obtain ⟨us, hus, hu⟩ := h
  cases us with
  | nil =>
    rw [List.nil_append] at hus
    rw [← hus, List.length_cons] at hlen
    omega
  | cons u us =>
    obtain ⟨-, rfl⟩ := List.cons.inj hus
    exact ⟨us, rfl, fun t ht => hu t (by simp [ht])⟩

end Takes

/-! ## Readings that heed the end -/

/-- Why tokens are refused. -/
inductive FaultIn (ts : List Token) : ReadError → Prop
  /-- They end too early, and the source does not end among them. -/
  | ranDry : Takes ts [] → FaultIn ts ranDry
  /-- A token is at fault, and the source does not end before it. -/
  | token {t rest e} : Takes ts (t :: rest) → e.offset = t.offset → e ≠ ranDry → FaultIn ts e

/-- The tokens that a computation leaves were taken off the front of `ts`, or it refuses these. -/
inductive Heeds (ts : List Token) : Except ReadError (List Token) → Prop
  | ok {rest} : Takes ts rest → Heeds ts (.ok rest)
  | error {e} : FaultIn ts e → Heeds ts (.error e)

/-- What a reading leaves of its tokens, or why it refuses them. -/
def leaving {α : Type} {P : List Token → Prop}
    (x : Except ReadError (α × { rest : List Token // P rest })) : Except ReadError (List Token) :=
  x.map (·.2.val)

section Heeds

variable {α β : Type} {P Q : List Token → Prop} {ts us : List Token}

theorem leaving_eq_ok {x : Except ReadError (α × { rest : List Token // P rest })}
    {rest : List Token} : leaving x = .ok rest ↔ ∃ a, Gives x a rest := by
  constructor
  · intro h
    obtain ⟨⟨a, us, hu⟩, hx, rfl⟩ := map_eq_ok.mp h
    exact ⟨a, hu, hx⟩
  · rintro ⟨a, hr, rfl⟩
    rfl

theorem FaultIn.after {e : ReadError} (h : FaultIn us e) (hts : Takes ts us) : FaultIn ts e := by
  cases h with
  | ranDry hd => exact .ranDry (hts.trans hd)
  | token ht ho hne => exact .token (hts.trans ht) ho hne

theorem Heeds.after {x : Except ReadError (List Token)} (h : Heeds us x) (hts : Takes ts us) :
    Heeds ts x := by
  cases h with
  | ok ht => exact .ok (hts.trans ht)
  | error he => exact .error (he.after hts)

/-- Readers one after the other. -/
theorem Heeds.read {x : Except ReadError (α × { rest : List Token // P rest })}
    {f : α × { rest : List Token // P rest } →
      Except ReadError (β × { rest : List Token // Q rest })}
    (h : Heeds ts (leaving x)) (hf : ∀ a us hu, Heeds us (leaving (f (a, ⟨us, hu⟩)))) :
    Heeds ts (leaving (x >>= f)) := by
  match x, h with
  | .ok (a, ⟨us, hu⟩), .ok ht => exact (hf a us hu).after ht
  | .error e, .error he => exact .error he

/-- The last reader of a sequence. -/
theorem Heeds.last {x : Except ReadError (α × { rest : List Token // P rest })}
    {f : α × { rest : List Token // P rest } →
      Except ReadError (β × { rest : List Token // Q rest })}
    (h : Heeds ts (leaving x)) (hf : ∀ a us hu, leaving (f (a, ⟨us, hu⟩)) = .ok us) :
    Heeds ts (leaving (x >>= f)) := by
  refine h.read fun a us hu => ?_
  rw [hf a us hu]
  exact .ok (takes_refl us)

/-- A reader after a token of which nothing is kept. -/
theorem Heeds.take {x : Except ReadError { rest : List Token // P rest }}
    {f : { rest : List Token // P rest } → Except ReadError (β × { rest : List Token // Q rest })}
    (h : Heeds ts (x.map (·.val))) (hf : ∀ us hu, Heeds us (leaving (f ⟨us, hu⟩))) :
    Heeds ts (leaving (x >>= f)) := by
  match x, h with
  | .ok ⟨us, hu⟩, .ok ht => exact (hf us hu).after ht
  | .error e, .error he => exact .error he

end Heeds

/-! ## Single tokens -/

section Tokens

variable {t : Token} {ts : List Token} {expected : Expectation}

/-- Only a list of tokens that ended is said to lack just any token. -/
theorem faultIn_unexpected (he : expected ≠ .token) :
    FaultIn (t :: ts) (unexpected t expected) := by
  refine .token (takes_refl _) rfl fun h => he ?_
  exact (ReadFault.unexpected.inj (ReadError.mk.inj h).1).2

theorem heeds_mark (m : Mark) (he : expected ≠ .token) (ts : List Token) :
    Heeds ts ((mark m expected ts).map (·.val)) := by
  cases ts with
  | nil => exact .error (.ranDry (takes_refl _))
  | cons t ts =>
    rw [mark]
    split
    · next hl => exact .ok (takes_cons (by simp [hl]))
    · exact .error (faultIn_unexpected he)

theorem heeds_name (he : expected ≠ .token) (ts : List Token) :
    Heeds ts (leaving (name expected ts)) := by
  unfold name
  split
  · exact .error (.ranDry (takes_refl _))
  · exact .ok (takes_cons (by simp))
  · exact .error (faultIn_unexpected he)

theorem heeds_label (ts : List Token) : Heeds ts (leaving (label ts)) := by
  unfold label
  split
  · exact .after (.last (heeds_name (by simp) _) fun _ _ _ => rfl) (takes_cons (by simp))
  · exact .ok (takes_refl _)

theorem heeds_terminator (ts : List Token) : Heeds ts ((terminator ts).map (·.val)) := by
  cases ts with
  | nil => exact .ok (takes_refl _)
  | cons t ts =>
    rw [terminator]
    split
    · next hs => exact .ok (takes_cons (isSeparator_ne_stop hs))
    · split
      · exact .ok (takes_refl _)
      · exact .error (faultIn_unexpected (by simp))

/-- A numeral, with the tokens behind it. -/
theorem heeds_numeral {base : Nat} {digits : List Char} {l : Lexeme} {o : Nat} (hl : l ≠ .stop)
    (h : ts.length < (⟨l, o⟩ :: ts).length) : Heeds (⟨l, o⟩ :: ts) (leaving (do
      let e ← numeral base digits o
      return (e, (⟨ts, h⟩ : Fewer (⟨l, o⟩ :: ts))))) := by
  unfold numeral
  split
  · exact .ok (takes_cons hl)
  · exact .error (.token (takes_refl _) rfl (by simp [ranDry]))

/-! ## Lists and parameters -/

theorem heeds_listNextAt (ts : List Token) : Heeds ts (leaving (listNextAt ts)) := by
  cases ts with
  | nil => exact .error (.ranDry (takes_refl _))
  | cons t ts =>
    rw [listNextAt]
    split
    · next hl => exact .ok ((takes_cons (by simp [hl])).trans (takes_dropNewlines ts))
    · split
      · next hl => exact .ok (takes_cons (by simp [hl]))
      · exact .error (faultIn_unexpected (by simp))

theorem heeds_listNext (ts : List Token) : Heeds ts (leaving (listNext ts)) :=
  .after (.last (heeds_listNextAt _) fun _ _ _ => rfl) (takes_dropNewlines ts)

theorem heeds_param (ts : List Token) : Heeds ts (leaving (param ts)) := by
  refine .read (heeds_name (by simp) ts) fun tag us _ => ?_
  exact .last (heeds_name (by simp) us) fun _ _ _ => rfl

theorem heeds_paramItems (ts : List Token) : Heeds ts (leaving (paramItems ts)) := by
  rw [paramItems]
  refine .read (heeds_param ts) fun p us _ => ?_
  refine .read (heeds_listNext us) fun more vs _ => ?_
  cases more with
  | true => exact .last (heeds_paramItems vs) fun _ _ _ => rfl
  | false => exact .ok (takes_refl vs)
termination_by ts.length

theorem heeds_paramsAt (ts : List Token) : Heeds ts (leaving (paramsAt ts)) := by
  unfold paramsAt
  split
  · exact .ok (takes_cons (by simp))
  · exact heeds_paramItems _

theorem heeds_params (ts : List Token) : Heeds ts (leaving (params ts)) :=
  .after (.last (heeds_paramsAt _) fun _ _ _ => rfl) (takes_dropNewlines ts)

theorem takes_elseNext {us : List Token} {h : us.length < ts.length}
    (he : elseNext ts = some ⟨us, h⟩) : Takes ts us := by
  obtain ⟨o, ho⟩ := elseNext_eq_some.mp he
  have htake := takes_dropNewlines ts
  rw [ho] at htake
  exact htake.trans (takes_cons (by simp))

end Tokens

/-! ## Expressions and statements -/

/-- What the reader leaves of the tokens, or why it refuses them. -/
def Reader.leaves (ts : List Token) : Reader → Except ReadError (List Token)
  | .expression => leaving (Read.expression ts)
  | .links => leaving (Read.links ts)
  | .operand => leaving (Read.operand ts)
  | .arguments => leaving (Read.arguments ts)
  | .argumentsAt => leaving (Read.argumentsAt ts)
  | .items => leaving (argumentItems ts)
  | .condition k => leaving (Read.condition k ts)
  | .branch => leaving (Read.branch ts)
  | .otherwise => leaving (Read.otherwise ts)
  | .alternative => leaving (Read.alternative ts)
  | .block => leaving (Read.block ts)
  | .statements => leaving (Read.statements ts)
  | .statementsAt => leaving (Read.statementsAt ts)
  | .statement => leaving (Read.statement ts)
  | .unterminated => leaving (Read.unterminated ts)
  | .function => leaving (Read.function ts)

/-- All readers heed the end of fewer than `n` tokens. -/
def HeedBelow (n : Nat) : Prop :=
  ∀ (r : Reader) (us : List Token), us.length < n → Heeds us (r.leaves us)

section Readers

variable {ts : List Token}

theorem heeds_expression (fewer : HeedBelow ts.length) (operand : Heeds ts (leaving (operand ts))) :
    Heeds ts (leaving (expression ts)) := by
  rw [expression]
  refine .read operand fun x us hlt => ?_
  exact .last (fewer .links us hlt) fun _ _ _ => rfl

theorem heeds_links (fewer : HeedBelow ts.length) : Heeds ts (leaving (links ts)) := by
  rw [links.eq_def]
  split
  · next op o us =>
    rw [List.length_cons] at fewer
    refine .after (.read (fewer .operand us (by omega)) fun x vs hlt => ?_) (takes_cons (by simp))
    exact .last (fewer .links vs (by omega)) fun _ _ _ => rfl
  · exact .ok (takes_refl _)

theorem heeds_operand (fewer : HeedBelow ts.length) : Heeds ts (leaving (operand ts)) := by
  rw [operand.eq_def]
  split
  · exact .error (.ranDry (takes_refl _))
  · exact heeds_numeral (by simp) _
  · exact heeds_numeral (by simp) _
  · exact .ok (takes_cons (by simp))
  · next o us => -- in parentheses
    refine .after (.read (fewer .expression us (by simp)) fun e vs _ => ?_) (takes_cons (by simp))
    refine .take (heeds_mark _ (by simp) vs) fun ws _ => ?_
    exact .ok (takes_refl ws)
  · next s o o' us => -- a call
    rw [List.length_cons, List.length_cons] at fewer
    exact .after (.last (fewer .arguments us (by omega)) fun _ _ _ => rfl)
      ((takes_cons (by simp)).trans (takes_cons (by simp)))
  · exact .ok (takes_cons (by simp))
  · next o us => -- `ret`
    exact .after (.last (fewer .expression us (by simp)) fun _ _ _ => rfl) (takes_cons (by simp))
  · next o us => -- `if`
    exact .after (.last (fewer .branch us (by simp)) fun _ _ _ => rfl) (takes_cons (by simp))
  · next o us => -- `while`
    rw [List.length_cons] at fewer
    refine .after (.read (heeds_label us) fun l vs hle => ?_) (takes_cons (by simp))
    refine .read (fewer (.condition .whileWord) vs (by omega)) fun c ws hlt => ?_
    exact .last (fewer .block ws (by omega)) fun _ _ _ => rfl
  · next o us => -- `loop`
    rw [List.length_cons] at fewer
    refine .after (.read (heeds_label us) fun l vs hle => ?_) (takes_cons (by simp))
    exact .last (fewer .block vs (by omega)) fun _ _ _ => rfl
  · next o us => -- `break`
    exact .after (.last (heeds_label us) fun _ _ _ => rfl) (takes_cons (by simp))
  · next o us => -- `continue`
    exact .after (.last (heeds_label us) fun _ _ _ => rfl) (takes_cons (by simp))
  · exact .error (faultIn_unexpected (by simp))

theorem heeds_argumentItems (fewer : HeedBelow ts.length)
    (expression : Heeds ts (leaving (expression ts))) : Heeds ts (leaving (argumentItems ts)) := by
  rw [argumentItems]
  refine .read expression fun x us hlt => ?_
  refine .read (heeds_listNext us) fun more vs hlt' => ?_
  cases more with
  | true => exact .last (fewer .items vs (by omega)) fun _ _ _ => rfl
  | false => exact .ok (takes_refl vs)

theorem heeds_argumentsAt (items : Heeds ts (leaving (argumentItems ts))) :
    Heeds ts (leaving (argumentsAt ts)) := by
  unfold argumentsAt
  split
  · exact .ok (takes_cons (by simp))
  · exact items

theorem heeds_condition (k : Keyword) (fewer : HeedBelow ts.length) :
    Heeds ts (leaving (condition k ts)) := by
  rw [condition]
  refine .take (heeds_mark _ (by simp) ts) fun us hlt => ?_
  refine .read (fewer .expression us hlt) fun e vs _ => ?_
  refine .take (heeds_mark _ (by simp) vs) fun ws _ => ?_
  exact .ok (takes_refl ws)

theorem heeds_branch (fewer : HeedBelow ts.length)
    (condition : ∀ us : List Token, us.length ≤ ts.length →
      Heeds us (leaving (condition .ifWord us))) : Heeds ts (leaving (branch ts)) := by
  rw [branch]
  refine .read (heeds_label ts) fun l us hle => ?_
  refine .read (condition us hle) fun c vs hlt => ?_
  refine .read (fewer .block vs (by omega)) fun yes ws hlt' => ?_
  exact .last (fewer .otherwise ws (by omega)) fun _ _ _ => rfl

theorem heeds_otherwise (fewer : HeedBelow ts.length) : Heeds ts (leaving (otherwise ts)) := by
  rw [otherwise.eq_def]
  split
  · exact .ok (takes_refl ts)
  · next us hlt he =>
    exact .after (.last (fewer .alternative us hlt) fun _ _ _ => rfl) (takes_elseNext he)

theorem heeds_alternative (fewer : HeedBelow ts.length) (block : Heeds ts (leaving (block ts))) :
    Heeds ts (leaving (alternative ts)) := by
  unfold alternative
  split
  · next o us =>
    exact .after (.last (fewer .branch us (by simp)) fun _ _ _ => rfl) (takes_cons (by simp))
  · exact block

theorem heeds_block (fewer : HeedBelow ts.length) : Heeds ts (leaving (block ts)) := by
  rw [block]
  refine .take (heeds_mark _ (by simp) ts) fun us hlt => ?_
  exact .last (fewer .statements us hlt) fun _ _ _ => rfl

theorem heeds_statementsAt (fewer : HeedBelow ts.length)
    (statement : Heeds ts (leaving (statement ts))) : Heeds ts (leaving (statementsAt ts)) := by
  unfold statementsAt
  split
  · exact .error (.ranDry (takes_refl _))
  · exact .ok (takes_cons (by simp))
  · exact .error (faultIn_unexpected (by simp))
  · refine .read statement fun e vs hlt => ?_
    exact .last (fewer .statements vs hlt) fun _ _ _ => rfl

theorem heeds_statement (unterminated : Heeds ts (leaving (unterminated ts))) :
    Heeds ts (leaving (statement ts)) := by
  rw [statement]
  refine .read unterminated fun e us _ => ?_
  refine .take (heeds_terminator us) fun vs _ => ?_
  exact .ok (takes_refl vs)

theorem heeds_unterminated (fewer : HeedBelow ts.length)
    (expression : Heeds ts (leaving (expression ts))) : Heeds ts (leaving (unterminated ts)) := by
  unfold unterminated
  split
  · next o us =>
    exact .after (.last (fewer .function us (by simp)) fun _ _ _ => rfl) (takes_cons (by simp))
  · next s o o' us =>
    rw [List.length_cons, List.length_cons] at fewer
    exact .after (.last (fewer .expression us (by omega)) fun _ _ _ => rfl)
      ((takes_cons (by simp)).trans (takes_cons (by simp)))
  · exact expression

theorem heeds_function (fewer : HeedBelow ts.length) : Heeds ts (leaving (function ts)) := by
  rw [function]
  refine .read (heeds_name (by simp) ts) fun s us hlt => ?_
  refine .take (heeds_mark _ (by simp) us) fun vs hlt' => ?_
  refine .read (heeds_params vs) fun ps ws hlt'' => ?_
  have hle := (returnTag ws).2.property
  exact .after (.last (fewer .block (returnTag ws).2.val (by omega)) fun _ _ _ => rfl)
    (takes_returnTag ws)

end Readers

/-- **Every reader heeds the end of the source.** -/
theorem heeds_leaves (r : Reader) (ts : List Token) : Heeds ts (r.leaves ts) := by
  induction r, ts using Reader.induction with
  | step r ts fewer lower =>
    have same : ∀ q : Reader, q.rank < r.rank → Heeds ts (q.leaves ts) := fun q hr =>
      lower q ts (Nat.le_refl _) hr
    cases r with
    | expression => exact heeds_expression fewer (same .operand (by simp [Reader.rank]))
    | links => exact heeds_links fewer
    | operand => exact heeds_operand fewer
    | arguments =>
      have hat := lower .argumentsAt _ (length_dropNewlines_le ts) (by simp [Reader.rank])
      rw [Reader.leaves, arguments]
      exact .after (.last hat fun _ _ _ => rfl) (takes_dropNewlines ts)
    | argumentsAt => exact heeds_argumentsAt (same .items (by simp [Reader.rank]))
    | items => exact heeds_argumentItems fewer (same .expression (by simp [Reader.rank]))
    | condition k => exact heeds_condition k fewer
    | branch =>
      exact heeds_branch fewer fun us hu => lower (.condition .ifWord) us hu (by simp [Reader.rank])
    | otherwise => exact heeds_otherwise fewer
    | alternative => exact heeds_alternative fewer (same .block (by simp [Reader.rank]))
    | block => exact heeds_block fewer
    | statements =>
      have hat := lower .statementsAt _ (length_dropSeparators_le ts) (by simp [Reader.rank])
      rw [Reader.leaves, statements]
      exact .after (.last hat fun _ _ _ => rfl) (takes_dropSeparators ts)
    | statementsAt => exact heeds_statementsAt fewer (same .statement (by simp [Reader.rank]))
    | statement => exact heeds_statement (same .unterminated (by simp [Reader.rank]))
    | unterminated => exact heeds_unterminated fewer (same .expression (by simp [Reader.rank]))
    | function => exact heeds_function fewer

/-! ## Progress -/

section Progress

variable {r : Reader} {ts rest : List Token}

theorem Reader.takes_of_leaves (h : r.leaves ts = .ok rest) : Takes ts rest := by
  have heeds := heeds_leaves r ts
  rw [h] at heeds
  cases heeds with
  | ok ht => exact ht

theorem Reader.faultIn_of_leaves {e : ReadError} (h : r.leaves ts = .error e) : FaultIn ts e := by
  have heeds := heeds_leaves r ts
  rw [h] at heeds
  cases heeds with
  | error he => exact he

/-- What is read is made of one token or more.  Only the rest of a chain and the other branch of a
conditional may be absent. -/
theorem Reader.length_lt_of_leaves (h : r.leaves ts = .ok rest) (hl : r ≠ .links)
    (ho : r ≠ .otherwise) : rest.length < ts.length := by
  cases r with
  | links => exact absurd rfl hl
  | otherwise => exact absurd rfl ho
  | expression | operand | arguments | argumentsAt | items | condition | branch | alternative
  | block | statements | statementsAt | statement | unterminated | function =>
    obtain ⟨_, hlt, -⟩ := leaving_eq_ok.mp h
    exact hlt

/-- A construct is more than its keyword, but for a jump without a label. -/
theorem length_lt_of_keyword {k : Keyword} {o : Nat} {us : List Token} {e : Expr}
    (h : Gives (operand (⟨.keyword k, o⟩ :: us)) e rest) (hb : k ≠ .breakWord)
    (hc : k ≠ .continueWord) : rest.length < us.length := by
  have hd : Derives (.operand e) (⟨.keyword k, o⟩ :: us) rest := derives_iff.mpr h
  cases hd with
  | ret hx =>
    obtain ⟨hlt, -⟩ := derives_iff.mp hx
    exact hlt
  | conditional hx =>
    obtain ⟨hlt, -⟩ := derives_iff.mp hx
    exact hlt
  | whileLoop hl hx hbody =>
    obtain ⟨hle, -⟩ := hl
    obtain ⟨hlt, -⟩ := derives_iff.mp hx
    obtain ⟨hlt', -⟩ := derives_iff.mp hbody
    omega
  | loop hl hbody =>
    obtain ⟨hle, -⟩ := hl
    obtain ⟨hlt, -⟩ := derives_iff.mp hbody
    omega
  | breakTo _ => exact absurd rfl hb
  | continueTo _ => exact absurd rfl hc

theorem label_leaves_iff {us : List Token} {l : Option String} (h : Gives (label us) l rest) :
    rest = us ↔ ∀ o vs, us ≠ ⟨.mark .at, o⟩ :: vs := by
  constructor
  · rintro rfl o vs rfl
    obtain ⟨⟨s, ws, hlt⟩, -, hp⟩ := gives_bind.mp h
    obtain ⟨-, rfl⟩ := gives_pure.mp hp
    rw [List.length_cons] at hlt
    omega
  · intro hn
    obtain ⟨_, hr⟩ := h
    rw [label_of_ne hn] at hr
    cases hr
    rfl

/-- A construct is its keyword alone exactly if it is a jump without a label. -/
theorem keyword_leaves_iff {k : Keyword} {o : Nat} {us : List Token} {e : Expr}
    (h : Gives (operand (⟨.keyword k, o⟩ :: us)) e rest) :
    rest = us ↔
      (k = .breakWord ∨ k = .continueWord) ∧ ∀ o' vs, us ≠ ⟨.mark .at, o'⟩ :: vs := by
  have hd : Derives (.operand e) (⟨.keyword k, o⟩ :: us) rest := derives_iff.mpr h
  by_cases hk : k = .breakWord ∨ k = .continueWord
  · rw [and_iff_right hk]
    rcases hk with rfl | rfl
    · cases hd with
      | breakTo hl => exact label_leaves_iff hl
    · cases hd with
      | continueTo hl => exact label_leaves_iff hl
  · refine iff_of_false ?_ fun hj => hk hj.1
    rintro rfl
    obtain ⟨hb, hc⟩ := not_or.mp hk
    exact Nat.lt_irrefl _ (length_lt_of_keyword h hb hc)

end Progress

/-! ## Programs -/

/-- The tokens before the end of the source. -/
def beforeStop (ts : List Token) : List Token := ts.takeWhile (·.lexeme ≠ .stop)

/-- The loop of `program` on the tokens ends after so many rounds with the result.  In a round a
statement is read or refused. -/
inductive Rounds : Nat → List Token → Except ReadError Program → Prop
  | done {ts} : (∀ t us, dropSeparators ts = t :: us → t.lexeme = .stop) → Rounds 0 ts (.ok [])
  | refused {ts t us e} : dropSeparators ts = t :: us → t.lexeme ≠ .stop →
    statement (t :: us) = .error e → Rounds 1 ts (.error e)
  | more {n ts x us result} : Gives (statement (dropSeparators ts)) x us → Rounds n us result →
    Rounds (n + 1) ts (result.map (x :: ·))

theorem exists_rounds (ts : List Token) : ∃ n, Rounds n ts (program ts) := by
  have hlen := length_dropSeparators_le ts
  rw [program]
  cases hd : dropSeparators ts with
  | nil =>
    rw [programAt]
    exact ⟨0, .done (by simp [hd])⟩
  | cons t us =>
    by_cases hs : t.lexeme = .stop
    · obtain ⟨l, o⟩ := t
      obtain rfl : l = .stop := hs
      rw [programAt]
      exact ⟨0, .done (by simp [hd])⟩
    · rw [programAt]
      · cases hx : statement (t :: us) with
        | error e => exact ⟨1, .refused hd hs hx⟩
        | ok x =>
          obtain ⟨x, vs, hv⟩ := x
          have hlt : vs.length < ts.length := by
            rw [hd] at hlen
            omega
          obtain ⟨n, hn⟩ := exists_rounds vs
          have hres : (program vs >>= fun others => .ok (x :: others)) =
              (program vs).map (x :: ·) := by cases program vs <;> rfl
          refine ⟨n + 1, ?_⟩
          -- The list of statements is built on the way back.
          show Rounds (n + 1) ts (program vs >>= fun others => .ok (x :: others))
          rw [hres]
          exact .more (hd ▸ ⟨hv, hx⟩) hn
      · rintro o rfl
        exact hs rfl
termination_by ts.length

theorem Takes.length_beforeStop {ts rest : List Token} (h : Takes ts rest) :
    (beforeStop ts).length + rest.length = (beforeStop rest).length + ts.length := by
  obtain ⟨us, rfl, hu⟩ := h
  rw [beforeStop, List.takeWhile_append_of_pos (by simpa using hu), List.length_append,
    List.length_append, beforeStop]
  omega

/-- A round takes the separators in front and the statement. -/
theorem takes_of_round {ts us : List Token} {x : Expr}
    (h : Gives (statement (dropSeparators ts)) x us) : Takes ts us :=
  (takes_dropSeparators ts).trans
    (Reader.takes_of_leaves (r := .statement) (leaving_eq_ok.mpr ⟨x, h⟩))

/-- Each round takes a token before the end of the source. -/
theorem Rounds.le_beforeStop {n : Nat} {ts : List Token} {result : Except ReadError Program}
    (h : Rounds n ts result) : n ≤ (beforeStop ts).length := by
  induction h with
  | done _ => omega
  | @refused ts t us e hd hs _ =>
    -- A statement that is refused leaves nothing to count from, but it begins before the end.
    have hlen := length_dropSeparators_le ts
    have htake := (takes_dropSeparators ts).length_beforeStop
    rw [hd] at hlen htake
    have hpos : 1 ≤ (beforeStop (t :: us)).length := by simp [beforeStop, hs]
    omega
  | @more n ts x us result hx _ ih =>
    have hlen := length_dropSeparators_le ts
    have hlt : us.length < (dropSeparators ts).length := hx.1
    have htake := (takes_of_round hx).length_beforeStop
    omega

theorem Rounds.faultIn {n : Nat} {ts : List Token} {result : Except ReadError Program}
    {e : ReadError} (h : Rounds n ts result) (he : result = .error e) : FaultIn ts e := by
  induction h with
  | done _ => exact absurd he (by simp)
  | @refused ts t us e' hd _ hx =>
    obtain rfl := Except.error.inj he
    have hfault : FaultIn (t :: us) e' :=
      Reader.faultIn_of_leaves (r := .statement) (map_eq_error.mpr hx)
    exact hfault.after (hd ▸ takes_dropSeparators ts)
  | more hx _ ih => exact (ih (map_eq_error.mp he)).after (takes_of_round hx)

/-- Where the source ends, its end is refused at the latest. -/
theorem FaultIn.of_stop {ts : List Token} {e : ReadError} (h : FaultIn ts e)
    (hs : ∃ t ∈ ts, t.lexeme = .stop) :
    e ≠ Read.ranDry ∧ ∃ t ∈ ts, t.offset = e.offset ∧ ∃ rest, Takes ts (t :: rest) := by
  cases h with
  | ranDry hd =>
    obtain ⟨t, ht, hstop⟩ := hs
    exact absurd hstop (hd.no_stop t ht)
  | @token t rest _ ht ho hne => exact ⟨hne, t, ht.mem, ho.symm, rest, ht⟩

/-- **Reading advances, and never beyond the end of the source.**  Whatever the tokens, with an end
among them or without:

* a reader that gives a result leaves a proper suffix, unless it reads what may be absent, and none
  of the tokens it took is the end;
* a construct takes no end behind its keyword either, and takes nothing there exactly if it is a
  jump without a label;
* a program is read in no more rounds than there are tokens before the end;
* if the source ends among the tokens, no reader finds that they ran dry, and what is refused is one
  of them, at the end at the latest. -/
theorem readers_advance_to_stop (ts : List Token) :
    (∀ (r : Reader) (rest : List Token), r.leaves ts = .ok rest →
      Takes ts rest ∧ (r ≠ .links → r ≠ .otherwise → rest ≠ ts)) ∧
    (∀ (k : Keyword) (o : Nat) (us rest : List Token), ts = ⟨.keyword k, o⟩ :: us →
      Reader.operand.leaves ts = .ok rest →
      Takes us rest ∧ (rest = us ↔
        (k = .breakWord ∨ k = .continueWord) ∧ ∀ o' vs, us ≠ ⟨.mark .at, o'⟩ :: vs)) ∧
    (∃ n ≤ (beforeStop ts).length, Rounds n ts (program ts)) ∧
    ((∃ t ∈ ts, t.lexeme = .stop) →
      ∀ e, (program ts = .error e ∨ ∃ r : Reader, r.leaves ts = .error e) →
        e ≠ ranDry ∧ ∃ t ∈ ts, t.offset = e.offset ∧ ∃ rest, Takes ts (t :: rest)) := by
  obtain ⟨n, hn⟩ := exists_rounds ts
  refine ⟨fun r rest h => ⟨r.takes_of_leaves h, ?_⟩, ?_, ⟨n, hn.le_beforeStop, hn⟩, ?_⟩
  · rintro hl ho rfl
    exact absurd (r.length_lt_of_leaves h hl ho) (Nat.lt_irrefl _)
  · rintro k o us rest rfl h
    obtain ⟨e, he⟩ := leaving_eq_ok.mp h
    exact ⟨(Reader.takes_of_leaves h).tail (Nat.lt_succ_iff.mp he.1), keyword_leaves_iff he⟩
  · rintro hs e (he | ⟨r, he⟩)
    · exact (hn.faultIn he).of_stop hs
    · exact (r.faultIn_of_leaves he).of_stop hs

/-- A loop, and on the next line one that is left open. -/
def openLoop : List Token :=
  [⟨.keyword .loopWord, 0⟩, ⟨.mark .openBrace, 5⟩, ⟨.mark .closeBrace, 6⟩, ⟨.newline, 7⟩,
    ⟨.keyword .loopWord, 8⟩, ⟨.mark .openBrace, 13⟩, ⟨.stop, 14⟩]

theorem openLoop_read_to_stop :
    (Reader.statement.leaves openLoop = .ok (openLoop.drop 4) ∧
      Takes openLoop (openLoop.drop 4) ∧ openLoop.drop 4 ≠ openLoop) ∧
    (Reader.operand.leaves openLoop = .ok (openLoop.drop 3) ∧
      Takes (openLoop.drop 1) (openLoop.drop 3) ∧ openLoop.drop 3 ≠ openLoop.drop 1) ∧
    (∃ t ∈ openLoop, t.lexeme = .stop) ∧
    ∃ e, program openLoop = .error e ∧ e ≠ ranDry ∧ ∃ t ∈ openLoop, t.offset = e.offset := by
  have statement : Reader.statement.leaves openLoop = .ok (openLoop.drop 4) := by
    with_unfolding_all rfl
  have loop : Reader.operand.leaves openLoop = .ok (openLoop.drop 3) := by
    with_unfolding_all rfl
  have refused : program openLoop = .error ⟨.unexpected .stop (.mark .closeBrace), 14⟩ := by
    with_unfolding_all rfl
  have stops : ∃ t ∈ openLoop, t.lexeme = .stop := ⟨⟨.stop, 14⟩, by decide, rfl⟩
  obtain ⟨advance, behind, -, refuse⟩ := readers_advance_to_stop openLoop
  obtain ⟨taken, proper⟩ := advance .statement _ statement
  obtain ⟨taken', bare⟩ := behind .loopWord 0 (openLoop.drop 1) _ rfl loop
  obtain ⟨hne, t, ht, ho, -⟩ := refuse stops _ (.inl refused)
  exact ⟨⟨statement, taken, proper (by simp) (by simp)⟩,
    ⟨loop, taken', fun same => absurd (bare.mp same).1 (by simp)⟩, stops, _, refused, hne, t, ht,
    ho⟩

/-- A construct need not be more than its keyword: `break` before the end of the source is read, and
nothing behind it is taken. -/
theorem bareBreak_leaves_stop :
    program [⟨.keyword .breakWord, 0⟩, ⟨.stop, 5⟩] = .ok [.breakTo none] ∧
    Reader.operand.leaves [⟨.keyword .breakWord, 0⟩, ⟨.stop, 5⟩] = .ok [⟨.stop, 5⟩] ∧
    ¬ ∀ (k : Keyword) (o : Nat) (us rest : List Token),
      Reader.operand.leaves (⟨.keyword k, o⟩ :: us) = .ok rest → rest ≠ us := by
  have read : Reader.operand.leaves [⟨.keyword .breakWord, 0⟩, ⟨.stop, 5⟩] = .ok [⟨.stop, 5⟩] := by
    with_unfolding_all rfl
  exact ⟨by with_unfolding_all rfl, read, fun proper => proper .breakWord 0 _ _ read rfl⟩

end Radix.Read
