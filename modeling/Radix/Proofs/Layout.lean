import Radix.Proofs.Eval.Lockstep
import Radix.Proofs.Read.Alike
import Radix.Proofs.Read.Written
import Radix.Session

/-!
# Proofs/Layout — how a source is laid out does not matter

Two sources with the same lexemes in the same order differ in blanks, comments and the escapes of
their texts only.  They are read into the same program, up to the offsets and places that it
remembers, and running them has the same effects: the same result or failure, the same output and
the same reports, up to the positions of the reports (`run_of_same_lexemes`).
-/

namespace Radix

/-- Nothing counts but what is said: of a text its characters, and of offsets only whether an
operator has one. -/
def Likeness.layout : Likeness where
  text q _ q' _ := q.chars = q'.chars
  offset _ _ := True
  anchor o o' := o.isSome = o'.isSome

/-- The lexeme without the places in a text. -/
def Lexeme.bare : Lexeme → Lexeme
  | .text quoted => .text { quoted with places := [] }
  | l => l

theorem Lexeme.bare_of_ne {l : Lexeme} (h : ∀ q, l ≠ .text q) : l.bare = l := by
  unfold bare
  split
  · exact absurd rfl (h _)
  · rfl

theorem Token.alike_of_bare_eq {t t' : Token} (h : t.lexeme.bare = t'.lexeme.bare) :
    t.Alike .layout t' := by
  obtain ⟨l, o⟩ := t
  obtain ⟨l', o'⟩ := t'
  by_cases hl : ∃ q, l = .text q
  · obtain ⟨q, rfl⟩ := hl
    by_cases hl' : ∃ q', l' = .text q'
    · obtain ⟨q', rfl⟩ := hl'
      have hq : q.chars = q'.chars := by simpa [Lexeme.bare] using h
      exact .text hq hq
    · rw [Lexeme.bare_of_ne fun q he => hl' ⟨q, he⟩] at h
      exact absurd ⟨_, h.symm⟩ hl'
  · have hne : ∀ q, l ≠ .text q := fun q he => hl ⟨q, he⟩
    rw [Lexeme.bare_of_ne hne] at h
    have hne' : ∀ q, l' ≠ .text q := by
      rintro q rfl
      exact hne _ h
    rw [Lexeme.bare_of_ne hne'] at h
    obtain rfl : l = l' := h
    exact .other hne trivial

theorem Read.allAlike_of_bare_eq {ts ts' : List Token}
    (h : ts.map (·.lexeme.bare) = ts'.map (·.lexeme.bare)) : AllAlike .layout ts ts' := by
  rw [← List.forall₂_eq_eq_eq, List.forall₂_map_left_iff, List.forall₂_map_right_iff] at h
  exact h.imp fun _ _ => Token.alike_of_bare_eq

/-! ## Texts -/

/-- The faults are of the same kind and have the same wording. -/
structure ReadError.Alike (e e' : ReadError) : Prop where
  kind : e.kind = e'.kind
  message : e.message = e'.message

theorem Token.Alike.describe {L : Likeness} {t t' : Token} (h : t.Alike L t') :
    t.lexeme.describe = t'.lexeme.describe := by
  cases h with
  | text hq _ => exact congrArg (fun cs => "text " ++ Text.quoteText cs) hq
  | other _ _ => rfl

theorem Read.Refused.alike {L : Likeness} {e e' : ReadError} (h : Refused L e e') :
    e.Alike e' := by
  cases h with
  | ranDry => exact ⟨rfl, rfl⟩
  | @unexpected _ _ expected ht =>
    exact ⟨rfl, congrArg (fun d => "Unexpected " ++ d ++ ", expected " ++ expected.describe)
      ht.describe⟩
  | numeral => exact ⟨rfl, rfl⟩

theorem Read.program_alike_layout {ts ts' : List Token} (h : AllAlike .layout ts ts') :
    Agree ReadError.Alike (List.Forall₂ (Expr.Alike .layout)) (program ts) (program ts') :=
  (program_alike (L := .layout) (fun _ => rfl) h).mono fun _ _ => Refused.alike

namespace Template

variable {q q' : QuotedText} {o o' : Nat}

/-- A fragment has the same tokens wherever it stands. -/
theorem scanAt_alike (table table' : List Nat) (cs : List Char) :
    Agree ReadError.Alike (Read.AllAlike .layout) (scanAt table cs).result
      (scanAt table' cs).result := by
  unfold scanAt
  match scan cs with
  | ⟨_, some e⟩ => exact .error ⟨rfl, rfl⟩
  | ⟨tokens, none⟩ =>
    refine .ok ?_
    show List.Forall₂ _ (List.map _ tokens) (List.map _ tokens)
    rw [List.forall₂_map_left_iff, List.forall₂_map_right_iff, List.forall₂_same]
    exact fun t _ => Token.alike_of_bare_eq rfl

theorem interpolation_alike (i : Nat) (inner : List Char) :
    Agree ReadError.Alike (Expr.Alike .layout) (interpolation q o i inner)
      (interpolation q' o' i inner) := by
  refine (scanAt_alike _ _ inner).bind fun ts ts' hts => ?_
  refine (Read.program_alike_layout hts).bind fun es es' hes => ?_
  have hlen := hes.length_eq
  cases hes with
  | nil => exact .error ⟨rfl, rfl⟩
  | cons he hes =>
    cases hes with
    | nil => exact .ok he
    | cons _ _ =>
      exact .error ⟨rfl, congrArg (fun n => ReadFault.message (.interpolationCount n)) hlen⟩

theorem prepend_alike (c : Char) {ps ps' : List Part}
    (h : List.Forall₂ (Part.Alike .layout) ps ps') :
    List.Forall₂ (Part.Alike .layout) (prepend c ps) (prepend c ps') := by
  cases h with
  | nil => exact .cons (.chars [c]) .nil
  | cons hp hps =>
    cases hp with
    | chars cs => exact .cons (.chars (c :: cs)) hps
    | expr he => exact .cons (.chars [c]) (.cons (.expr he) hps)

theorem partsFrom_alike (i : Nat) (cs : List Char) :
    Agree ReadError.Alike (List.Forall₂ (Part.Alike .layout)) (partsFrom q o i cs)
      (partsFrom q' o' i cs) := by
  fun_induction partsFrom q o i cs with
  | case1 i =>
    rw [partsFrom]
    exact .ok .nil
  | case2 i cs inner hlen ih =>
    rw [partsFrom, if_pos hlen]
    refine (interpolation_alike i inner).bind fun e e' he => ih.bind fun ps ps' hps => ?_
    exact .ok (.cons (.expr he) hps)
  | case3 i cs inner hlen =>
    rw [partsFrom, if_neg hlen]
    exact .error ⟨rfl, rfl⟩
  | case4 i c cs hc ih =>
    rw [partsFrom, if_pos hc]
    exact ih.bind fun _ _ hps => .ok (prepend_alike c hps)
  | case5 i c cs hc ih =>
    rw [partsFrom, if_neg hc]
    exact ih.bind fun _ _ hps => .ok (prepend_alike _ hps)
  | case6 i c cs hopen hslash ih =>
    rw [partsFrom]
    · exact ih.bind fun _ _ hps => .ok (prepend_alike c hps)
    · exact hopen
    · exact hslash

/-- Texts with the same characters have the same parts. -/
theorem parts_alike (h : q.chars = q'.chars) (o o' : Nat) :
    Agree ReadError.Alike (List.Forall₂ (Part.Alike .layout)) (parts q o) (parts q' o') := by
  rw [parts, parts, h]
  exact partsFrom_alike 0 _

end Template

/-! ## What may differ of failures, reports and consoles -/

/-- The failures are of the same kind and have the same wording. -/
structure RunError.Alike (e e' : RunError) : Prop where
  kind : e.kind = e'.kind
  message : e.message = e'.message

/-- Only by its kind is a failure the one that operators let pass. -/
theorem RunError.isDepthExceeded_iff (e : RunError) :
    e.isDepthExceeded = true ↔ e.kind = .depth := by
  cases e with
  | read e => cases h : e.fault <;> simp [isDepthExceeded, kind, ReadError.kind, ReadFault.kind, h]
  | _ => simp [isDepthExceeded, kind]

/-- The reports are the same but for the position. -/
structure Diagnostic.Alike (d d' : Diagnostic) : Prop where
  label : d.label = d'.label
  message : d.message = d'.message
  filename : d.filename = d'.filename

/-- The consoles are the same but for the positions of the reports. -/
structure Console.Alike (c c' : Console) : Prop where
  feed : c.feed = c'.feed
  writesLeft : c.writesLeft = c'.writesLeft
  output : c.output = c'.output
  waited : c.waited = c'.waited
  diagnostics : List.Forall₂ Diagnostic.Alike c.diagnostics c'.diagnostics

namespace Console

variable {c c' : Console}

theorem alike_self (c : Console) : c.Alike c where
  feed := rfl
  writesLeft := rfl
  output := rfl
  waited := rfl
  diagnostics := List.forall₂_same.mpr fun _ _ => ⟨rfl, rfl, rfl⟩

theorem Alike.report (h : c.Alike c') {d d' : Diagnostic} (hd : d.Alike d') :
    (c.report d).Alike (c'.report d') :=
  { h with diagnostics := List.rel_append h.diagnostics (.cons hd .nil) }

theorem Alike.write (h : c.Alike c') (t : String) :
    (c.write t).1 = (c'.write t).1 ∧ (c.write t).2.Alike (c'.write t).2 := by
  unfold Console.write
  rw [← h.writesLeft]
  split
  · exact ⟨rfl, { h with output := congrArg (· ++ t) h.output, writesLeft := rfl }⟩
  · exact ⟨rfl, h⟩
  · exact ⟨rfl, { h with output := congrArg (· ++ t) h.output, writesLeft := rfl }⟩

theorem Alike.readLine (h : c.Alike c') :
    c.readLine.1 = c'.readLine.1 ∧ c.readLine.2.Alike c'.readLine.2 := by
  unfold Console.readLine
  rw [← h.feed]
  split
  · exact ⟨rfl, h⟩
  · exact ⟨rfl, { h with feed := rfl }⟩
  · exact ⟨rfl, h⟩
  · exact ⟨rfl, { h with feed := rfl }⟩

end Console

/-- Reports of failures that are alike are alike, wherever they are placed. -/
theorem Diagnostic.ofFailure_alike {e e' : RunError} (h : e.Alike e') (text text' : List Char)
    (filename : String) :
    (ofFailure text e.offset e.kind e.message filename).Alike
      (ofFailure text' e'.offset e'.kind e'.message filename) := by
  rw [← h.kind, ← h.message]
  cases e.offset <;> cases e'.offset <;> exact ⟨rfl, rfl, rfl⟩

/-! ## Evaluation -/

/-- Never. -/
def Astray.never : Astray where
  console _ := False
  failure _ _ := False
  report _ := id
  native _ _ _ := id
  reported _ h _ := h

theorem Astray.eq_outOfFuel_of_never {α : Type} {o : Outcome α} (h : never.Off o) :
    o = .outOfFuel := by
  match o, h with
  | .outOfFuel, _ => rfl
  | .exit _ _, .inr ⟨_, _, h⟩ => exact h.elim

namespace Lockstep

/-- The two runs do the same, on sources that are laid out differently. -/
def layout : Lockstep where
  like := .layout
  depth d d' := d = d'
  source u u' := u.filename = u'.filename
  console := Console.Alike
  failure := RunError.Alike
  left := .never
  right := .never

theorem layout_recover {o o' : Option Nat} (ho : o.isSome = o'.isSome) {e e' : RunError}
    (he : e.Alike e') {s s' : State} (hs : layout.States s s') :
    layout.Together (Outcome.recover o (.exit (.failed e) s))
      (Outcome.recover o' (.exit (.failed e') s')) := by
  have passed : layout.Together (.exit (.failed e) s : Outcome Value) (.exit (.failed e') s') :=
    .inl (.exit (.failed he) hs)
  match o, o', ho with
  | none, none, _ => exact passed
  | some o, some o', _ =>
    have deep : e.isDepthExceeded = true ↔ e'.isDepthExceeded = true := by
      rw [e.isDepthExceeded_iff, e'.isDepthExceeded_iff, he.kind]
    rw [Outcome.recover_some, Outcome.recover_some]
    by_cases hd : e.isDepthExceeded = true
    · rw [if_pos hd, if_pos (deep.mp hd)]
      exact passed
    · rw [if_neg hd, if_neg (mt deep.mpr hd)]
      have hc : s.console.Alike s'.console := hs.console
      refine .inl (.done ⟨hs.frame, hc.report ?_⟩)
      exact ⟨congrArg ErrorKind.label he.kind, he.message, hs.frame.source⟩

theorem layout_lawful : layout.Lawful where
  deeper h := congrArg (· + 1) h
  called h := by rw [show _ = _ from h]
  limit h hd := by rwa [show _ = _ from h]
  outrun h hd hd' := by
    obtain rfl := h
    omega
  write t h := h.write t
  readLine h := h.readLine
  wait n h := { h with waited := congrArg (· + n) h.waited }
  same _ := ⟨rfl, rfl⟩
  unknownFunction _ _ := ⟨rfl, rfl⟩
  argumentCount _ _ _ _ := ⟨rfl, rfl⟩
  argumentType _ _ _ _ _ := ⟨rfl, rfl⟩
  depthExceeded _ _ := ⟨rfl, rfl⟩
  parts {q o q' o' ps} h hp := by
    have agree := Template.parts_alike h o o'
    rw [hp] at agree
    generalize hp' : Template.parts q' o' = r at agree
    cases agree with
    | ok hps => exact ⟨_, rfl, hps⟩
  unread {q o q' o' e} h hp := by
    have agree := Template.parts_alike h o o'
    rw [hp] at agree
    generalize hp' : Template.parts q' o' = r at agree
    cases agree with
    | error he => exact ⟨_, rfl, he.kind, he.message⟩
  recover ho he hs := layout_recover ho he hs

end Lockstep

/-! ## Statements and sources -/

/-- The failures are alike. -/
inductive Failure.Alike : Failure → Failure → Prop
  | read {e e'} : e.Alike e' → Alike (.read e) (.read e')
  | run {e e'} : e.Alike e' → Alike (.run e) (.run e')
  | echo (e) : Alike (.echo e) (.echo e)

/-- The runs have the same result, or failures that are alike, and leave consoles that are alike. -/
inductive RunsAlike : Except Failure (Option Value) × Console →
    Except Failure (Option Value) × Console → Prop
  | ok {c c'} (result) : c.Alike c' → RunsAlike (.ok result, c) (.ok result, c')
  | error {f f' c c'} : f.Alike f' → c.Alike c' → RunsAlike (.error f, c) (.error f', c')

/-- The two ways in which a statement ends. -/
inductive StatementsAlike : Except RunError Value × State → Except RunError Value × State → Prop
  | ok {s s'} (v) : Lockstep.layout.States s s' → StatementsAlike (.ok v, s) (.ok v, s')
  | error {e e' s s'} : e.Alike e' → Lockstep.layout.States s s' →
    StatementsAlike (.error e, s) (.error e', s')

variable {e e' : Expr} {s s' : State}

theorem runStatement_alike (fuel : Nat) (he : e.Alike .layout e')
    (hs : Lockstep.layout.States s s') :
    Option.Rel StatementsAlike (runStatement fuel e s) (runStatement fuel e' s') := by
  unfold runStatement
  rcases (Lockstep.eval_pairs Lockstep.layout_lawful fuel).together he hs with h | ⟨h, h'⟩
  · generalize e.eval fuel s = o, e'.eval fuel s' = o' at h ⊢
    cases h with
    | done ht => exact .some (.ok _ ht)
    | exit hx ht =>
      cases hx with
      | failed hf => exact .some (.error hf ht)
      | ret v => exact .some (.ok v ht)
      | breakTo l | continueTo l => exact .some (.error ⟨rfl, rfl⟩ ht)
    | outOfFuel => exact .none
  · rw [Astray.eq_outOfFuel_of_never h, Astray.eq_outOfFuel_of_never h']
    exact .none

theorem echo?_alike (he : e.Alike .layout e') (v : Value) : echo? e v = echo? e' v := by
  cases he <;> rfl

theorem writeEcho_alike (options : Options) (he : e.Alike .layout e') (v : Value) {c c' : Console}
    (hc : c.Alike c') : (writeEcho options e v c).1 = (writeEcho options e' v c').1 ∧
      (writeEcho options e v c).2.Alike (writeEcho options e' v c').2 := by
  unfold writeEcho
  rw [echo?_alike he]
  split
  · exact hc.write _
  · exact ⟨rfl, hc⟩

theorem runStatements_alike (fuel : Nat) (options : Options) {es es' : List Expr}
    (hes : List.Forall₂ (Expr.Alike .layout) es es') (result : Option Value)
    (hs : Lockstep.layout.States s s') :
    Option.Rel RunsAlike (runStatements fuel options es result s)
      (runStatements fuel options es' result s') := by
  induction hes generalizing result s s' with
  | nil => exact .some (.ok result hs.console)
  | @cons e e' es es' he _ ih =>
    have hstep := runStatement_alike fuel he hs
    rw [runStatements, runStatements]
    generalize runStatement fuel e s = r, runStatement fuel e' s' = r' at hstep ⊢
    cases hstep with
    | none => exact .none
    | some hr =>
      cases hr with
      | error hf ht =>
        have hc : Console.Alike _ _ := ht.console
        exact .some (.error (.run hf) (hc.report (Diagnostic.ofFailure_alike hf _ _ _)))
      | @ok t t' v ht =>
        have hc : t.console.Alike t'.console := ht.console
        obtain ⟨hw, hc⟩ := writeEcho_alike options he v hc
        dsimp only
        match hr : writeEcho options e v t.console, hr' : writeEcho options e' v t'.console with
        | (r, c), (r', c') =>
          rw [hr, hr'] at hw hc
          obtain rfl : r = r' := hw
          match r with
          | .error f => exact .some (.error (.echo f) hc)
          | .ok () => exact ih _ ⟨ht.frame, hc⟩

theorem Frame.initial_alike {u u' : SourceUnit} (h : u.filename = u'.filename) :
    Lockstep.layout.Frames (.initial u) (.initial u') where
  vars := rfl
  functions := by
    refine List.forall₂_same.mpr fun p _ => ⟨rfl, rfl, rfl, rfl, ?_⟩
    match p.2.body with
    | .native n => exact .native n
    | .program es =>
      exact .program (List.forall₂_same.mpr fun e _ =>
        e.alike_self (L := .layout) (fun _ _ => rfl) (fun _ => trivial) fun _ => rfl)
  depth := rfl
  source := h

/-- **Layout does not matter.**  Sources with the same lexemes are read into programs that are
alike, or refused alike, and they run alike on every console, with any options and any fuel. -/
theorem run_of_same_lexemes {a b : List Char} {ts us : List Token} (ha : tokenize a = .ok ts)
    (hb : tokenize b = .ok us) (h : ts.map (·.lexeme.bare) = us.map (·.lexeme.bare)) :
    Agree ReadError.Alike (List.Forall₂ (Expr.Alike .layout)) (Read.program ts) (Read.program us) ∧
      ∀ fuel options console, Option.Rel RunsAlike (runUnit fuel a options console)
        (runUnit fuel b options console) := by
  have read := Read.program_alike_layout (Read.allAlike_of_bare_eq h)
  refine ⟨read, fun fuel options console => ?_⟩
  have hpa : Program.ofSource a = Read.program ts := by rw [Program.ofSource, ha]; rfl
  have hpb : Program.ofSource b = Read.program us := by rw [Program.ofSource, hb]; rfl
  unfold runUnit
  rw [hpa, hpb]
  generalize Read.program ts = p, Read.program us = p' at read ⊢
  cases read with
  | ok hes =>
    exact runStatements_alike fuel options hes none ⟨Frame.initial_alike rfl, console.alike_self⟩
  | error he =>
    refine .some (.error (.read he) (console.alike_self.report ?_))
    exact ⟨congrArg ErrorKind.label he.kind, he.message, rfl⟩

/-- A call, and its tokens. -/
def plainCall : List Char := "out(\"ab\")".toList

def plainTokens : List Token :=
  [⟨.name "out", 0⟩, ⟨.mark .openParen, 3⟩, ⟨.text ⟨['a', 'b'], [1, 2]⟩, 4⟩, ⟨.mark .closeParen, 8⟩,
    ⟨.stop, 9⟩]

/-- The same call with blanks, a comment, and an escape for a character that needs none. -/
def spacedCall : List Char := " out ( \"\\ab\" ) # ab".toList

def spacedTokens : List Token :=
  [⟨.name "out", 1⟩, ⟨.mark .openParen, 5⟩, ⟨.text ⟨['a', 'b'], [1, 3]⟩, 7⟩,
    ⟨.mark .closeParen, 13⟩, ⟨.stop, 19⟩]

theorem spacedCall_runs_alike :
    (tokenize plainCall = .ok plainTokens ∧ tokenize spacedCall = .ok spacedTokens ∧
      plainTokens.map (·.lexeme.bare) = spacedTokens.map (·.lexeme.bare)) ∧
    Agree ReadError.Alike (List.Forall₂ (Expr.Alike .layout)) (Read.program plainTokens)
      (Read.program spacedTokens) ∧
    ∀ fuel options console, Option.Rel RunsAlike (runUnit fuel plainCall options console)
      (runUnit fuel spacedCall options console) := by
  have plain : tokenize plainCall = .ok plainTokens := by with_unfolding_all rfl
  have spaced : tokenize spacedCall = .ok spacedTokens := by with_unfolding_all rfl
  exact ⟨⟨plain, spaced, rfl⟩, run_of_same_lexemes plain spaced rfl⟩

end Radix
