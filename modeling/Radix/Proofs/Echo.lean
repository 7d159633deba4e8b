import Radix.Proofs.Layout
import Radix.Proofs.Located

/-!
# Proofs/Echo — echoing the values of statements only adds output

A source is run twice, in interactive use and not.  The programs cannot tell the difference: a
console is written to and never read back, so two consoles with different output stay the same but
for that output (`Console.Beside`), and each statement writes the same text to both.  What remains
of the difference is what stands between the statements (`runUnit_echo`).
-/

namespace Radix

/-! ## Statements that were run -/

/-- A statement that was run, with what came of it and the text that it wrote itself. -/
structure Executed where
  statement : Expr
  result : Except RunError Value
  written : String

namespace Executed

/-- What is written after the statement in interactive use: a line end after a call of `out`, a line
with the value after any other statement that has one other than unit, and nothing after a
failure. -/
def echo (x : Executed) : String :=
  match x.statement, x.result with
  | _, .error _ => ""
  | .call "out" _ _, .ok _ => "\n"
  | _, .ok v => if v = .unit then "" else v.toText ++ "\n"

/-- The value of the statement, if it has one other than unit. -/
def value? (x : Executed) : Option Value :=
  match x.result with
  | .ok v => if v = .unit then none else some v
  | .error _ => none

end Executed

/-- The statements, run in order from the state, are those that were run: all of them, or up to the
first one that failed.  Each starts where the one before it ended, after its echo if there is
one. -/
inductive Executes (fuel : Nat) (options : Options) : List Expr → State → List Executed → Prop
  | done {s} : Executes fuel options [] s []
  | failed {e es s failure t w} : runStatement fuel e s = some (.error failure, t) →
    t.console.output = s.console.output ++ w →
    Executes fuel options (e :: es) s [⟨e, .error failure, w⟩]
  | next {e es s v t w c xs} : runStatement fuel e s = some (.ok v, t) →
    t.console.output = s.console.output ++ w → writeEcho options e v t.console = (.ok (), c) →
    Executes fuel options es { t with console := c } xs →
    Executes fuel options (e :: es) s (⟨e, .ok v, w⟩ :: xs)

/-! ## Two consoles -/

/-- The report without the name of the source. -/
def Diagnostic.anonymous (d : Diagnostic) : Diagnostic := { d with filename := "" }

/-- The consoles are the same but for what was written and for the names of sources. -/
structure Console.SameButOutput (c c' : Console) : Prop where
  feed : c.feed = c'.feed
  waited : c.waited = c'.waited
  diagnostics : c.diagnostics.map Diagnostic.anonymous = c'.diagnostics.map Diagnostic.anonymous

/-- Writing to the consoles does not fail, and since they held the two texts the same was written to
both. -/
structure Console.Beside (p p' : String) (c c' : Console) : Prop extends SameButOutput c c' where
  unlimited : c.writesLeft = none
  unlimited' : c'.writesLeft = none
  written : ∃ w, c.output = p ++ w ∧ c'.output = p' ++ w

namespace Console

/-- The console with the text written to it. -/
def put (c : Console) (t : String) : Console := { c with output := c.output ++ t }

variable {p p' : String} {c c' : Console}

theorem SameButOutput.report (h : c.SameButOutput c') {d d' : Diagnostic}
    (hd : d.anonymous = d'.anonymous) : (c.report d).SameButOutput (c'.report d') :=
  { h with diagnostics := by simp [Console.report, h.diagnostics, hd] }

theorem Beside.report (h : Beside p p' c c') {d d' : Diagnostic}
    (hd : d.anonymous = d'.anonymous) : Beside p p' (c.report d) (c'.report d') :=
  { h with toSameButOutput := h.toSameButOutput.report hd }

theorem write_of_unlimited (h : c.writesLeft = none) (t : String) :
    c.write t = (.ok (), c.put t) := by
  rw [write, put, h]

theorem Beside.write (h : Beside p p' c c') (t : String) :
    (c.write t).1 = (c'.write t).1 ∧ Beside p p' (c.write t).2 (c'.write t).2 := by
  rw [write_of_unlimited h.unlimited, write_of_unlimited h.unlimited']
  obtain ⟨w, hw, hw'⟩ := h.written
  refine ⟨rfl, { h with written := ⟨w ++ t, ?_, ?_⟩ }⟩
  · rw [put, hw, String.append_assoc]
  · rw [put, hw', String.append_assoc]

theorem Beside.readLine (h : Beside p p' c c') :
    c.readLine.1 = c'.readLine.1 ∧ Beside p p' c.readLine.2 c'.readLine.2 := by
  unfold Console.readLine
  rw [← h.feed]
  split
  · exact ⟨rfl, h⟩
  · exact ⟨rfl, { h with feed := rfl }⟩
  · exact ⟨rfl, h⟩
  · exact ⟨rfl, { h with feed := rfl }⟩

/-- More may be written to one of the two before they go on together. -/
theorem Beside.again (h : Beside p p' c c') (t : String) :
    Beside (c.put t).output c'.output (c.put t) c' :=
  { h with written := ⟨"", by simp, by simp⟩ }

end Console

/-! ## Evaluation -/

namespace Lockstep

/-- The two runs do the same, and their consoles stay beside each other. -/
def beside (p p' : String) : Lockstep where
  like := .exact
  depth d d' := d = d'
  source u u' := u.text = u'.text
  console := Console.Beside p p'
  failure e e' := e = e'
  left := .never
  right := .never

variable {p p' : String}

theorem beside_recover (o : Option Nat) (e : RunError) {s s' : State}
    (hs : (beside p p').States s s') :
    (beside p p').Together (Outcome.recover o (.exit (.failed e) s))
      (Outcome.recover o (.exit (.failed e) s')) := by
  have passed : (beside p p').Together (.exit (.failed e) s : Outcome Value)
      (.exit (.failed e) s') :=
    .inl (.exit (.failed rfl) hs)
  match o with
  | none => exact passed
  | some o =>
    rw [Outcome.recover_some, Outcome.recover_some]
    split
    · exact passed
    · have hc : Console.Beside p p' s.console s'.console := hs.console
      have ht : s.frame.source.text = s'.frame.source.text := hs.frame.source
      refine .inl (.done ⟨hs.frame, hc.report ?_⟩)
      simp [Diagnostic.placed, Diagnostic.anonymous, ht]

theorem beside_lawful (p p' : String) : (beside p p').Lawful where
  deeper h := congrArg (· + 1) h
  called h := by rw [show _ = _ from h]
  limit h hd := by rwa [show _ = _ from h]
  outrun h hd hd' := by
    obtain rfl := h
    omega
  write t h := h.write t
  readLine h := h.readLine
  wait n h := { h with waited := congrArg (· + n) h.waited }
  same _ := rfl
  unknownFunction _ h := by rw [show _ = _ from h]; rfl
  argumentCount _ _ _ h := by rw [show _ = _ from h]; rfl
  argumentType _ _ _ _ h := by rw [show _ = _ from h]; rfl
  depthExceeded _ h := by rw [show _ = _ from h]; rfl
  parts h hp := by
    obtain ⟨rfl, rfl⟩ := h
    exact ⟨_, hp, List.forall₂_same.mpr fun part _ => part.alike_exact⟩
  unread h he := by
    obtain ⟨rfl, rfl⟩ := h
    exact ⟨_, he, rfl⟩
  recover ho he hs := by
    obtain rfl := ho
    obtain rfl := he
    exact beside_recover _ _ hs

/-- The two runs may be compared anew, from the texts that were written so far and an echo. -/
theorem States.again {s s' : State} (h : (beside p p').States s s') (t : String) :
    (beside (s.console.put t).output s'.console.output).States
      { s with console := s.console.put t } s' where
  frame := ⟨h.frame.vars, h.frame.functions, h.frame.depth, h.frame.source⟩
  console := Console.Beside.again h.console t

theorem frames_initial {u u' : SourceUnit} (h : u.text = u'.text) :
    (beside p p').Frames (.initial u) (.initial u') where
  vars := rfl
  functions := Table.alike_exact _
  depth := rfl
  source := h

end Lockstep

open Lockstep (beside)

/-- **A statement does the same to both consoles.** -/
theorem runStatement_beside (fuel : Nat) (e : Expr) {p p' : String} {s s' : State}
    (hs : (beside p p').States s s') :
    (runStatement fuel e s = none ∧ runStatement fuel e s' = none) ∨
      ∃ r t t', runStatement fuel e s = some (r, t) ∧ runStatement fuel e s' = some (r, t') ∧
        (beside p p').States t t' := by
  unfold runStatement
  rcases (Lockstep.eval_pairs (Lockstep.beside_lawful p p') fuel).together e.alike_exact hs with
    h | ⟨h, h'⟩
  · generalize e.eval fuel s = o, e.eval fuel s' = o' at h ⊢
    cases h with
    | done ht => exact .inr ⟨_, _, _, rfl, rfl, ht⟩
    | exit hx ht =>
      cases hx with
      | failed hf =>
        obtain rfl := hf
        exact .inr ⟨_, _, _, rfl, rfl, ht⟩
      | ret v | breakTo l | continueTo l => exact .inr ⟨_, _, _, rfl, rfl, ht⟩
    | outOfFuel => exact .inl ⟨rfl, rfl⟩
  · rw [Astray.eq_outOfFuel_of_never h, Astray.eq_outOfFuel_of_never h']
    exact .inl ⟨rfl, rfl⟩

/-! ## Runs -/

theorem getD_echo? (e : Expr) (v : Value) (w : String) :
    (echo? e v).getD "" = Executed.echo ⟨e, .ok v, w⟩ := by
  have shown : (if v = .unit then none else some (v.toText ++ "\n")).getD "" =
      if v = .unit then "" else v.toText ++ "\n" := by
    split <;> rfl
  match e with
  | .call name args o =>
    by_cases hname : name = "out"
    · subst hname
      rfl
    · have other : Executed.echo ⟨.call name args o, .ok v, w⟩ =
          if v = .unit then "" else v.toText ++ "\n" := by
        unfold Executed.echo
        split
        · next hr => exact nomatch hr
        · next he _ => exact absurd (Expr.call.inj he).1 hname
        · next hr _ => rw [Except.ok.inj hr]
      rw [other, echo?, if_neg hname, shown]
  | .numeral _ | .text _ _ | .var _ | .assign _ _ | .binary _ _ _ _ | .ret _ _ | .branch _ _ _ _
  | .whileLoop _ _ _ | .loop _ _ | .breakTo _ | .continueTo _ | .function _ _ _ _ => exact shown

theorem writeEcho_interactive (e : Expr) (v : Value) (w : String) {c : Console}
    (h : c.writesLeft = none) :
    writeEcho .interactive e v c = (.ok (), c.put (Executed.echo ⟨e, .ok v, w⟩)) := by
  rw [← getD_echo?, writeEcho, if_pos (show Options.interactive.echo = true from rfl)]
  cases echo? e v with
  | none => simp [Console.put]
  | some s => exact c.write_of_unlimited h s

theorem writeEcho_inline (e : Expr) (v : Value) (c : Console) :
    writeEcho .inline e v c = (.ok (), c) :=
  rfl

/-- How two runs end that start with the texts: the outputs differ by the echoes alone, and the
consoles in nothing else. -/
structure EchoApart (p p' : String) (steps : List Executed) (c c' : Console) : Prop where
  same : c.SameButOutput c'
  echoed : c.output = p ++ String.join (steps.map fun x => x.written ++ x.echo)
  plain : c'.output = p' ++ String.join (steps.map (·.written))

/-- **The runs of statements, with and without echoes.** -/
theorem runStatements_echo (fuel : Nat) (es : List Expr) (result : Option Value) {s s' : State}
    (hs : (beside s.console.output s'.console.output).States s s') :
    (runStatements fuel .interactive es result s = none ∧
      runStatements fuel .inline es result s' = none) ∨
    ∃ steps r c c', runStatements fuel .interactive es result s = some (r, c) ∧
      runStatements fuel .inline es result s' = some (r, c') ∧
      Executes fuel .interactive es s steps ∧ Executes fuel .inline es s' steps ∧
      EchoApart s.console.output s'.console.output steps c c' ∧
      ∀ v, r = .ok v → v = (steps.filterMap Executed.value?).getLast?.or result := by
  induction es generalizing result s s' with
  | nil =>
    have hc : Console.Beside _ _ s.console s'.console := hs.console
    refine .inr ⟨[], _, _, _, rfl, rfl, .done, .done, ⟨hc.toSameButOutput, by simp, by simp⟩, ?_⟩
    rintro v ⟨⟩
    rfl
  | cons e es ih =>
    rcases runStatement_beside fuel e hs with ⟨h, h'⟩ | ⟨r, t, t', h, h', ht⟩
    · exact .inl ⟨by rw [runStatements, h], by rw [runStatements, h']⟩
    have hc : Console.Beside _ _ t.console t'.console := ht.console
    have htext : t.frame.source.text = t'.frame.source.text := ht.frame.source
    obtain ⟨w, hw, hw'⟩ := hc.written
    cases r with
    | error failure =>
      refine .inr ⟨[⟨e, .error failure, w⟩], .error (.run failure), _, _,
        by rw [runStatements, h], by rw [runStatements, h'], .failed h hw, .failed h' hw',
        ⟨hc.toSameButOutput.report ?_, ?_, ?_⟩, fun v hv => absurd hv (by simp)⟩
      · rw [htext]
        cases failure.offset <;> rfl
      · simp [Console.report, hw, Executed.echo]
      · simp [Console.report, hw']
    | ok v =>
      have hecho := writeEcho_interactive e v w hc.unlimited
      let u : State := { t with console := t.console.put (Executed.echo ⟨e, .ok v, w⟩) }
      have run : runStatements fuel .interactive (e :: es) result s =
          runStatements fuel .interactive es (if v = .unit then result else some v) u := by
        rw [runStatements, h]
        dsimp only
        rw [hecho]
      have run' : runStatements fuel .inline (e :: es) result s' =
          runStatements fuel .inline es (if v = .unit then result else some v) t' := by
        rw [runStatements, h']
        rfl
      rw [run, run']
      -- The echo is written to the first console only, and the rest is compared from there.
      rcases ih _ (s := u) (ht.again (Executed.echo ⟨e, .ok v, w⟩)) with
        hnone | ⟨steps, r, c, c', hr, hr', hx, hx', hapart, hlast⟩
      · exact .inl hnone
      · refine .inr ⟨⟨e, .ok v, w⟩ :: steps, r, c, c', hr, hr', .next h hw hecho hx,
          .next h' hw' (writeEcho_inline e v _) hx', ⟨hapart.same, ?_, ?_⟩, fun x hx => ?_⟩
        · rw [hapart.echoed]
          simp [u, Console.put, hw, String.append_assoc]
        · rw [hapart.plain]
          simp [hw', String.append_assoc]
        · rw [hlast x hx]
          by_cases hv : v = .unit
          · simp [hv, Executed.value?]
          · simp [hv, Executed.value?, List.getLast?_cons]

/-- **Echoing only adds output.**  Run a source in interactive use and not, with the same fuel, on a
console to which anything can be written.  Neither run ends, or both do, with the same result or
failure.  They read the same lines and report the same, the name of the source apart.  The same
statements are run in both; the output of the one is what they write with the echo of each behind
it, and that of the other is what they write.  A run that succeeds gives the last value other than
unit. -/
theorem runUnit_echo (fuel : Nat) (source : List Char) (console : Console)
    (h : console.writesLeft = none) :
    (runUnit fuel source .interactive console = none ∧
      runUnit fuel source .inline console = none) ∨
    ∃ steps r c c', runUnit fuel source .interactive console = some (r, c) ∧
      runUnit fuel source .inline console = some (r, c') ∧
      (match Program.ofSource source with
        | .ok program =>
          Executes fuel .interactive program (.start source .interactive console) steps ∧
            Executes fuel .inline program (.start source .inline console) steps
        | .error _ => steps = []) ∧
      EchoApart console.output console.output steps c c' ∧
      ∀ v, r = .ok v → v = (steps.filterMap Executed.value?).getLast? := by
  have same : console.SameButOutput console := ⟨rfl, rfl, rfl⟩
  unfold runUnit
  match Program.ofSource source with
  | .error fault =>
    exact .inr ⟨[], _, _, _, rfl, rfl, rfl,
      ⟨same.report rfl, by simp [Console.report], by simp [Console.report]⟩, nofun⟩
  | .ok program =>
    have hs : (beside (State.start source .interactive console).console.output
        (State.start source .inline console).console.output).States
        (.start source .interactive console) (.start source .inline console) :=
      ⟨Lockstep.frames_initial rfl, { same with
        unlimited := h
        unlimited' := h
        written := ⟨"", String.append_empty.symm, String.append_empty.symm⟩ }⟩
    rcases runStatements_echo fuel program none hs with hnone | ⟨steps, r, c, c', hr, hr', hx, hx',
      hapart, hlast⟩
    · exact .inl hnone
    · refine .inr ⟨steps, r, c, c', hr, hr', ⟨hx, hx'⟩, hapart, fun v hv => ?_⟩
      rw [hlast v hv, Option.or_none]

/-! A numeral, and a call of `out`. -/

def twoEchoes : List Char := "2\nout(\"a\")".toList

def twoEchoesProgram : Program :=
  [.numeral ⟨10, ['2']⟩, .call "out" [.text (.plain ['a']) 6] 2]

def silentConsole : Console := { feed := .script [] }

/-- The value of the numeral is echoed and is the result; a line end is echoed after the call. -/
theorem twoEchoes_apart :
    silentConsole.writesLeft = none ∧
    (runUnit 3 twoEchoes .interactive silentConsole =
        some (.ok (some (.numeral ⟨10, ['2']⟩)), silentConsole.put "2\na\n") ∧
      runUnit 3 twoEchoes .inline silentConsole =
        some (.ok (some (.numeral ⟨10, ['2']⟩)), silentConsole.put "a")) ∧
    ∃ steps, Executes 3 .interactive twoEchoesProgram (.start twoEchoes .interactive silentConsole)
        steps ∧
      Executes 3 .inline twoEchoesProgram (.start twoEchoes .inline silentConsole) steps ∧
      EchoApart "" "" steps (silentConsole.put "2\na\n") (silentConsole.put "a") ∧
      some (Value.numeral ⟨10, ['2']⟩) = (steps.filterMap Executed.value?).getLast? := by
  have read : Program.ofSource twoEchoes = .ok twoEchoesProgram := by with_unfolding_all rfl
  have run : runUnit 3 twoEchoes .interactive silentConsole =
      some (.ok (some (.numeral ⟨10, ['2']⟩)), silentConsole.put "2\na\n") := by
    rw [runUnit, read]
    with_unfolding_all rfl
  have run' : runUnit 3 twoEchoes .inline silentConsole =
      some (.ok (some (.numeral ⟨10, ['2']⟩)), silentConsole.put "a") := by
    rw [runUnit, read]
    with_unfolding_all rfl
  refine ⟨rfl, ⟨run, run'⟩, ?_⟩
  rcases runUnit_echo 3 twoEchoes silentConsole rfl with ⟨h, -⟩ | ⟨steps, r, c, c', h, h', hx,
    hapart, hlast⟩
  · exact absurd (h.symm.trans run) (by simp)
  · obtain ⟨rfl, rfl⟩ := Prod.mk.inj (Option.some.inj (h.symm.trans run))
    obtain ⟨-, rfl⟩ := Prod.mk.inj (Option.some.inj (h'.symm.trans run'))
    rw [read] at hx
    exact ⟨steps, hx.1, hx.2, hapart, hlast _ rfl⟩

end Radix
