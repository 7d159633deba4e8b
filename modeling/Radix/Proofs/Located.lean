import Radix.Proofs.Eval.Extends
import Radix.Proofs.Eval.Failure
import Radix.Proofs.Eval.Visit
import Radix.Proofs.Template.Inside
import Radix.Session

/-!
# Proofs/Located — every failure with an offset is shown with its line

An offset has a line and a column exactly if it is not behind the end of the source
(`Position.ofOffset?_isSome`).  No offset that comes up while a source is read and run is, so a
report has a place (`runUnit_located`), unless it is of a failure without an offset that has ended
the run: an operator lends its own offset to a failure that has none.
-/

namespace Radix

/-! ## Lines -/

namespace Position

theorem lines_ne_nil (cs : List Char) : lines cs ≠ [] := by
  unfold lines
  split
  · simp
  · split
    · simp
    · split <;> simp

theorem inLines?_isSome {cs : List Char} {o n : Nat} :
    (inLines? o n (lines cs)).isSome ↔ o ≤ cs.length := by
  induction cs generalizing o n with
  | nil =>
    unfold lines inLines? inLines?
    by_cases ho : o ≤ 0
    · simp [ho]
    · simp [ho]
  | cons c cs ih =>
    rw [lines, List.length_cons]
    by_cases hc : c = '\n'
    · rw [if_pos hc, inLines?, List.length_nil]
      by_cases ho : o ≤ 0
      · rw [if_pos ho]
        simp only [Option.isSome_some, true_iff]
        omega
      · rw [if_neg ho, ih]
        omega
    · rw [if_neg hc]
      match hl : lines cs with
      | [] => exact absurd hl (lines_ne_nil cs)
      | l :: ls =>
        -- The first line is longer by one than without `c`, so the offset is one less there.
        have hshift := ih (o := o - 1) (n := n)
        rw [hl, inLines?] at hshift
        dsimp only
        rw [inLines?, List.length_cons]
        by_cases ho : o ≤ l.length + 1
        · rw [if_pos (by omega)] at hshift
          rw [if_pos ho]
          simp only [Option.isSome_some, true_iff] at hshift ⊢
          omega
        · rw [if_neg (by omega)] at hshift
          rw [if_neg ho, show o - (l.length + 1 + 1) = o - 1 - (l.length + 1) by omega, hshift]
          omega

/-- **An offset has a place exactly if it is not behind the end.** -/
theorem ofOffset?_isSome {source : List Char} {o : Nat} :
    (ofOffset? source o).isSome ↔ o ≤ source.length := inLines?_isSome

end Position

/-! ## Reports -/

/-- The report shows the offset, which has a place in the source. -/
def Diagnostic.PointsAt (source : List Char) (o : Nat) (d : Diagnostic) : Prop :=
  o ≤ source.length ∧ ∃ p, Position.ofOffset? source o = some p ∧ d.position = some p

theorem Diagnostic.pointsAt_placed {source : List Char} {o : Nat} (h : o ≤ source.length)
    (label message filename : String) :
    (placed source o label message filename).PointsAt source o := by
  obtain ⟨p, hp⟩ := Option.isSome_iff_exists.mp (Position.ofOffset?_isSome.mpr h)
  exact ⟨h, p, hp, hp⟩

/-- Since the first console only places in the source were reported. -/
def Console.Located (source : List Char) (c d : Console) : Prop :=
  ∃ ds, d.diagnostics = c.diagnostics ++ ds ∧ ∀ x ∈ ds, ∃ o, x.PointsAt source o

namespace Console

variable {source : List Char} {c d d' : Console}

theorem Located.refl (source : List Char) (c : Console) : c.Located source c := ⟨[], by simp, nofun⟩

theorem Located.of_eq (h : c.Located source d) (hd : d'.diagnostics = d.diagnostics) :
    c.Located source d' := by
  unfold Located
  rwa [hd]

theorem Located.report (h : c.Located source d) {x : Diagnostic} {o : Nat}
    (hx : x.PointsAt source o) : c.Located source (d.report x) := by
  obtain ⟨ds, hds, hall⟩ := h
  refine ⟨ds ++ [x], by simp [Console.report, hds], ?_⟩
  exact List.forall_mem_append.mpr ⟨hall, fun y hy => ⟨o, List.mem_singleton.mp hy ▸ hx⟩⟩

end Console

/-! ## Evaluations -/

/-- The source runs, what was reported has a place there, and so have the offsets in the bodies of
the functions in sight. -/
structure State.Located (source : List Char) (console : Console) (s : State) : Prop where
  running : s.frame.source.text = source
  reports : console.Located source s.console
  bodies {name f es} : s.frame.functions.get? name = some f → f.body = .program es →
    ∀ e ∈ es, e.Inside source.length

/-- A failure that has an offset has a place. -/
def RunError.Inside (N : Nat) (e : RunError) : Prop := ∀ o, e.offset = some o → o ≤ N

/-- Expressions, states and failures have places in the source; values and jumps may be any. -/
def locating (source : List Char) (console : Console) : Discipline Unit where
  top := ()
  inBranch _ _ := ()
  inLoop _ _ := ()
  expr _ e := e.Inside source.length
  value _ := True
  state := State.Located source console
  failure e := e.Inside source.length
  jump _ _ _ := True

theorem locating_lawful (source : List Char) (console : Console) :
    (locating source console).Lawful where
  text h hp he := Template.inside_of_parts h.self hp he
  assign h := h.assign
  binary h := h.binary
  call h _ he := h.part he
  ret h := h.ret
  branch h := h.branch
  whileLoop h := h.whileLoop
  loop h _ hx := h.part hx
  body hs hf hb := hs.bodies hf hb
  bind hs _ := ⟨hs.running, hs.reports, hs.bodies⟩
  deeper hs := ⟨hs.running, hs.reports, hs.bodies⟩
  leave hs ht := ⟨hs.running, ht.reports, hs.bodies⟩
  declare h _ hs := by
    refine ⟨hs.running, hs.reports, fun hf hb => ?_⟩
    rcases Frame.eq_or_get?_of_declare hf with rfl | hf
    · obtain rfl := Body.program.inj hb
      exact fun e he => h.part he
    · exact hs.bodies hf hb
  console {n vs s r console} hs _ hr := by
    have hd := n.run_diagnostics vs s.frame s.console
    rw [hr] at hd
    exact ⟨hs.running, hs.reports.of_eq hd, hs.bodies⟩
  report {_ _ _ _ k e s} h he hs := by
    have hle : e.offset.getD k ≤ source.length := by
      match ho : e.offset with
      | some o => exact he o ho
      | none => exact h.self
    refine ⟨hs.running, hs.reports.report (o := e.offset.getD k) ?_, hs.bodies⟩
    rw [hs.running]
    exact Diagnostic.pointsAt_placed hle _ _ _
  unread h hp o ho := by
    obtain rfl := Option.some.inj ho
    exact Template.fault_inside h.self hp
  unknownVariable := nofun
  refused _ _ h := by
    rcases Operator.apply_error h with ⟨cause, rfl⟩ | rfl <;> exact nofun
  untrue _ _ := nofun
  unknownFunction h o ho := Option.some.inj ho ▸ h.self
  arguments h hc o ho := by
    rcases Eval.checkArguments_error hc with rfl | ⟨i, tag, kind, rfl⟩ <;>
      exact Option.some.inj ho ▸ h.self
  tooDeep h o ho := Option.some.inj ho ▸ h.self
  nativeFailure _ _ h := by
    cases Native.failure_of_run h <;> exact nofun
  unknownTag h := by
    obtain ⟨word, rfl⟩ := Eval.paramTags_error h
    exact nofun

/-! ## Runs -/

theorem writeEcho_diagnostics (options : Options) (e : Expr) (v : Value) (c : Console) :
    (writeEcho options e v c).2.diagnostics = c.diagnostics := by
  unfold writeEcho
  split
  · exact c.write_diagnostics _
  · rfl

/-- The state in which the program of a source starts. -/
def State.start (source : List Char) (options : Options) (console : Console) : State where
  frame := .initial { text := source, filename := options.filename, origin := options.origin }
  console := console

/-- Running the first statements in the first state comes to the second ones in the second
state. -/
inductive Continues (options : Options) : List Expr → State → List Expr → State → Prop
  | here {es s} : Continues options es s es s
  | next {e es s n v t c es' u} : runStatement n e s = some (.ok v, t) →
    writeEcho options e v t.console = (.ok (), c) →
    Continues options es { t with console := c } es' u → Continues options (e :: es) s es' u

/-- How a run ends, and what it has reported then.  A source that is refused is reported where the
fault is.  A failure that ends the run is reported last, where it is, if it has an offset. -/
inductive Reported (source : List Char) (console : Console) :
    Except Failure (Option Value) → Console → Prop
  | ok {v c} : console.Located source c → Reported source console (.ok v) c
  | echo {e c} : console.Located source c → Reported source console (.error (.echo e)) c
  | read {e d} : d.PointsAt source e.offset →
    Reported source console (.error (.read e)) (console.report d)
  | run {e c d} : console.Located source c → (∀ o, e.offset = some o → d.PointsAt source o) →
    (e.offset = none → d.position = none) →
    Reported source console (.error (.run e)) (c.report d)

section Run

variable {source : List Char} {console : Console} {options : Options}

theorem inside_of_ofSource {es : Program} (h : Program.ofSource source = .ok es) :
    ∀ e ∈ es, e.Inside source.length := by
  obtain ⟨ts, hts, hes⟩ := bind_eq_ok.mp h
  exact Read.made_of_program Read.makes_inside hes (inside_of_tokenize hts)

theorem fault_of_ofSource {e : ReadError} (h : Program.ofSource source = .error e) :
    e.offset ≤ source.length := by
  rcases bind_eq_error.mp h with hts | ⟨ts, hts, hes⟩
  · exact Nat.le_of_lt (offset_lt_of_tokenize hts)
  · exact Read.inside_of_error (inside_of_tokenize hts) hes

theorem State.Located.start (source : List Char) (options : Options) (console : Console) :
    (State.start source options console).Located source console where
  running := rfl
  reports := .refl source console
  bodies hf hb := absurd hb (Frame.body_of_get?_initial hf)

/-- What a statement leaves behind. -/
theorem runStatement_located {n : Nat} {e : Expr} {s t : State} {r : Except RunError Value}
    (he : e.Inside source.length) (hs : s.Located source console)
    (h : runStatement n e s = some (r, t)) :
    t.Located source console ∧ ∀ err, r = .error err → err.Inside source.length := by
  obtain ⟨ht, -, herr⟩ :=
    Discipline.runStatement_keeps (c := ()) (locating_lawful source console) he hs h
  refine ⟨ht, fun err hr => ?_⟩
  rcases herr err hr with hin | ⟨jump, label, rfl, -⟩
  · exact hin
  · exact nofun

theorem writeEcho_located {e : Expr} {v : Value} {t : State} {r : Except ConsoleError Unit}
    {c : Console} (ht : t.Located source console)
    (h : writeEcho options e v t.console = (r, c)) :
    State.Located source console { t with console := c } := by
  have hc := writeEcho_diagnostics options e v t.console
  rw [h] at hc
  exact ⟨ht.running, ht.reports.of_eq hc, ht.bodies⟩

theorem Continues.located {es es' : List Expr} {s u : State} (h : Continues options es s es' u)
    (hes : ∀ e ∈ es, e.Inside source.length) (hs : s.Located source console) :
    (∀ e ∈ es', e.Inside source.length) ∧ u.Located source console := by
  induction h with
  | here => exact ⟨hes, hs⟩
  | next hr hw _ ih =>
    obtain ⟨he, hes⟩ := List.forall_mem_cons.mp hes
    exact ih hes (writeEcho_located (runStatement_located he hs hr).1 hw)

theorem runStatements_reported {fuel : Nat} {es : List Expr} {result : Option Value} {s : State}
    {r : Except Failure (Option Value)} {c : Console} (hes : ∀ e ∈ es, e.Inside source.length)
    (hs : s.Located source console)
    (h : runStatements fuel options es result s = some (r, c)) : Reported source console r c := by
  induction es generalizing s result with
  | nil =>
    obtain ⟨rfl, rfl⟩ := Prod.mk.inj (Option.some.inj h)
    exact .ok hs.reports
  | cons e es ih =>
    obtain ⟨he, hes⟩ := List.forall_mem_cons.mp hes
    unfold runStatements at h
    split at h
    · exact nomatch h
    · next failure t hr =>
      obtain ⟨rfl, rfl⟩ := Prod.mk.inj (Option.some.inj h)
      obtain ⟨ht, hin⟩ := runStatement_located he hs hr
      rw [ht.running]
      refine .run ht.reports (fun o ho => ?_) (fun ho => ?_)
      · rw [ho]
        exact Diagnostic.pointsAt_placed (hin failure rfl o ho) _ _ _
      · rw [ho]
        rfl
    · next v t hr =>
      have ht := (runStatement_located he hs hr).1
      split at h
      · next failure c' hw =>
        obtain ⟨rfl, rfl⟩ := Prod.mk.inj (Option.some.inj h)
        exact .echo (writeEcho_located ht hw).reports
      · next c' hw => exact ih hes (writeEcho_located ht hw) h

theorem runUnit_reported {fuel : Nat} {r : Except Failure (Option Value)} {c : Console}
    (h : runUnit fuel source options console = some (r, c)) : Reported source console r c := by
  unfold runUnit at h
  split at h
  · next fault hf =>
    obtain ⟨rfl, rfl⟩ := Prod.mk.inj (Option.some.inj h)
    exact .read (Diagnostic.pointsAt_placed (fault_of_ofSource hf) _ _ _)
  · next program hp =>
    exact runStatements_reported (inside_of_ofSource hp) (.start source options console) h

/-- Whatever comes of an evaluation, its reports have places. -/
theorem eval_located {n : Nat} {e : Expr} {s u : State} (he : e.Inside source.length)
    (hs : s.Located source console)
    (h : (∃ v, e.eval n s = .done v u) ∨ ∃ x, e.eval n s = .exit x u) :
    u.Located source console := by
  have kept := Discipline.eval_keeps (locating_lawful source console) n () e s he hs
  rcases h with ⟨v, h⟩ | ⟨x, h⟩
  · rw [h] at kept
    exact kept.2
  · rw [h] at kept
    exact kept.2

end Run

/-- **What is reported in a run of a source has a place there**, but for a failure without an offset
that ends it.  This holds of every run that ends, and of every moment of a run, whether it ends or
not: before and after each evaluation that it comes by, in texts, in function bodies and in calls
inside calls, only places in the source have been reported. -/
theorem runUnit_located (source : List Char) (options : Options) (console : Console) :
    (∀ fuel r c, runUnit fuel source options console = some (r, c) →
      Reported source console r c) ∧
    ∀ program, Program.ofSource source = .ok program → ∀ e es s n k x t,
      Continues options program (.start source options console) (e :: es) s →
      e.Visits n s k x t →
      console.Located source t.console ∧
        ∀ u, (∃ v, x.eval k t = .done v u) ∨ (∃ exit, x.eval k t = .exit exit u) →
          console.Located source u.console := by
  refine ⟨fun fuel r c => runUnit_reported, fun program hp e es s n k x t hc hv => ?_⟩
  obtain ⟨hes, hs⟩ := hc.located (inside_of_ofSource hp) (.start source options console)
  obtain ⟨c, hx, ht⟩ := Discipline.visits_keep (c := ()) (locating_lawful source console) hv
    (hes e (by simp)) hs
  exact ⟨ht.reports, fun u hu => (eval_located hx ht hu).reports⟩

/-! A function adds to a text, which has another text in its interpolation.  It is called, and then
comes a text that leaves a brace open, as the inner one does: the operator reports the first brace,
and the second one ends the run. -/

def openSource : List Char :=
  "fn f()\x7b\"\x7b\\\"\x7bx\\\"\x7d\"+1\x7d\nf()\n\"\x7bx\"".toList

def aroundOpen : QuotedText := ⟨"\x7b\"\x7bx\"\x7d".toList, [1, 2, 4, 5, 6, 8]⟩

def openSum : Expr := .binary .add (.text aroundOpen 7) (.numeral ⟨10, ['1']⟩) (some 17)

def openText : Expr := .text (.plain ['\x7b', 'x']) 25

def openProgram : Program := [.function "f" [] none [openSum], .call "f" [] 21, openText]

def openConsole : Console := { feed := .script [] }

def openStart : State := .start openSource .inline openConsole

def openDeclared : State :=
  { openStart with frame := openStart.frame.declare ⟨"f", [], none, .program [openSum]⟩ }

def openFault (o : Nat) : RunError := .read ⟨.unclosedInterpolation, o⟩

/-- After the call of the function. -/
def openCalled : State := openDeclared.report (openFault 10) 10

/-- After the run. -/
def openEnd : Console :=
  openCalled.console.report
    (.placed openSource 26 "SyntaxError" "Unclosed '\x7b' in text" "<input>")

theorem openSum_reported (s : State) :
    openSum.eval 3 s = .done .unit (s.report (openFault 10) 10) := by
  have fails : (Expr.text aroundOpen 7).eval 2 s = .exit (.failed (openFault 10)) s := by
    with_unfolding_all rfl
  rw [openSum, Expr.eval_succ, Eval.step, Run.recover, Eval.operation, Run.bind_apply, fails]
  rfl

theorem openCall_reported : (Expr.call "f" [] 21).eval 4 openDeclared = .done .unit openCalled := by
  let inner : State := { openDeclared with frame := openDeclared.frame.enter [] [] }
  have body : Eval.block (Expr.eval 3) [openSum] inner =
      .done () (inner.report (openFault 10) 10) := by
    rw [Eval.block, Run.bind_apply, openSum_reported]
    rfl
  show (Eval.block (Expr.eval 3) [openSum] inner).returnTo openDeclared.frame = _
  rw [body]
  rfl

theorem openProgram_of_openSource : Program.ofSource openSource = .ok openProgram := by
  with_unfolding_all rfl

theorem openSource_ends :
    runUnit 4 openSource .inline openConsole = some (.error (.run (openFault 26)), openEnd) := by
  have text : runStatement 4 openText openCalled = some (.error (openFault 26), openCalled) := by
    have every : ∀ s, runStatement 4 openText s = some (.error (openFault 26), s) := fun s => by
      with_unfolding_all rfl
    exact every openCalled
  have call : runStatement 4 (.call "f" [] 21) openDeclared = some (.ok .unit, openCalled) := by
    rw [runStatement, openCall_reported]
    rfl
  rw [runUnit, openProgram_of_openSource]
  show runStatements 4 .inline [.call "f" [] 21, openText] none openDeclared = _
  rw [runStatements, call]
  show runStatements 4 .inline [openText] none openCalled = _
  rw [runStatements, text]
  rfl

/-- Both braces are reported where they are, in the first and in the third line. -/
theorem openSource_located :
    (runUnit 4 openSource .inline openConsole = some (.error (.run (openFault 26)), openEnd) ∧
      openEnd.diagnostics.map (fun d => d.position.map fun p => (p.line, p.column)) =
        [some (1, 11), some (3, 2)]) ∧
    Reported openSource openConsole (.error (.run (openFault 26))) openEnd ∧
    (Expr.call "f" [] 21).eval 4 openDeclared = .done .unit openCalled ∧
    openConsole.Located openSource openCalled.console := by
  obtain ⟨ended, during⟩ := runUnit_located openSource .inline openConsole
  have declared : Continues .inline openProgram openStart [.call "f" [] 21, openText]
      openDeclared := .next (n := 1) rfl rfl .here
  have called := during openProgram openProgram_of_openSource _ _ _ 4 _ _ _ declared .here
  exact ⟨⟨openSource_ends, by decide⟩, ended 4 _ _ openSource_ends, openCall_reported,
    called.2 openCalled (.inl ⟨_, openCall_reported⟩)⟩

end Radix
