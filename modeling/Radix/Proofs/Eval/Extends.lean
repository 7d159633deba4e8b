import Radix.Proofs.Eval.Discipline

/-!
# Proofs/Eval/Extends — what programs do to the console

Output and diagnostics only grow, and lines are only taken from the front: this is `Console.Extends`.
Every native function keeps to it, and so does every evaluation (`Expr.eval_extends_console`).
-/

namespace Radix

/-! ## Consoles -/

/-- Some lines of the first feed were read, from the front, and the second one is left. -/
inductive Feed.Consumed : Feed → Feed → Prop
  | script {ls left} : left <:+ ls → Consumed (.script ls) (.script left)
  | stream {ls left} : left <:+ ls → Consumed (.stream ls) (.stream left)

theorem Feed.Consumed.refl (f : Feed) : f.Consumed f := by
  match f with
  | .script ls => exact .script (List.suffix_refl ls)
  | .stream ls => exact .stream (List.suffix_refl ls)

theorem Feed.Consumed.trans {f g h : Feed} (hfg : f.Consumed g) (hgh : g.Consumed h) :
    f.Consumed h := by
  cases hfg with
  | script hs => cases hgh with | script hs' => exact .script (hs'.trans hs)
  | stream hs => cases hgh with | stream hs' => exact .stream (hs'.trans hs)

/-- The second console is the first one with more written, reported and read. -/
structure Console.Extends (c d : Console) : Prop where
  output : ∃ written, d.output = c.output ++ written
  diagnostics : c.diagnostics <+: d.diagnostics
  feed : c.feed.Consumed d.feed

namespace Console

variable {c d e : Console}

theorem Extends.refl (c : Console) : c.Extends c where
  output := ⟨"", by simp⟩
  diagnostics := List.prefix_refl _
  feed := .refl _

theorem Extends.trans (h : c.Extends d) (h' : d.Extends e) : c.Extends e where
  output := by
    obtain ⟨w, hw⟩ := h.output
    obtain ⟨w', hw'⟩ := h'.output
    exact ⟨w ++ w', by rw [hw', hw, String.append_assoc]⟩
  diagnostics := h.diagnostics.trans h'.diagnostics
  feed := h.feed.trans h'.feed

theorem extends_report (c : Console) (d : Diagnostic) : c.Extends (c.report d) where
  output := ⟨"", by simp [report]⟩
  diagnostics := List.prefix_append _ _
  feed := .refl _

theorem extends_wait (c : Console) (n : Nat) : c.Extends (c.wait n) where
  output := ⟨"", by simp [wait]⟩
  diagnostics := List.prefix_refl _
  feed := .refl _

theorem extends_write (c : Console) (s : String) : c.Extends (c.write s).2 := by
  unfold write
  match c.writesLeft with
  | some 0 => exact .refl c
  | none | some (_ + 1) => exact ⟨⟨s, rfl⟩, List.prefix_refl _, .refl _⟩

theorem extends_readLine (c : Console) : c.Extends c.readLine.2 := by
  have read : ∀ f, c.feed.Consumed f → c.Extends { c with feed := f } :=
    fun f hf => ⟨⟨"", by simp⟩, List.prefix_refl _, hf⟩
  unfold readLine
  match hf : c.feed with
  | .script [] | .stream [] => exact .refl c
  | .script (l :: ls) => exact read _ (hf ▸ .script (List.suffix_cons l ls))
  | .stream (l :: ls) => exact read _ (hf ▸ .stream (List.suffix_cons l ls))

end Console

/-- **Native functions only extend the console.** -/
theorem Native.run_extends (n : Native) (vs : List Value) (f : Frame) (c : Console) :
    c.Extends (n.run vs f c).2 := by
  have written : ∀ t, c.Extends (writing t c).2 := by
    intro t
    have h := c.extends_write t
    unfold writing
    match c.write t, h with
    | (.ok (), _), h | (.error _, _), h => exact h
  unfold run
  match n with
  | .out =>
    match textArg vs 0 with
    | .ok t => exact written t
    | .error _ => exact .refl c
  | .input =>
    have h := c.extends_readLine
    match c.readLine, h with
    | (.ok _, _), h | (.error _, _), h => exact h
  | .funcs => exact written _
  | .wait =>
    match secondsOf vs with
    | .ok k => exact c.extends_wait k
    | .error _ => exact .refl c
  | .len | .str | .number | .sqrt | .rebase => exact .refl c

/-! Only operators and the end of a run report anything. -/

theorem Console.write_diagnostics (c : Console) (t : String) :
    (c.write t).2.diagnostics = c.diagnostics := by
  unfold write
  match c.writesLeft with
  | none | some 0 | some (_ + 1) => rfl

theorem Console.readLine_diagnostics (c : Console) :
    c.readLine.2.diagnostics = c.diagnostics := by
  unfold readLine
  match c.feed with
  | .script [] | .script (_ :: _) | .stream [] | .stream (_ :: _) => rfl

/-- Native functions report nothing. -/
theorem Native.run_diagnostics (n : Native) (vs : List Value) (f : Frame) (c : Console) :
    (n.run vs f c).2.diagnostics = c.diagnostics := by
  have written : ∀ t, (writing t c).2.diagnostics = c.diagnostics := by
    intro t
    rw [← c.write_diagnostics t]
    unfold writing
    match c.write t with
    | (.ok (), _) | (.error _, _) => rfl
  unfold run
  match n with
  | .out =>
    match textArg vs 0 with
    | .ok t => exact written t
    | .error _ => rfl
  | .input =>
    rw [← c.readLine_diagnostics]
    match c.readLine with
    | (.ok _, _) | (.error _, _) => rfl
  | .funcs => exact written _
  | .wait =>
    match secondsOf vs with
    | .ok _ | .error _ => rfl
  | .len | .str | .number | .sqrt | .rebase => rfl

/-! ## Evaluations -/

/-- Whatever is evaluated, the console extends the one at the start. -/
def extending (c : Console) : Discipline Unit where
  top := ()
  inBranch _ _ := ()
  inLoop _ _ := ()
  expr _ _ := True
  value _ := True
  state s := c.Extends s.console
  failure _ := True
  jump _ _ _ := True

theorem extending_lawful (c : Console) : (extending c).Lawful where
  text _ _ _ := trivial
  assign _ := trivial
  binary _ := ⟨trivial, trivial⟩
  call _ _ _ := trivial
  ret _ := trivial
  branch _ := ⟨trivial, fun _ _ => trivial, fun _ _ => trivial⟩
  whileLoop _ := ⟨trivial, fun _ _ => trivial⟩
  loop _ _ _ := trivial
  body _ _ _ _ _ := trivial
  bind hs _ := hs
  deeper hs := hs
  leave _ ht := ht
  declare _ _ hs := hs
  console {n vs s r console} hs _ hr := by
    have := n.run_extends vs s.frame s.console
    rw [hr] at this
    exact hs.trans this
  report _ _ hs := hs.trans (Console.extends_report _ _)

/-- **Every evaluation extends the console.** -/
theorem Expr.eval_extends_console (n : Nat) (e : Expr) (s : State) :
    (e.eval n s).Meets (fun _ t => s.console.Extends t.console)
      fun _ t => s.console.Extends t.console :=
  (Discipline.eval_keeps (extending_lawful s.console) n () e s trivial (.refl _)).mono
    (fun _ _ ht => ht.2) fun _ _ ht => ht.2

end Radix
