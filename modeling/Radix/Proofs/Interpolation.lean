import Radix.Eval.Basic
import Radix.Proofs.Read.RoundTrip
import Radix.Proofs.Token.Scan

/-!
# Proofs/Interpolation — what a text with variables in it shows

A text is written with backslashes before backslashes, quotes and braces, and with variables between
braces.  Two readers take such escapes away, one after the other: the scanner all of them except
those of braces, and the template those of braces.  After the scanner a backslash that was written
as two is a single one, so where it stands directly before a variable the template takes it for the
escape of the brace.

`Shows` follows the second reader and the evaluation of what it splits off, character by character.
With it, the text that is shown is known exactly (`Slot.shown`), and so is when it is the one that
was meant (`shownText_eq_meantText_iff`).
-/

namespace Radix.Template

open Lexical

/-! ## Texts with variables -/

/-- A variable in a text, with the characters before it and its value. -/
structure Slot where
  before : List Char
  name : String
  value : Value

/-- A character as it is written in a text. -/
def escaped (c : Char) : List Char :=
  if c = '\\' || c = '"' || isBrace c then ['\\', c] else [c]

/-- A name between braces. -/
def inBraces (name : String) : List Char := '\x7b' :: (name.toList ++ ['\x7d'])

/-- The text with these variables and characters after the last one, as it is written. -/
def writtenText (slots : List Slot) (last : List Char) : List Char :=
  '"' :: ((slots.flatMap fun p => p.before.flatMap escaped ++ inBraces p.name) ++
    last.flatMap escaped ++ ['"'])

/-- What is meant by a variable and the characters before it. -/
def Slot.meant (p : Slot) : List Char := p.before ++ p.value.toText.toList

/-- What is shown for them: a backslash directly before the variable is lost, and the variable is
not shown. -/
def Slot.shown (p : Slot) : List Char :=
  if p.before.getLast? = some '\\' then p.before.dropLast ++ inBraces p.name else p.meant

/-- The text that is meant. -/
def meantText (slots : List Slot) (last : List Char) : String :=
  String.ofList (slots.flatMap Slot.meant ++ last)

/-- The text that is shown. -/
def shownText (slots : List Slot) (last : List Char) : String :=
  String.ofList (slots.flatMap Slot.shown ++ last)

theorem Slot.shown_of_slash (p : Slot) {b : List Char} (h : p.before = b ++ ['\\']) :
    p.shown = b ++ inBraces p.name := by
  rw [shown, h, if_pos List.getLast?_concat, List.dropLast_concat]

/-- **The text that was meant is shown exactly if no variable directly follows a backslash.** -/
theorem shownText_eq_meantText_iff {slots : List Slot} {last : List Char} :
    shownText slots last = meantText slots last ↔
      ∀ p ∈ slots, p.before.getLast? ≠ some '\\' := by
  rw [shownText, meantText, String.ofList_inj]
  induction slots with
  | nil => simp
  | cons p slots ih =>
    rw [List.flatMap_cons, List.flatMap_cons, List.append_assoc, List.append_assoc,
      List.forall_mem_cons, ← ih]
    by_cases h : p.before.getLast? = some '\\'
    · obtain ⟨b, hb⟩ := List.getLast?_eq_some_iff.mp h
      have hmeant : p.meant = b ++ '\\' :: p.value.toText.toList := by
        rw [Slot.meant, hb, ← List.append_cons]
      rw [hmeant, p.shown_of_slash hb]
      simp [h, inBraces]
    · have hshown : p.shown = p.meant := if_neg h
      rw [hshown, List.append_cancel_left_eq]
      simp [h]

/-! ## What the scanner leaves -/

/-- A character of a text after the scanner: only braces are still escaped. -/
def kept (c : Char) : List Char := if isBrace c then ['\\', c] else [c]

theorem decodes_escaped (c : Char) : Decodes (escaped c) (kept c) := by
  have decoded : ∀ d : Char, (unescape 0 d).map (·.1) = kept d → Decodes ['\\', d] (kept d) :=
    fun d hd => hd ▸ decodes_escape d
  by_cases hb : isBrace c = true
  · have hkept : (unescape 0 c).map (·.1) = kept c := by
      rcases (by simpa [isBrace] using hb : c = '\x7b' ∨ c = '\x7d') with rfl | rfl <;> rfl
    rw [escaped, if_pos (by simp [hb])]
    exact decoded c hkept
  by_cases hslash : c = '\\'
  · subst hslash
    exact decoded '\\' rfl
  by_cases hquote : c = '"'
  · subst hquote
    exact decoded '"' rfl
  · have hkept : kept c = [c] := if_neg hb
    rw [escaped, if_neg (by simp [hb, hslash, hquote]), hkept]
    exact decodes_plain hquote hslash

/-- The characters do not begin with a brace. -/
def NoBrace (cs : List Char) : Prop := ∀ c ds, cs = c :: ds → isBrace c = false

theorem noBrace_kept (c : Char) (rest : List Char) : NoBrace (kept c ++ rest) := by
  intro d ds hd
  unfold kept at hd
  split at hd
  · rw [← (List.cons.inj hd).1]
    rfl
  · next hc =>
    rw [← (List.cons.inj hd).1]
    simpa using hc

theorem isNameChar_special {c : Char} (h : isNameChar c = true) :
    c ≠ '"' ∧ c ≠ '\\' ∧ c ≠ '\x7b' ∧ c ≠ '\x7d' := by
  refine ⟨?_, ?_, ?_, ?_⟩ <;> (rintro rfl; exact absurd h (by decide))

theorem decodes_inBraces {name : String} (h : isName name = true) :
    Decodes (inBraces name) (inBraces name) := by
  have hname : Decodes (name.toList.flatMap ([·])) (name.toList.flatMap ([·])) :=
    decodes_flatMap fun c hc => by
      obtain ⟨hquote, hslash, -⟩ := isNameChar_special (isNameChar_of_mem h hc)
      exact decodes_plain hquote hslash
  rw [List.flatMap_singleton'] at hname
  exact (decodes_plain (by decide) (by decide)).append
    (hname.append (decodes_plain (by decide) (by decide)))

/-! ## What the template makes of it -/

section Splitting

variable {quoted : QuotedText} {offset i : Nat} {cs : List Char}

theorem partsFrom_char {c : Char} (hopen : c ≠ '\x7b') (hslash : c ≠ '\\') :
    partsFrom quoted offset i (c :: cs) =
      partsFrom quoted offset (i + 1) cs >>= fun ps => pure (prepend c ps) := by
  rw [partsFrom]
  · exact hopen
  · exact fun _ _ hc _ => hslash hc

theorem partsFrom_brace {c : Char} (hc : isBrace c = true) :
    partsFrom quoted offset i ('\\' :: c :: cs) =
      partsFrom quoted offset (i + 2) cs >>= fun ps => pure (prepend c ps) := by
  rw [partsFrom, if_pos hc]

/-- A backslash that escapes nothing. -/
theorem partsFrom_slash (hcs : NoBrace cs) :
    partsFrom quoted offset i ('\\' :: cs) =
      partsFrom quoted offset (i + 1) cs >>= fun ps => pure (prepend '\\' ps) := by
  match cs with
  | [] => simp [partsFrom]
  | c :: ds => rw [partsFrom, if_neg (by simp [hcs c ds rfl])]

end Splitting

theorem interpolation_name {name : String} (h : isName name = true) (quoted : QuotedText)
    (offset i : Nat) : interpolation quoted offset i name.toList = .ok (.var name) := by
  have hvar : ∀ o o', Read.program [⟨.name name, o⟩, ⟨.stop, o'⟩] = .ok [.var name] :=
    fun o o' => Read.program_of_operand rfl (.var (by simp))
  unfold interpolation
  simp only [scanAt, scan_name h, Scan.relocate, Scan.result, List.map_cons, List.map_nil,
    Option.map_none]
  exact bind_eq_ok.mpr ⟨_, rfl, bind_eq_ok.mpr ⟨_, hvar _ _, rfl⟩⟩

theorem shown_prepend (ev : Expr → Run Value) (c : Char) (ps : List Part) :
    Eval.shown ev (prepend c ps) =
      Eval.shown ev ps >>= fun t => pure (String.singleton c ++ t) := by
  match ps with
  | [] => rfl
  | .expr e :: ps => rfl
  | .chars cs :: ps =>
    simp only [prepend, Eval.shown, bind_assoc, pure_bind, String.ofList_cons,
      String.append_assoc]

/-- From wherever in the text they stand, the decoded characters `cs` show the characters `text`,
and evaluation changes nothing. -/
def Shows (quoted : QuotedText) (offset : Nat) (s : State) (cs text : List Char) : Prop :=
  ∀ i, ∃ ps, partsFrom quoted offset i cs = .ok ps ∧
    ∀ fuel, Eval.shown (Expr.eval (fuel + 1)) ps s = .done (String.ofList text) s

section Shows

variable {quoted : QuotedText} {offset : Nat} {s : State} {cs text : List Char}

theorem shows_nil : Shows quoted offset s [] [] := fun i =>
  ⟨[], by rw [partsFrom]; rfl, fun _ => rfl⟩

theorem shown_prepend_done {ps : List Part} {fuel : Nat} (c : Char)
    (h : Eval.shown (Expr.eval (fuel + 1)) ps s = .done (String.ofList text) s) :
    Eval.shown (Expr.eval (fuel + 1)) (prepend c ps) s = .done (String.ofList (c :: text)) s := by
  rw [shown_prepend, Run.bind_apply, h, String.ofList_cons]
  rfl

theorem Shows.char (h : Shows quoted offset s cs text) {c : Char} (hopen : c ≠ '\x7b')
    (hslash : c ≠ '\\') : Shows quoted offset s (c :: cs) (c :: text) := by
  intro i
  obtain ⟨ps, hps, hshown⟩ := h (i + 1)
  refine ⟨prepend c ps, ?_, fun fuel => shown_prepend_done c (hshown fuel)⟩
  rw [partsFrom_char hopen hslash, hps]
  rfl

theorem Shows.brace (h : Shows quoted offset s cs text) {c : Char} (hc : isBrace c = true) :
    Shows quoted offset s ('\\' :: c :: cs) (c :: text) := by
  intro i
  obtain ⟨ps, hps, hshown⟩ := h (i + 2)
  refine ⟨prepend c ps, ?_, fun fuel => shown_prepend_done c (hshown fuel)⟩
  rw [partsFrom_brace hc, hps]
  rfl

theorem Shows.slash (h : Shows quoted offset s cs text) (hcs : NoBrace cs) :
    Shows quoted offset s ('\\' :: cs) ('\\' :: text) := by
  intro i
  obtain ⟨ps, hps, hshown⟩ := h (i + 1)
  refine ⟨prepend '\\' ps, ?_, fun fuel => shown_prepend_done '\\' (hshown fuel)⟩
  rw [partsFrom_slash hcs, hps]
  rfl

theorem Shows.name (h : Shows quoted offset s cs text) {name : String} {v : Value}
    (hname : isName name = true) (hv : s.frame.vars.get? name = some v) :
    Shows quoted offset s (inBraces name ++ cs) (v.toText.toList ++ text) := by
  intro i
  obtain ⟨ps, hps, hshown⟩ := h (i + name.toList.length + 2)
  refine ⟨.expr (.var name) :: ps, ?_, fun fuel => ?_⟩
  · have hinner : (name.toList ++ '\x7d' :: cs).takeWhile (· ≠ '\x7d') = name.toList := by
      rw [List.takeWhile_append_of_pos fun c hc => by
        simpa using (isNameChar_special (isNameChar_of_mem hname hc)).2.2.2]
      simp
    have hdrop : (name.toList ++ '\x7d' :: cs).drop (name.toList.length + 1) = cs := by simp
    rw [inBraces, List.cons_append, List.append_assoc, List.singleton_append, partsFrom]
    simp only [hinner, hdrop, interpolation_name hname, hps]
    rw [if_pos (by simp)]
    rfl
  · have hlookup : (Expr.var name).eval (fuel + 1) s = .done v s := by
      rw [Expr.eval_succ]
      simp [Eval.step, Eval.lookup, hv]
    simp only [Eval.shown, Run.bind_apply, hlookup, hshown fuel, Run.pure_apply,
      String.ofList_append, String.ofList_toList]

theorem Shows.chars (h : Shows quoted offset s cs text) {ds : List Char}
    (hds : ∀ c ∈ ds, c ≠ '\x7b' ∧ c ≠ '\\') :
    Shows quoted offset s (ds ++ cs) (ds ++ text) := by
  induction ds with
  | nil => exact h
  | cons c ds ih =>
    obtain ⟨hopen, hslash⟩ := hds c (by simp)
    exact (ih fun d hd => hds d (by simp [hd])).char hopen hslash

/-- What the scanner leaves of characters shows them, unless a backslash at their end escapes what
follows. -/
theorem Shows.kept (h : Shows quoted offset s cs text) {a : List Char}
    (ha : a.getLast? = some '\\' → NoBrace cs) :
    Shows quoted offset s (a.flatMap kept ++ cs) (a ++ text) := by
  induction a with
  | nil => exact h
  | cons c a ih =>
    have hlast : ∀ d, a.getLast? = some d → (c :: a).getLast? = some d := fun d hd => by
      simp [List.getLast?_cons, hd]
    have hrest := ih fun hd => ha (hlast _ hd)
    rw [List.flatMap_cons, List.append_assoc, List.cons_append]
    by_cases hb : isBrace c = true
    · have hkept : Template.kept c = ['\\', c] := if_pos hb
      rw [hkept]
      exact hrest.brace hb
    have hkept : Template.kept c = [c] := if_neg hb
    rw [hkept]
    by_cases hslash : c = '\\'
    · subst hslash
      refine hrest.slash ?_
      match a with
      | [] => exact ha rfl
      | d :: a =>
        rw [List.flatMap_cons, List.append_assoc]
        exact noBrace_kept d _
    · refine hrest.char (fun hopen => hb ?_) hslash
      rw [hopen]
      rfl

theorem Shows.slot (h : Shows quoted offset s cs text) {p : Slot} (hname : isName p.name = true)
    (hv : s.frame.vars.get? p.name = some p.value) :
    Shows quoted offset s (p.before.flatMap Template.kept ++ (inBraces p.name ++ cs))
      (p.shown ++ text) := by
  by_cases hlast : p.before.getLast? = some '\\'
  · -- The backslash and the opening brace after it are one escape; the rest is just characters.
    obtain ⟨b, hb⟩ := List.getLast?_eq_some_iff.mp hlast
    have hclose : Shows quoted offset s ('\x7d' :: cs) ('\x7d' :: text) :=
      h.char (by decide) (by decide)
    have hletters : Shows quoted offset s (p.name.toList ++ '\x7d' :: cs)
        (p.name.toList ++ '\x7d' :: text) := hclose.chars fun c hc => by
      obtain ⟨-, hslash, hopen, -⟩ := isNameChar_special (isNameChar_of_mem hname hc)
      exact ⟨hopen, hslash⟩
    have hescape : Shows quoted offset s ('\\' :: (inBraces p.name ++ cs))
        (inBraces p.name ++ text) := by
      simpa [inBraces] using hletters.brace (c := '\x7b') rfl
    have hwhole := hescape.kept (a := b) fun _ c ds hcs => by
      rw [← (List.cons.inj hcs).1]
      rfl
    rw [p.shown_of_slash hb, hb, List.flatMap_append, List.append_assoc, List.append_assoc]
    exact hwhole
  · have hshown : p.shown = p.before ++ p.value.toText.toList := if_neg hlast
    rw [hshown, List.append_assoc]
    exact (h.name hname hv).kept fun hslash => absurd hslash hlast

/-- The variables of a text, one after the other. -/
theorem Shows.slots (h : Shows quoted offset s cs text) {slots : List Slot}
    (hs : ∀ p ∈ slots, isName p.name = true ∧ s.frame.vars.get? p.name = some p.value) :
    Shows quoted offset s
      ((slots.flatMap fun p => p.before.flatMap Template.kept ++ inBraces p.name) ++ cs)
      (slots.flatMap Slot.shown ++ text) := by
  induction slots with
  | nil => exact h
  | cons p slots ih =>
    obtain ⟨hname, hv⟩ := hs p (by simp)
    have hrest := ih fun q hq => hs q (by simp [hq])
    simpa using hrest.slot hname hv

end Shows

/-! ## Whole texts -/

/-- **What a text with variables shows.**  As it is written, the text is scanned, read as one
expression and evaluated with no effect, and it shows what `shownText` says.  This is what was meant
exactly if no variable directly follows a backslash. -/
theorem writtenText_shows (slots : List Slot) (last : List Char) (s : State)
    (hs : ∀ p ∈ slots, isName p.name = true ∧ s.frame.vars.get? p.name = some p.value) :
    (∃ tokens e, tokenize (writtenText slots last) = .ok tokens ∧
      Read.program tokens = .ok [e] ∧
      ∀ fuel, runStatement (fuel + 2) e s = some (.ok (.text (shownText slots last)), s)) ∧
    (shownText slots last = meantText slots last ↔
      ∀ p ∈ slots, p.before.getLast? ≠ some '\\') := by
  refine ⟨?_, shownText_eq_meantText_iff⟩
  have hlast : Decodes (last.flatMap escaped) (last.flatMap kept) :=
    decodes_flatMap fun c _ => decodes_escaped c
  have hslots : Decodes (slots.flatMap fun p => p.before.flatMap escaped ++ inBraces p.name)
      (slots.flatMap fun p => p.before.flatMap kept ++ inBraces p.name) :=
    decodes_flatMap fun p hp =>
      (decodes_flatMap fun c _ => decodes_escaped c).append (decodes_inBraces (hs p hp).1)
  obtain ⟨quoted, o, hscan, hchars⟩ := scan_quoted (hslots.append hlast)
  have hshows : Shows quoted 0 s quoted.chars (slots.flatMap Slot.shown ++ last) := by
    rw [hchars]
    simpa using (shows_nil.kept (a := last) fun _ => nofun).slots hs
  obtain ⟨ps, hparts, hshown⟩ := hshows 0
  have htokens : tokenize (writtenText slots last) = .ok [⟨.text quoted, 0⟩, ⟨.stop, o⟩] := by
    rw [tokenize, writtenText, hscan]
    rfl
  refine ⟨_, .text quoted 0, htokens, Read.program_of_operand rfl .text, fun fuel => ?_⟩
  have htext : (Expr.text quoted 0).eval (fuel + 2) s =
      .done (.text (shownText slots last)) s := by
    rw [Expr.eval_succ, Eval.step, Eval.text, parts, hparts]
    simp only [Run.bind_apply, hshown fuel]
    rfl
  rw [runStatement, htext]
  rfl

/-- A variable after a letter, and one after a backslash. -/
def slashSlots : List Slot :=
  [⟨['a'], "x", .numeral ⟨16, ['f']⟩⟩, ⟨['\x7d', '\\'], "y", .text "v"⟩]

/-- A state in which they have their values. -/
def slashState : State where
  frame := ((Frame.initial ⟨[], "", ""⟩).bind "x" (.numeral ⟨16, ['f']⟩)).bind "y" (.text "v")
  console := { feed := .script [] }

theorem slashSlots_shows :
    (∀ p ∈ slashSlots, isName p.name = true ∧
      slashState.frame.vars.get? p.name = some p.value) ∧
    (∃ tokens e, tokenize "\"a\x7bx\x7d\\\x7d\\\\\x7by\x7d\"".toList = .ok tokens ∧
      Read.program tokens = .ok [e] ∧
      ∀ fuel, runStatement (fuel + 2) e slashState =
        some (.ok (.text "ab16@f\x7d\x7by\x7d"), slashState)) ∧
    meantText slashSlots [] = "ab16@f\x7d\\v" ∧
    ("ab16@f\x7d\x7by\x7d" = meantText slashSlots [] ↔
      ∀ p ∈ slashSlots, p.before.getLast? ≠ some '\\') := by
  have bound : ∀ p ∈ slashSlots, isName p.name = true ∧
      slashState.frame.vars.get? p.name = some p.value := by
    intro p hp
    simp only [slashSlots, List.mem_cons, List.not_mem_nil, or_false] at hp
    rcases hp with rfl | rfl
    · exact ⟨rfl, rfl⟩
    · exact ⟨rfl, rfl⟩
  have written : writtenText slashSlots [] =
    "\"a\x7bx\x7d\\\x7d\\\\\x7by\x7d\"".toList := by decide
  have shown : shownText slashSlots [] = "ab16@f\x7d\x7by\x7d" := rfl
  have h := writtenText_shows slashSlots [] slashState bound
  rw [written, shown] at h
  exact ⟨bound, h.1, rfl, h.2⟩

end Radix.Template
