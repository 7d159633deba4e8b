import Radix.Proofs.Interpolation
import Radix.Proofs.Token.Cover

/-!
# Proofs/Template/Literal — every text can be written

A text is decoded twice: by the scanner, which takes every backslash away that it understands except
those of braces, and by the template, which takes away those.

```
  written  ──scanner──▶  s.flatMap kept  ──template──▶  s
```

In the middle a backslash of the text is a single one, so it could pass for the escape of a brace
behind it.  It never does: every brace of the text has a backslash of its own there, and two
backslashes in a row are no escape to the template (`partsFrom_kept`).
-/

namespace Radix.Template

open Lexical

/-! ## Writing -/

/-- A character as it is written in a text.  A line end and a tab stand for themselves, or are
written as a letter behind a backslash if they are `lettered`. -/
def escapedAs (lettered : Bool) (c : Char) : List Char :=
  if lettered && c = '\n' then ['\\', 'n']
  else if lettered && c = '\t' then ['\\', 't']
  else escaped c

/-- The text as it is written.  Which of its line ends and tabs are lettered is told by their index
in it. -/
def writtenLiteral (lettered : Nat → Bool) (s : String) : List Char :=
  '"' :: ((s.toList.zipIdx.flatMap fun x => escapedAs (lettered x.2) x.1) ++ ['"'])

/-- What a text without interpolations is split into. -/
def literal (cs : List Char) : List Part := if cs = [] then [] else [.chars cs]

theorem prepend_literal (c : Char) (cs : List Char) :
    prepend c (literal cs) = literal (c :: cs) := by
  cases cs <;> rfl

/-! ## Scanning -/

theorem decodes_escapedAs (lettered : Bool) (c : Char) :
    Decodes (escapedAs lettered c) (kept c) := by
  unfold escapedAs
  split
  · next h =>
    obtain rfl : c = '\n' := by simpa using (Bool.and_eq_true_iff.mp h).2
    exact decodes_escape 'n'
  split
  · next h =>
    obtain rfl : c = '\t' := by simpa using (Bool.and_eq_true_iff.mp h).2
    exact decodes_escape 't'
  · exact decodes_escaped c

/-- **The scanner leaves the text with its braces escaped.** -/
theorem tokenize_writtenLiteral (lettered : Nat → Bool) (s : String) :
    ∃ quoted, tokenize (writtenLiteral lettered s) =
        .ok [⟨.text quoted, 0⟩, ⟨.stop, (writtenLiteral lettered s).length⟩] ∧
      quoted.chars = s.toList.flatMap kept := by
  have hbody : Decodes (s.toList.zipIdx.flatMap fun x => escapedAs (lettered x.2) x.1)
      (s.toList.zipIdx.flatMap fun x => kept x.1) :=
    decodes_flatMap fun x _ => decodes_escapedAs (lettered x.2) x.1
  have hindices : (s.toList.zipIdx.flatMap fun x => kept x.1) = s.toList.flatMap kept := by
    rw [← List.flatMap_map Prod.fst kept, List.zipIdx_map_fst]
  obtain ⟨quoted, o, hscan, hchars⟩ := scan_quoted hbody
  have htokens : tokenize (writtenLiteral lettered s) = .ok [⟨.text quoted, 0⟩, ⟨.stop, o⟩] := by
    rw [tokenize, writtenLiteral, hscan]
    rfl
  obtain ⟨words, hwords, -⟩ := tokens_of_tokenize htokens
  have hstop : o = (writtenLiteral lettered s).length := by
    simpa using congrArg List.getLast? hwords
  exact ⟨quoted, hstop ▸ htokens, hchars.trans hindices⟩

/-! ## Splitting -/

/-- **The template takes the escapes of the braces away, and nothing else.** -/
theorem partsFrom_kept (quoted : QuotedText) (offset i : Nat) (cs : List Char) :
    partsFrom quoted offset i (cs.flatMap kept) = .ok (literal cs) := by
  induction cs generalizing i with
  | nil =>
    rw [List.flatMap_nil, partsFrom]
    rfl
  | cons c cs ih =>
    rw [List.flatMap_cons, ← prepend_literal]
    by_cases hb : isBrace c = true
    · have hkept : kept c = ['\\', c] := if_pos hb
      rw [hkept, List.cons_append, List.singleton_append, partsFrom_brace hb, ih]
      rfl
    have hkept : kept c = [c] := if_neg hb
    rw [hkept, List.singleton_append]
    by_cases hslash : c = '\\'
    · -- The next character, if it is a brace, comes with a backslash in front.
      have hnext : NoBrace (cs.flatMap kept) := by
        cases cs with
        | nil => exact fun d ds h => absurd h (by simp)
        | cons d ds => exact noBrace_kept d _
      rw [hslash, partsFrom_slash hnext, ih]
      rfl
    · have hopen : c ≠ '\x7b' := by
        rintro rfl
        exact hb rfl
      rw [partsFrom_char hopen hslash, ih]
      rfl

theorem shown_literal (ev : Expr → Run Value) (cs : List Char) :
    Eval.shown ev (literal cs) = pure (String.ofList cs) := by
  cases cs with
  | nil => rfl
  | cons c cs =>
    show (pure (String.ofList (c :: cs) ++ "") : Run String) = _
    rw [String.append_empty]

/-! ## Whole texts -/

/-- **Every text can be written.**  Whichever of its line ends and tabs are lettered, the text as it
is written is scanned as one token and read as one expression.  The token is split into the text and
nothing else, whatever its offset, and its evaluation gives the text in every state and leaves the
state as it is. -/
theorem writtenLiteral_gives (lettered : Nat → Bool) (s : String) :
    ∃ quoted tokens, tokens =
        [⟨.text quoted, 0⟩, ⟨.stop, (writtenLiteral lettered s).length⟩] ∧
      tokenize (writtenLiteral lettered s) = .ok tokens ∧
      Read.program tokens = .ok [.text quoted 0] ∧
      (∀ offset, parts quoted offset = .ok (if s = "" then [] else [.chars s.toList])) ∧
      ∀ offset fuel state,
        (Expr.text quoted offset).eval (fuel + 1) state = .done (.text s) state := by
  obtain ⟨quoted, htokens, hchars⟩ := tokenize_writtenLiteral lettered s
  have hparts : ∀ offset, parts quoted offset = .ok (literal s.toList) := fun offset => by
    rw [parts, hchars, partsFrom_kept]
  refine ⟨quoted, _, rfl, htokens, Read.program_of_operand rfl .text, fun offset => ?_,
    fun offset fuel state => ?_⟩
  · simpa [literal] using hparts offset
  · rw [Expr.eval_succ, Eval.step, Eval.text, hparts]
    simp only [shown_literal, String.ofList_toList, pure_bind, Run.pure_apply]

end Radix.Template
