import Radix.Proofs.Layout
import Radix.Proofs.Token.Seam

/-!
# Proofs/Token/Print — scanning undoes the printing of tokens

A spelling that stands alone is scanned as the lexeme it spells (`front_of_spelled`), and so it is
with a blank behind it, since no lexeme reaches across a blank.  `Lexeme.written` chooses one
spelling for each lexeme that has one, so a list of lexemes, printed with single blanks between
them, is scanned into these lexemes again.
-/

namespace Radix

namespace Lexical

/-! ## A spelling alone -/

/-- **A spelling that stands alone is scanned as what it spells.** -/
theorem front_of_spelled {l : Lexeme} {w : List Char} (h : Spelled l w) :
    ∃ c cs, w = c :: cs ∧ front c cs = .lexeme l cs.length := by
  cases h with
  | keyword k => cases k <;> exact ⟨_, _, rfl, rfl⟩
  | mark m => cases m <;> exact ⟨_, _, rfl, rfl⟩
  | operator op => cases op <;> exact ⟨_, _, rfl, rfl⟩
  | newline => exact ⟨_, _, rfl, rfl⟩
  | @name s hs =>
    obtain ⟨c, cs, hcs, -⟩ := isName_iff.mp hs
    exact ⟨c, cs, hcs, front_name hcs hs⟩
  | @number d ds hd hds =>
    exact ⟨d, ds, rfl, by rw [front_digit hd, List.takeWhile_eq_self_iff.mpr hds]⟩
  | @bare base ds p hds hp =>
    refine ⟨'b', _, rfl, ?_⟩
    rw [front_based (baseMark?_of_baseDigits hds p), payload_bare hp, List.length_append,
      List.length_cons]
    exact congrArg _ (by omega)
  | @enclosed base ds p hds hp =>
    refine ⟨'b', _, rfl, ?_⟩
    rw [front_based (baseMark?_of_baseDigits hds _), payload_enclosed hp, List.length_append,
      List.length_cons, List.length_cons, List.length_append, List.length_singleton]
    exact congrArg _ (by omega)
  | @text v ps hv =>
    refine ⟨'"', _, rfl, ?_⟩
    rw [front_quote, decodeText_of_writes hv, List.length_append, List.length_singleton,
      Nat.add_comm]
    rfl

end Lexical

open Lexical

theorem scanFrom_of_spelled {l : Lexeme} {w : List Char} (h : Spelled l w) (o : Nat) :
    scanFrom o w = ⟨[⟨l, o⟩, ⟨.stop, o + w.length⟩], none⟩ := by
  obtain ⟨c, cs, rfl, hfront⟩ := front_of_spelled h
  rw [scanFrom, hfront]
  simp [scanFrom, Scan.prepend, Nat.add_assoc]

/-! ## Spellings with blanks between them -/

/-- A blank in front of a source is passed over. -/
theorem scanFrom_blank {c : Char} (h : isGap c = true) (o : Nat) (cs : List Char) :
    scanFrom o (c :: cs) = scanFrom (o + 1) cs := by
  rw [scanFrom, front, if_pos h]
  cases cs with
  | nil => rfl
  | cons d ds =>
    by_cases hd : isGap d = true
    · -- Both blanks belong to one gap.
      rw [scanFrom, front, if_pos hd, List.takeWhile_cons_of_pos hd]
      simp only [List.length_cons, List.drop_succ_cons]
      congr 1
      omega
    · rw [List.takeWhile_cons_of_neg hd]
      rfl

theorem scanFrom_spelled_append {l : Lexeme} {w : List Char} (h : Spelled l w) (o : Nat)
    (rest : List Char) :
    scanFrom o (w ++ ' ' :: rest) = (scanFrom (o + w.length + 1) rest).prepend ⟨l, o⟩ := by
  obtain ⟨c, cs, rfl, hfront⟩ := front_of_spelled h
  rw [List.cons_append, scanFrom, front_append_seam isSeam_blank hfront]
  dsimp only
  rw [List.drop_left, scanFrom_blank (by decide)]
  rfl

/-! ## Printing -/

/-- How a character is written between quotes: with a backslash if it is one, or a quote. -/
def quotedChar (c : Char) : List Char := if c = '\\' || c = '"' then ['\\', c] else [c]

namespace Lexeme

/-- How a lexeme is printed: a payload in parentheses, and of a text only what has to be escaped. -/
def written : Lexeme → List Char
  | .based base payload => 'b' :: ((Nat.repr base).toList ++ '@' :: '(' :: (payload ++ [')']))
  | .number digits => digits
  | .text quoted => '"' :: (quoted.chars.flatMap quotedChar ++ ['"'])
  | .name s => s.toList
  | .keyword k => k.spelling.toList
  | .mark m => m.spelling.toList
  | .operator op => op.symbol.toList
  | .newline => ['\n']
  | .stop => []

/-- Can the lexeme be printed?  The end of a source cannot, and names, numbers and based numerals
only if a source can hold them. -/
def Writable : Lexeme → Prop
  | .based base payload => base ≤ 99 ∧ ')' ∉ payload
  | .number digits => digits ≠ [] ∧ digits.all Char.isDigit = true
  | .name s => isName s = true
  | .stop => False
  | .text _ | .keyword _ | .mark _ | .operator _ | .newline => True

instance : DecidablePred Writable
  | .based _ _ | .number _ => inferInstanceAs (Decidable (_ ∧ _))
  | .name _ => inferInstanceAs (Decidable (_ = _))
  | .stop => inferInstanceAs (Decidable False)
  | .text _ | .keyword _ | .mark _ | .operator _ | .newline => inferInstanceAs (Decidable True)

end Lexeme

/-- Lexemes in a row, with single blanks between them. -/
def printed (ls : List Lexeme) : List Char := [' '].intercalate (ls.map Lexeme.written)

theorem printed_nil : printed [] = [] := rfl

theorem printed_singleton (l : Lexeme) : printed [l] = l.written := List.intercalate_singleton

theorem printed_cons_cons (l m : Lexeme) (ls : List Lexeme) :
    printed (l :: m :: ls) = l.written ++ ' ' :: printed (m :: ls) := by
  rw [printed, List.map_cons, List.map_cons, List.intercalate_cons_cons, List.append_assoc]
  rfl

/-- Escaped as it is printed, a text stands for itself. -/
theorem writes_quotedChar (column : Nat) (cs : List Char) :
    ∃ ps, Writes column (cs.flatMap quotedChar) ps ∧ ps.map (·.1) = cs := by
  induction cs generalizing column with
  | nil => exact ⟨[], .nil, rfl⟩
  | cons c cs ih =>
    rw [List.flatMap_cons, quotedChar]
    by_cases hslash : c = '\\'
    · obtain ⟨ps, hps, rfl⟩ := ih (column + 2)
      subst hslash
      exact ⟨_, .itself (by decide) (by decide) (by decide) hps, rfl⟩
    by_cases hquote : c = '"'
    · obtain ⟨ps, hps, rfl⟩ := ih (column + 2)
      subst hquote
      exact ⟨_, .itself (by decide) (by decide) (by decide) hps, rfl⟩
    · obtain ⟨ps, hps, rfl⟩ := ih (column + 1)
      rw [if_neg (by simp [hslash, hquote])]
      exact ⟨_, .plain hquote hslash hps, rfl⟩

/-- **What is printed spells the lexeme**, up to the places in a text. -/
theorem Lexeme.Writable.spelled {l : Lexeme} (h : l.Writable) :
    ∃ l', Spelled l' l.written ∧ l'.bare = l.bare := by
  cases l with
  | based base payload =>
    exact ⟨_, .enclosed (baseDigits_repr (Nat.lt_succ_of_le h.1)) h.2, rfl⟩
  | number digits =>
    obtain ⟨d, ds, rfl⟩ := List.exists_cons_of_ne_nil h.1
    obtain ⟨hd, hds⟩ := List.forall_mem_cons.mp (List.all_eq_true.mp h.2)
    exact ⟨_, .number hd hds, rfl⟩
  | text quoted =>
    obtain ⟨ps, hps, hchars⟩ := writes_quotedChar 1 quoted.chars
    exact ⟨_, .text hps, by simp only [bare, quotedText, hchars]⟩
  | name s => exact ⟨_, .name h, rfl⟩
  | keyword k => exact ⟨_, .keyword k, rfl⟩
  | mark m => exact ⟨_, .mark m, rfl⟩
  | operator op => exact ⟨_, .operator op, rfl⟩
  | newline => exact ⟨_, .newline, rfl⟩
  | stop => exact h.elim

/-- A run of the scanner over printed lexemes, one lexeme and the blank behind it at a time. -/
theorem scanFrom_printed {ls : List Lexeme} (h : ∀ l ∈ ls, l.Writable) (o : Nat) :
    ∃ ts, scanFrom o (printed ls) = ⟨ts, none⟩ ∧
      ts.map (·.lexeme.bare) = ls.map Lexeme.bare ++ [.stop] := by
  induction ls generalizing o with
  | nil => exact ⟨[⟨.stop, o⟩], by rw [printed_nil, scanFrom], rfl⟩
  | cons l ls ih =>
    obtain ⟨l', hspelled, hbare⟩ := (h l (by simp)).spelled
    cases ls with
    | nil =>
      refine ⟨[⟨l', o⟩, ⟨.stop, o + l.written.length⟩], ?_, by rw [List.map_cons, hbare]; rfl⟩
      rw [printed_singleton, scanFrom_of_spelled hspelled]
    | cons m ls =>
      obtain ⟨ts, hts, hmap⟩ := ih (fun k hk => h k (by simp [hk])) (o + l.written.length + 1)
      refine ⟨⟨l', o⟩ :: ts, ?_, by rw [List.map_cons, hmap, hbare]; rfl⟩
      rw [printed_cons_cons, scanFrom_spelled_append hspelled, hts]
      rfl

/-- **Scanning undoes printing.**  Lexemes that can be printed, printed with single blanks between
them, are scanned into the same lexemes in the same order, texts by their characters, and then the
end of the source. -/
theorem tokenize_printed {ls : List Lexeme} (h : ∀ l ∈ ls, l.Writable) :
    ∃ ts, tokenize (printed ls) = .ok ts ∧
      ts.map (·.lexeme.bare) = ls.map Lexeme.bare ++ [.stop] := by
  obtain ⟨ts, hts, hmap⟩ := scanFrom_printed h 0
  exact ⟨ts, tokenize_eq_ok.mpr hts, hmap⟩

/-- Lexemes that would run together without the blanks, or that hold what means something else
elsewhere. -/
def oddLexemes : List Lexeme :=
  [.name "b16", .mark .at, .number ['0', '0', '7'], .based 7 ['(', '"', '#', ' ', '\n'],
   .mark .assign, .operator .eq, .mark .bang, .operator .strictEq, .keyword .fnWord, .name "fn2",
   .newline, .text ⟨['a', '\\', '"', 'n', '\n', '\x7b', '#'], []⟩, .based 99 []]

theorem tokenize_oddLexemes :
    printed oddLexemes = ("b16 @ 007 b7@((\"# \n) = == ! === fn fn2 \n " ++
        "\"a\\\\\\\"n\n\x7b#\" b99@()").toList ∧
      ∃ ts, tokenize (printed oddLexemes) = .ok ts ∧
        ts.map (·.lexeme.bare) = oddLexemes.map Lexeme.bare ++ [.stop] :=
  ⟨by decide, tokenize_printed (by decide)⟩

end Radix
