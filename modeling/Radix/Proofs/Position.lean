import Mathlib.Data.List.DropRight
import Mathlib.Data.Prod.Lex
import Radix.Proofs.Located
import Radix.Proofs.Token.Seam

/-!
# Proofs/Position — lines and columns are read off what stands before an offset

The lines of a text are what its line ends leave (`intercalate_lines`), so the place of an offset can
be read off the text on both sides of it: before it stand as many line ends as lines were passed,
and what follows the last of them is the beginning of its line (`ofOffset?_of_le`).  More text before
an offset means a later line, or a later column on the same line (`lex_lt_append`).
-/

namespace Radix.Position

/-! ## Lines -/

/-- **The lines of a text, with line ends between them, are the text.** -/
theorem intercalate_lines (cs : List Char) : ['\n'].intercalate (lines cs) = cs := by
  induction cs with
  | nil => rfl
  | cons c cs ih =>
    rw [lines]
    by_cases hc : c = '\n'
    · rw [if_pos hc, List.intercalate_cons_of_ne_nil (lines_ne_nil cs), ih, hc]
      rfl
    · rw [if_neg hc]
      cases hl : lines cs with
      | nil => exact absurd hl (lines_ne_nil cs)
      | cons l ls =>
        rw [hl] at ih
        cases ls with
        | nil =>
          rw [List.intercalate_singleton] at ih
          rw [List.intercalate_singleton, ih]
        | cons m ls =>
          rw [List.intercalate_cons_cons] at ih
          rw [List.intercalate_cons_cons, ← ih]
          rfl

/-- There is no line end on a line. -/
theorem newline_not_mem_lines (cs : List Char) : ∀ l ∈ lines cs, '\n' ∉ l := by
  induction cs with
  | nil => simp [lines]
  | cons c cs ih =>
    rw [lines]
    by_cases hc : c = '\n'
    · rw [if_pos hc]
      exact List.forall_mem_cons.mpr ⟨by simp, ih⟩
    · rw [if_neg hc]
      cases hl : lines cs with
      | nil => exact absurd hl (lines_ne_nil cs)
      | cons l ls =>
        rw [hl] at ih
        obtain ⟨hfirst, hothers⟩ := List.forall_mem_cons.mp ih
        have hlonger : '\n' ∉ c :: l := by simp [hfirst, Ne.symm hc]
        exact List.forall_mem_cons.mpr ⟨hlonger, hothers⟩

/-! ## What stands around an offset -/

/-- The characters after the last line end. -/
def lastLine (cs : List Char) : List Char := cs.rtakeWhile (· ≠ '\n')

/-- The characters before the first line end. -/
def firstLine (cs : List Char) : List Char := cs.takeWhile (· ≠ '\n')

theorem ne_newline_of_not_mem {cs : List Char} (h : '\n' ∉ cs) :
    ∀ c ∈ cs, decide (c ≠ '\n') = true :=
  fun _ hc => decide_eq_true fun he => h (he ▸ hc)

theorem lastLine_append_newline (as bs : List Char) :
    lastLine (as ++ '\n' :: bs) = lastLine bs := by
  unfold lastLine List.rtakeWhile
  rw [List.reverse_append, List.reverse_cons, List.append_assoc]
  exact congrArg List.reverse (Lexical.takeWhile_append_stop (by decide) _ _)

theorem lastLine_append_of_not_mem (as : List Char) {bs : List Char} (h : '\n' ∉ bs) :
    lastLine (as ++ bs) = lastLine as ++ bs := by
  unfold lastLine List.rtakeWhile
  rw [List.reverse_append, List.takeWhile_append_of_pos
    (ne_newline_of_not_mem (by simpa using h)), List.reverse_append, List.reverse_reverse]

theorem lastLine_of_not_mem {cs : List Char} (h : '\n' ∉ cs) : lastLine cs = cs :=
  lastLine_append_of_not_mem [] h

theorem firstLine_of_not_mem {cs : List Char} (h : '\n' ∉ cs) : firstLine cs = cs :=
  List.takeWhile_eq_self_iff.mpr (ne_newline_of_not_mem h)

theorem firstLine_append_newline {as : List Char} (h : '\n' ∉ as) (bs : List Char) :
    firstLine (as ++ '\n' :: bs) = as :=
  (Lexical.takeWhile_append_stop (by decide) as bs).trans (firstLine_of_not_mem h)

/-- The place between two parts of a text whose first line has the given number: as many lines on as
there are line ends before it, and as many columns as there are characters since the last of them.
The carriage returns at the end of its line are not shown. -/
def between (number : Nat) (before after : List Char) : Position where
  line := number + before.count '\n'
  column := (lastLine before).length + 1
  lineText := String.ofList ((lastLine before ++ firstLine after).rdropWhile (· = '\r'))

/-- A place on the first line. -/
theorem between_first (number : Nat) {l after : List Char} {o : Nat} (hl : '\n' ∉ l)
    (ho : o ≤ l.length) (hafter : firstLine after = l.drop o) :
    between number (l.take o) after =
      ⟨number, o + 1, String.ofList (Text.dropEnd (· = '\r') l)⟩ := by
  have hbefore : '\n' ∉ l.take o := fun h => hl (List.mem_of_mem_take h)
  rw [between, List.count_eq_zero.mpr hbefore, lastLine_of_not_mem hbefore, hafter,
    List.take_append_drop, List.length_take, Nat.min_eq_left ho]
  rfl

/-- A place behind the first line is a place in the rest. -/
theorem between_append_newline (number : Nat) {l : List Char} (h : '\n' ∉ l)
    (before after : List Char) :
    between number (l ++ '\n' :: before) after = between (number + 1) before after := by
  rw [between, lastLine_append_newline, List.count_append, List.count_eq_zero.mpr h,
    List.count_cons_self, between]
  congr 1
  omega

/-- The search through the lines of a text, one line at a time. -/
theorem inLines?_intercalate {ls : List (List Char)} (hne : ls ≠ []) (hls : ∀ l ∈ ls, '\n' ∉ l)
    {o : Nat} (ho : o ≤ (['\n'].intercalate ls).length) (number : Nat) :
    inLines? o number ls = some (between number ((['\n'].intercalate ls).take o)
      ((['\n'].intercalate ls).drop o)) := by
  induction ls generalizing o number with
  | nil => exact absurd rfl hne
  | cons l ls ih =>
    obtain ⟨hl, hothers⟩ := List.forall_mem_cons.mp hls
    have hdrop : '\n' ∉ l.drop o := fun h => hl (List.mem_of_mem_drop h)
    cases ls with
    | nil =>
      rw [List.intercalate_singleton] at ho ⊢
      rw [inLines?, if_pos ho, between_first number hl ho (firstLine_of_not_mem hdrop)]
    | cons m ls =>
      rw [List.intercalate_cons_cons, List.append_assoc, List.singleton_append] at ho ⊢
      by_cases hlen : o ≤ l.length
      · rw [inLines?, if_pos hlen, List.take_append_of_le_length hlen,
          List.drop_append_of_le_length hlen,
          between_first number hl hlen (firstLine_append_newline hdrop _)]
      · obtain ⟨k, rfl⟩ : ∃ k, o = l.length + (k + 1) := ⟨o - l.length - 1, by omega⟩
        rw [List.length_append, List.length_cons] at ho
        rw [inLines?, if_neg hlen, List.take_length_add_append, List.drop_length_add_append,
          List.take_succ_cons, List.drop_succ_cons, between_append_newline number hl,
          show l.length + (k + 1) - (l.length + 1) = k by omega]
        exact ih (by simp) hothers (by omega) (number + 1)

/-- **The place of an offset is read off what stands before and behind it.** -/
theorem ofOffset?_of_le {source : List Char} {o : Nat} (ho : o ≤ source.length) :
    ofOffset? source o = some (between 1 (source.take o) (source.drop o)) := by
  have h := inLines?_intercalate (lines_ne_nil source) (newline_not_mem_lines source) (o := o)
  rw [intercalate_lines] at h
  exact h ho 1

/-! ## The order of places -/

/-- **What stands further on has a later line, or a later column on the same line.** -/
theorem lex_lt_append (number : Nat) (before : List Char) {more : List Char} (hmore : more ≠ [])
    (after after' : List Char) :
    toLex ((between number before after).line, (between number before after).column) <
      toLex ((between number (before ++ more) after').line,
        (between number (before ++ more) after').column) := by
  rw [Prod.Lex.toLex_lt_toLex]
  dsimp only [between]
  rw [List.count_append]
  by_cases h : '\n' ∈ more
  · have := List.count_pos_iff.mpr h
    exact .inl (by omega)
  · have := List.length_pos_of_ne_nil hmore
    rw [lastLine_append_of_not_mem before h, List.count_eq_zero.mpr h, List.length_append]
    exact .inr ⟨rfl, by omega⟩

theorem lex_lt_of_lt {source : List Char} {o o' : Nat} {p p' : Position}
    (h : ofOffset? source o = some p) (h' : ofOffset? source o' = some p') (hlt : o < o') :
    toLex (p.line, p.column) < toLex (p'.line, p'.column) := by
  have ho' : o' ≤ source.length := ofOffset?_isSome.mp (by rw [h']; rfl)
  obtain ⟨k, rfl⟩ : ∃ k, o' = o + (k + 1) := ⟨o' - o - 1, by omega⟩
  rw [ofOffset?_of_le (by omega)] at h h'
  obtain rfl := Option.some.inj h
  obtain rfl := Option.some.inj h'
  rw [List.take_add]
  exact lex_lt_append 1 _ (List.ne_nil_of_length_pos (by simp; omega)) _ _

/-- **Offsets and places correspond.**  An offset has a place if and only if it is not behind the end
of the source.  Then its line is one more than the line ends before it, its column is one more than
the characters since the last of them, and the text shown is the whole line around it without the
carriage returns at its end.  A larger offset has a later line, or a later column on the same line,
so that no two offsets share line and column. -/
theorem ofOffset?_resolves (source : List Char) (o : Nat) :
    ((ofOffset? source o).isSome ↔ o ≤ source.length) ∧
    ∀ p, ofOffset? source o = some p →
      p.line = (source.take o).count '\n' + 1 ∧
      p.column = (lastLine (source.take o)).length + 1 ∧
      p.lineText.toList =
        (lastLine (source.take o) ++ firstLine (source.drop o)).rdropWhile (· = '\r') ∧
      ∀ o' p', ofOffset? source o' = some p' →
        (o < o' → toLex (p.line, p.column) < toLex (p'.line, p'.column)) ∧
        ((p.line, p.column) = (p'.line, p'.column) → o = o') := by
  refine ⟨ofOffset?_isSome, fun p hp => ?_⟩
  have ho : o ≤ source.length := ofOffset?_isSome.mp (by rw [hp]; rfl)
  obtain rfl : between 1 (source.take o) (source.drop o) = p :=
    Option.some.inj ((ofOffset?_of_le ho).symm.trans hp)
  refine ⟨Nat.add_comm _ _, rfl, String.toList_ofList, fun o' p' hp' =>
    ⟨lex_lt_of_lt hp hp', fun heq => ?_⟩⟩
  rcases Nat.lt_trichotomy o o' with hlt | rfl | hlt
  · exact absurd (lex_lt_of_lt hp hp' hlt) (by rw [heq]; exact lt_irrefl _)
  · rfl
  · exact absurd (lex_lt_of_lt hp' hp hlt) (by rw [heq]; exact lt_irrefl _)

/-- Two lines that end with a carriage return and a line end, the second one with nothing else on
it, and then one that ends with a line end. -/
def carriageLines : List Char := ['a', '\r', '\n', '\r', '\n', 'b', '\n']

theorem ofOffset?_resolves_carriageLines :
    ofOffset? carriageLines 2 = some ⟨1, 3, "a"⟩ ∧ ofOffset? carriageLines 4 = some ⟨2, 2, ""⟩ ∧
      ofOffset? carriageLines 7 = some ⟨4, 1, ""⟩ ∧ ofOffset? carriageLines 8 = none ∧
      (lastLine (carriageLines.take 4)).length + 1 = 2 ∧
      toLex (1, 3) < toLex (2, 2) ∧ toLex (2, 2) < toLex (4, 1) := by
  have first : ofOffset? carriageLines 2 = some ⟨1, 3, "a"⟩ := by decide
  have second : ofOffset? carriageLines 4 = some ⟨2, 2, ""⟩ := by decide
  have last : ofOffset? carriageLines 7 = some ⟨4, 1, ""⟩ := by decide
  have behind : ¬ (ofOffset? carriageLines 8).isSome := fun h =>
    absurd ((ofOffset?_resolves carriageLines 8).1.mp h) (by decide)
  obtain ⟨-, hcolumn, -, hsecond⟩ := (ofOffset?_resolves carriageLines 4).2 _ second
  obtain ⟨-, -, -, hfirst⟩ := (ofOffset?_resolves carriageLines 2).2 _ first
  exact ⟨first, second, last, Option.not_isSome_iff_eq_none.mp behind, hcolumn.symm,
    (hfirst 4 _ second).1 (by decide), (hsecond 7 _ last).1 (by decide)⟩

end Radix.Position
