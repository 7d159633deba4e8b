import Mathlib.Data.List.TakeWhile

/-!
# Proofs/Text/Enclosed — what stands before a closing character

Braces in a text and parentheses around a payload are closed by the first closing character that
follows.  What they enclose is taken by `takeWhile`, and whether something is left decides if they
are closed at all.
-/

namespace Radix.Text

variable {d : Char} {cs : List Char}

theorem not_mem_enclosed (d : Char) (cs : List Char) : d ∉ cs.takeWhile (· ≠ d) := by
  intro h
  simpa using List.mem_takeWhile_imp h

/-- If something is left, it begins with the closing character. -/
theorem eq_append_of_closed (h : (cs.takeWhile (· ≠ d)).length < cs.length) :
    cs = cs.takeWhile (· ≠ d) ++ d :: cs.drop ((cs.takeWhile (· ≠ d)).length + 1) := by
  induction cs with
  | nil => simp at h
  | cons c cs ih =>
    by_cases hc : c = d
    · simp [hc]
    · have htake : (c :: cs).takeWhile (· ≠ d) = c :: cs.takeWhile (· ≠ d) := by simp [hc]
      rw [htake] at h ⊢
      simp only [List.length_cons, List.cons_append, List.drop_succ_cons] at h ⊢
      exact congrArg (c :: ·) (ih (by omega))

/-- If nothing is left, there is no closing character. -/
theorem not_mem_of_unclosed (h : ¬ (cs.takeWhile (· ≠ d)).length < cs.length) : d ∉ cs := by
  have whole : cs.takeWhile (· ≠ d) = cs :=
    (List.takeWhile_prefix _).eq_of_length_le (Nat.le_of_not_lt h)
  rw [← whole]
  exact not_mem_enclosed d cs

/-- The first closing character closes. -/
theorem enclosed_append (h : d ∉ cs) (rest : List Char) :
    (cs ++ d :: rest).takeWhile (· ≠ d) = cs := by
  rw [List.takeWhile_append_of_pos fun c hc => by
    simpa using fun he : c = d => h (he ▸ hc)]
  simp

end Radix.Text
