import Radix.Proofs.Numeral.Positional
import Radix.Proofs.Read.RoundTrip
import Radix.Proofs.Token.Print

/-!
# Proofs/Numeral/Spelling — the spelling of a numeral reads back

What a well-formed numeral is shown as spells one lexeme (`Numeral.WellFormed.spelled`): its base is
at most 64, so two decimal digits are enough, and each digit can stand in a bare payload.  Reading
that lexeme lower-cases the digits (`Numeral.WellFormed.ofDigits`).  They stay digits of the base,
because the small form of a letter is worth no more than the letter (`toLower_mem_digitsOf`), but
from base 37 on the numeral is not the same if one of them was a capital.
-/

namespace Radix

theorem toLower_mem_digitsOf {base : Nat} {c : Char} (h : c ∈ digitsOf base) :
    c.toLower ∈ digitsOf base := by
  have small : alphabet.all (fun c =>
      c.toLower ∈ alphabet ∧ alphabet.idxOf c.toLower ≤ alphabet.idxOf c) = true := by decide
  obtain ⟨hc, hb⟩ := mem_digitsOf_iff.mp h
  obtain ⟨hlower, hle⟩ := of_decide_eq_true (List.all_eq_true.mp small c hc)
  exact mem_digitsOf_iff.mpr ⟨hlower, by omega⟩

/-- The capital letters come after the first 36 digits. -/
theorem not_isUpper_of_mem_digitsOf {base : Nat} {c : Char} (hb : base ≤ 36)
    (h : c ∈ digitsOf base) : c.isUpper = false := by
  have none : (digitsOf 36).all (!·.isUpper) = true := by decide
  obtain ⟨hc, hlt⟩ := mem_digitsOf_iff.mp h
  simpa using List.all_eq_true.mp none c (mem_digitsOf_iff.mpr ⟨hc, by omega⟩)

namespace Numeral

/-- The numeral with its capital letters lower-cased. -/
def small (x : Numeral) : Numeral := ⟨x.base, x.digits.map Char.toLower⟩

theorem WellFormed.ofDigits {x : Numeral} (h : x.WellFormed) :
    ofDigits x.base x.digits = .ok x.small := by
  have hlower : Text.lower x.digits = x.digits.map Char.toLower :=
    Text.lower_of_ascii fun c hc => digitsOf_ascii (h.2.2 c hc)
  refine ofDigits_eq_ok.mpr ⟨h.1, h.2.1, ?_, by rw [hlower]; rfl⟩
  rw [hlower]
  intro d hd
  obtain ⟨c, hc, rfl⟩ := List.mem_map.mp hd
  exact toLower_mem_digitsOf (h.2.2 c hc)

theorem small_eq_self_iff {x : Numeral} : x.small = x ↔ ∀ c ∈ x.digits, c.isUpper = false := by
  have hdigits : x.small = x ↔ x.digits.map Char.toLower = x.digits.map id := by
    rw [List.map_id]
    exact ⟨congrArg Numeral.digits, fun h => congrArg (Numeral.mk x.base) h⟩
  rw [hdigits, List.map_inj_left]
  refine forall₂_congr fun c _ => ⟨fun h => ?_, Text.toLower_of_not_isUpper⟩
  rw [← show c.toLower = c from h]
  exact Text.toLower_not_isUpper c

/-! ## The lexeme -/

theorem WellFormed.isPayload {x : Numeral} (h : x.WellFormed) :
    ∀ c ∈ x.digits, Lexical.isPayload x.base c = true := by
  intro c hc
  have hdigit := isDigitOf_iff.mpr (toLower_mem_digitsOf (h.2.2 c hc))
  simp [Lexical.isPayload, hdigit, digitsOf_ascii (h.2.2 c hc)]

theorem WellFormed.spelled {x : Numeral} (h : x.WellFormed) :
    Lexical.Spelled x.lexeme x.spelling := by
  unfold spelling lexeme
  split
  · next hten =>
    have decimals : (digitsOf 10).all Char.isDigit = true := by decide
    have hdecimal : ∀ c ∈ x.digits, c.isDigit = true :=
      fun c hc => List.all_eq_true.mp decimals c (hten ▸ h.2.2 c hc)
    obtain ⟨c, cs, hcs⟩ := List.exists_cons_of_ne_nil h.2.1
    rw [hcs, List.forall_mem_cons] at hdecimal
    exact hcs ▸ .number hdecimal.1 hdecimal.2
  · exact .bare (Lexical.baseDigits_repr (Nat.lt_of_le_of_lt h.1.2 (by decide))) h.isPayload

theorem opens_lexeme (x : Numeral) : x.lexeme.opens = true := by
  unfold lexeme
  split <;> rfl

/-- **A numeral that is printed reads back.**  As a source, what a well-formed numeral is shown as
is one statement, the numeral with its capital letters lower-cased; so it is the numeral itself if
and only if it has no capital letter, which is always so up to base 36. -/
theorem ofSource_toString {x : Numeral} (h : x.WellFormed) :
    Program.ofSource (toString x).toList = .ok [.numeral x.small] ∧
      (Program.ofSource (toString x).toList = .ok [.numeral x] ↔
        ∀ c ∈ x.digits, c.isUpper = false) ∧
      (x.base ≤ 36 → Program.ofSource (toString x).toList = .ok [.numeral x]) := by
  have hread : Program.ofSource (toString x).toList = .ok [.numeral x.small] := by
    have hshown : (toString x).toList = x.spelling := String.toList_ofList
    rw [hshown]
    refine bind_eq_ok.mpr ⟨_, tokenize_eq_ok.mpr (scanFrom_of_spelled h.spelled 0), ?_⟩
    exact Read.program_of_operand x.opens_lexeme (Read.derives_numeral h.ofDigits 0 _)
  have hsame : Program.ofSource (toString x).toList = .ok [.numeral x] ↔
      ∀ c ∈ x.digits, c.isUpper = false := by
    rw [← small_eq_self_iff, hread]
    simp
  exact ⟨hread, hsame, fun hb =>
    hsame.mpr fun c hc => not_isUpper_of_mem_digitsOf hb (h.2.2 c hc)⟩

/-- A capital letter of base 64 is lost, and a numeral of base 36 is kept. -/
theorem ofSource_toString_capital :
    Program.ofSource (toString (⟨64, ['Z', '/', '9']⟩ : Numeral)).toList =
        .ok [.numeral ⟨64, ['z', '/', '9']⟩] ∧
      Program.ofSource (toString (⟨36, ['0', 'z']⟩ : Numeral)).toList =
        .ok [.numeral ⟨36, ['0', 'z']⟩] := by
  have large : WellFormed ⟨64, ['Z', '/', '9']⟩ := by simp [WellFormed, IsBase, digitsOf, alphabet]
  have middle : WellFormed ⟨36, ['0', 'z']⟩ := by simp [WellFormed, IsBase, digitsOf, alphabet]
  exact ⟨(ofSource_toString large).1, (ofSource_toString middle).2.2 (by decide)⟩

end Numeral

end Radix
