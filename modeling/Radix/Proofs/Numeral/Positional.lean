import Mathlib.Data.List.GetD
import Mathlib.Data.Nat.Digits.Defs
import Radix.Proofs.Numeral.WellFormed

/-!
# Proofs/Numeral/Positional — digit strings and the numbers they stand for

    number ──ofNat──▸ numeral without leading zeros ──toNat──▸ the number
    numeral ──toNat──▸ its value ──ofNat──▸ the numeral without its leading zeros

A digit is worth its place in the alphabet, and a numeral stands for the number with these digits in
positional notation (`Numeral.value`), which is what reading it off gives
(`Numeral.WellFormed.toNat_eq`).  A canonical numeral has the digits of its value
(`Numeral.WellFormed.digitValues_value`), and trimming a numeral keeps its value, so that writing
the value trims (`Numeral.WellFormed.ofNat_value`).
-/

namespace Radix

/-! ## Digits and their worth -/

theorem alphabet_nodup : alphabet.Nodup := by decide

/-- The digits of a base are the symbols that are worth less. -/
theorem mem_digitsOf_iff {base : Nat} {c : Char} :
    c ∈ digitsOf base ↔ c ∈ alphabet ∧ alphabet.idxOf c < base := by
  rw [digitsOf, List.mem_take_iff_getElem]
  constructor
  · rintro ⟨i, hi, rfl⟩
    have hlen : i < alphabet.length := by omega
    refine ⟨List.getElem_mem hlen, ?_⟩
    rw [alphabet_nodup.idxOf_getElem i hlen]
    omega
  · rintro ⟨hc, hb⟩
    have hlen := List.idxOf_lt_length_of_mem hc
    exact ⟨alphabet.idxOf c, by omega, List.getElem_idxOf hlen⟩

theorem digitValue?_of_mem {base : Nat} {c : Char} (h : c ∈ digitsOf base) :
    digitValue? base c = some (alphabet.idxOf c) := by
  obtain ⟨hc, hb⟩ := mem_digitsOf_iff.mp h
  obtain ⟨i, hi⟩ := Option.isSome_iff_exists.mp (List.isSome_idxOf?.mpr hc)
  obtain ⟨hlen, rfl, -⟩ := List.idxOf?_eq_some_iff.mp hi
  have hidx := alphabet_nodup.idxOf_getElem i hlen
  rw [digitValue?, hi, hidx, Option.filter_some, if_pos (by simpa [hidx] using hb)]

/-- The symbol of a digit is worth the digit. -/
theorem idxOf_getD {d : Nat} (h : d < 64) : alphabet.idxOf (alphabet.getD d '0') = d := by
  have hlen : d < alphabet.length := h
  rw [List.getD_eq_getElem _ _ hlen, alphabet_nodup.idxOf_getElem d hlen]

theorem getD_idxOf {c : Char} (h : c ∈ alphabet) : alphabet.getD (alphabet.idxOf c) '0' = c := by
  have hlen := List.idxOf_lt_length_of_mem h
  rw [List.getD_eq_getElem _ _ hlen, List.getElem_idxOf hlen]

/-- Only one symbol is worth nothing. -/
theorem idxOf_eq_zero {c : Char} : alphabet.idxOf c = 0 ↔ c = '0' := by
  rw [show alphabet = '0' :: alphabet.tail from rfl, List.idxOf_cons]
  by_cases h : c = '0'
  · simp [h]
  · have hne : ('0' == c) = false := beq_eq_false_iff_ne.mpr (Ne.symm h)
    simp [h, hne]

/-! ## The digits of a number -/

theorem digitValues_of_pos {base n : Nat} (hb : 2 ≤ base) (hn : 0 < n) (acc : List Nat) :
    digitValues base n acc = (base.digits n).reverse ++ acc := by
  fun_induction digitValues base n acc with
  | case1 n acc h =>
    rw [Nat.digits_of_lt base n (by omega) (by omega)]
    rfl
  | case2 n acc h ih =>
    have hquot : 0 < n / base := Nat.div_pos (by omega) (by omega)
    rw [ih hquot, Nat.digits_def' (by omega) hn, List.reverse_cons, List.append_assoc]
    rfl

/-- The digits of a number stand for it. -/
theorem ofDigits_digitValues {base : Nat} (hb : 2 ≤ base) (n : Nat) :
    Nat.ofDigits base (digitValues base n []).reverse = n := by
  rcases Nat.eq_zero_or_pos n with rfl | hn
  · rw [digitValues_of_lt (by omega)]
    rfl
  · rw [digitValues_of_pos hb hn, List.append_nil, List.reverse_reverse, Nat.ofDigits_digits]

namespace Numeral

/-! ## The number a numeral stands for -/

/-- What the digits are worth, most significant first. -/
def worths (x : Numeral) : List Nat := x.digits.map alphabet.idxOf

/-- **The number that a numeral stands for** in positional notation. -/
def value (x : Numeral) : Nat := Nat.ofDigits x.base x.worths.reverse

/-- Reading goes from the front, so what was read before is shifted by the digits still to come. -/
theorem valueFrom_eq {base : Nat} (acc : Nat) {cs : List Char} (h : ∀ c ∈ cs, c ∈ digitsOf base) :
    valueFrom base acc cs =
      .ok (acc * base ^ cs.length + Nat.ofDigits base (cs.map alphabet.idxOf).reverse) := by
  induction cs generalizing acc with
  | nil => simp [valueFrom]
  | cons c cs ih =>
    rw [valueFrom, digitValue?_of_mem (h c (by simp))]
    simp only [ih _ fun d hd => h d (by simp [hd]), List.map_cons, Nat.ofDigits_reverse_cons,
      List.length_cons, List.length_map]
    congr 1
    ring

theorem WellFormed.toNat_eq {x : Numeral} (h : x.WellFormed) : x.toNat = .ok x.value := by
  rw [toNat, valueFrom_eq 0 h.2.2, Nat.zero_mul, Nat.zero_add, value, worths]

theorem WellFormed.worths_lt {x : Numeral} (h : x.WellFormed) : ∀ d ∈ x.worths, d < x.base := by
  intro d hd
  obtain ⟨c, hc, rfl⟩ := List.mem_map.mp hd
  exact (mem_digitsOf_iff.mp (h.2.2 c hc)).2

/-- The digits can be written again from what they are worth. -/
theorem WellFormed.map_worths {x : Numeral} (h : x.WellFormed) :
    x.worths.map (alphabet.getD · '0') = x.digits := by
  have hsymbols : ∀ c ∈ x.digits, alphabet.getD (alphabet.idxOf c) '0' = c :=
    fun c hc => getD_idxOf (mem_digitsOf_iff.mp (h.2.2 c hc)).1
  rw [worths, List.map_map]
  exact (List.map_congr_left hsymbols).trans (List.map_id' _)

/-- A number that is written in a base is what the numeral stands for. -/
theorem value_of_ofNat {base n : Nat} {x : Numeral} (h : ofNat base n = .ok x) : x.value = n := by
  obtain ⟨hb, rfl⟩ := ofNat_eq_ok.mp h
  have hworths : ∀ d ∈ digitValues base n [], alphabet.idxOf (alphabet.getD d '0') = d :=
    fun d hd => idxOf_getD (Nat.lt_of_lt_of_le (digitValues_lt hb.1 n [] (by simp) d hd) hb.2)
  simp only [value, worths, List.map_map, Function.comp_def]
  rw [List.map_congr_left hworths, List.map_id', ofDigits_digitValues hb.1]

/-! ## Leading zeros -/

/-- The digits without their leading zeros, except that one digit is kept. -/
def dropZeros : List Char → List Char
  | '0' :: c :: cs => dropZeros (c :: cs)
  | cs => cs

/-- The numeral without its leading zeros. -/
def trimmed (x : Numeral) : Numeral := ⟨x.base, dropZeros x.digits⟩

/-- A numeral is canonical when it is a single zero or does not begin with one. -/
def Canonical (x : Numeral) : Prop := x.digits = ['0'] ∨ x.digits.head? ≠ some '0'

instance (x : Numeral) : Decidable x.Canonical := inferInstanceAs (Decidable (_ ∨ _))

theorem zeros_append_dropZeros (cs : List Char) :
    ∃ k, List.replicate k '0' ++ dropZeros cs = cs := by
  fun_induction dropZeros cs with
  | case1 c cs ih =>
    obtain ⟨k, hk⟩ := ih
    exact ⟨k + 1, by rw [List.replicate_succ, List.cons_append, hk]⟩
  | case2 cs _ => exact ⟨0, rfl⟩

theorem dropZeros_ne_nil {cs : List Char} (h : cs ≠ []) : dropZeros cs ≠ [] := by
  fun_induction dropZeros cs with
  | case1 c cs ih => exact ih (by simp)
  | case2 cs _ => exact h

theorem WellFormed.trimmed {x : Numeral} (h : x.WellFormed) : x.trimmed.WellFormed := by
  obtain ⟨k, hk⟩ := zeros_append_dropZeros x.digits
  refine ⟨h.1, dropZeros_ne_nil h.2.1, fun c hc => h.2.2 c ?_⟩
  rw [← hk]
  exact List.mem_append_right _ hc

theorem value_trimmed (x : Numeral) : x.trimmed.value = x.value := by
  obtain ⟨k, hk⟩ := zeros_append_dropZeros x.digits
  have hworths : x.worths = List.replicate k 0 ++ x.trimmed.worths := by
    rw [worths, ← hk, List.map_append, List.map_replicate, idxOf_eq_zero.mpr rfl]
    rfl
  rw [value, value, hworths, List.reverse_append, List.reverse_replicate,
    Nat.ofDigits_append_replicate_zero]
  rfl

theorem canonical_trimmed (x : Numeral) : x.trimmed.Canonical := by
  obtain ⟨base, digits⟩ := x
  simp only [Canonical, trimmed]
  fun_induction dropZeros digits with
  | case1 c cs ih => exact ih
  | case2 cs h =>
    rcases cs with _ | ⟨c, _ | ⟨d, ds⟩⟩
    · simp
    · by_cases hc : c = '0' <;> simp [hc]
    · exact .inr fun hc => h d ds (by simpa using hc)

theorem Canonical.trimmed_eq {x : Numeral} (h : x.Canonical) : x.trimmed = x := by
  obtain ⟨base, digits⟩ := x
  rw [trimmed]
  fun_cases dropZeros digits with
  | case1 c cs => simp [Canonical] at h
  | case2 cs _ => rfl

theorem trimmed_eq_self_iff {x : Numeral} : x.trimmed = x ↔ x.Canonical :=
  ⟨fun h => h ▸ x.canonical_trimmed, Canonical.trimmed_eq⟩

/-! ## Writing what was read -/

/-- Digits without a leading zero are the digits of the number they stand for. -/
theorem WellFormed.digitValues_value {x : Numeral} (h : x.WellFormed) (hx : x.Canonical) :
    digitValues x.base x.value [] = x.worths := by
  have hb : 2 ≤ x.base := h.1.1
  rcases hx with hzero | hhead
  · have hworths : x.worths = [0] := by rw [worths, hzero]; rfl
    have hvalue : x.value = 0 := by rw [value, hworths]; rfl
    rw [hvalue, hworths, digitValues_of_lt (by omega)]
  · obtain ⟨c, cs, hcs⟩ := List.exists_cons_of_ne_nil h.2.1
    have hworths : x.worths.reverse = (cs.map alphabet.idxOf).reverse ++ [alphabet.idxOf c] := by
      rw [worths, hcs, List.map_cons, List.reverse_cons]
    have hc : alphabet.idxOf c ≠ 0 := by
      rw [ne_eq, idxOf_eq_zero]
      simpa [hcs] using hhead
    have hdigits : x.base.digits x.value = x.worths.reverse :=
      Nat.digits_ofDigits x.base (by omega) _ (by simpa using h.worths_lt) (by simp [hworths, hc])
    have hpos : x.value ≠ 0 := by
      rw [← Nat.digits_ne_nil_iff_ne_zero (b := x.base), hdigits, hworths]
      simp
    rw [digitValues_of_pos hb (by omega), hdigits, List.reverse_reverse, List.append_nil]

/-- **A numeral that is written from the number it stands for** is that numeral without its leading
zeros. -/
theorem WellFormed.ofNat_value {x : Numeral} (h : x.WellFormed) :
    ofNat x.base x.value = .ok x.trimmed := by
  have hdigits : digitValues x.base x.value [] = x.trimmed.worths := by
    rw [← x.value_trimmed]
    exact h.trimmed.digitValues_value x.canonical_trimmed
  refine ofNat_eq_ok.mpr ⟨h.1, ?_⟩
  rw [hdigits, h.trimmed.map_worths]
  rfl

/-- A number is written without leading zeros: written again from the value, it is what it was. -/
theorem canonical_of_ofNat {base n : Nat} {x : Numeral} (h : ofNat base n = .ok x) :
    x.Canonical := by
  have hagain := (wellFormed_of_ofNat h).ofNat_value
  have hbase : x.base = base := by rw [(ofNat_eq_ok.mp h).2]
  rw [value_of_ofNat h, hbase, h] at hagain
  exact trimmed_eq_self_iff.mp (Except.ok.inj hagain).symm

/-- **Digits and numbers correspond.**  In every base each number is written, as a well-formed
numeral without leading zeros that stands for it; and each well-formed numeral stands for a number,
which is written as that numeral without its leading zeros. -/
theorem numbers_correspond :
    (∀ base n, IsBase base → ∃ x, ofNat base n = .ok x ∧
      x.base = base ∧ x.WellFormed ∧ x.Canonical ∧ x.toNat = .ok n) ∧
    ∀ x : Numeral, x.WellFormed → x.toNat = .ok x.value ∧
      ofNat x.base x.value = .ok x.trimmed ∧ (ofNat x.base x.value = .ok x ↔ x.Canonical) := by
  refine ⟨fun base n hb => ?_, fun x hx => ⟨hx.toNat_eq, hx.ofNat_value, ?_⟩⟩
  · obtain ⟨x, h⟩ := ofNat_ok hb n
    have hx := wellFormed_of_ofNat h
    have hbase : x.base = base := by rw [(ofNat_eq_ok.mp h).2]
    exact ⟨x, h, hbase, hx, canonical_of_ofNat h, value_of_ofNat h ▸ hx.toNat_eq⟩
  · rw [hx.ofNat_value, Except.ok.injEq, trimmed_eq_self_iff]

/-- In base 64 the number 4095 is written with two digits, and leading zeros are lost. -/
theorem numbers_correspond_hex :
    (∃ x, ofNat 64 4095 = .ok x ∧ x.base = 64 ∧ x.WellFormed ∧ x.Canonical ∧ x.toNat = .ok 4095) ∧
    toNat ⟨16, ['0', '0', 'f', 'f']⟩ = .ok 255 ∧ ofNat 16 255 = .ok ⟨16, ['f', 'f']⟩ ∧
      ¬ Canonical ⟨16, ['0', '0', 'f', 'f']⟩ := by
  have hex : WellFormed ⟨16, ['0', '0', 'f', 'f']⟩ := by
    simp [WellFormed, IsBase, digitsOf, alphabet]
  obtain ⟨read, written, -⟩ := numbers_correspond.2 ⟨16, ['0', '0', 'f', 'f']⟩ hex
  exact ⟨numbers_correspond.1 64 4095 (by decide), read, written, by decide⟩

end Numeral

end Radix
