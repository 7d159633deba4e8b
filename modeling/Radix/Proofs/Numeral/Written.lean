import Radix.Proofs.Numeral.WellFormed

/-!
# Proofs/Numeral/Written — reading a numeral's own digits gives the numeral

A numeral that was read keeps its digits in lower case.  Lower-casing leaves no capital letter of
ASCII behind (`Text.lower_not_isUpper`), and all digits are of ASCII, so reading the digits once
more changes nothing (`Numeral.Written.ofDigits`).
-/

namespace Radix

namespace Text

theorem isUpper_iff {c : Char} : c.isUpper = true ↔ 65 ≤ c.toNat ∧ c.toNat ≤ 90 := by
  have upper : c.isUpper = true ↔ 'A'.val ≤ c.val ∧ c.val ≤ 'Z'.val := decide_eq_true_iff
  rw [upper, UInt32.le_iff_toNat_le, UInt32.le_iff_toNat_le]
  rfl

theorem toLower_not_isUpper (c : Char) : c.toLower.isUpper = false := by
  rw [Bool.eq_false_iff, Ne, isUpper_iff]
  unfold Char.toLower
  split
  · next h =>
    -- The small letters stand 32 places behind the capitals.
    obtain ⟨low, high⟩ := isUpper_iff.mp (decide_eq_true h)
    have small : (c.val + ('a'.val - 'A'.val)).toNat = c.toNat + 32 := by
      rw [UInt32.toNat_add]
      exact Nat.mod_eq_of_lt (by change c.toNat + 32 < _; omega)
    rintro ⟨-, le⟩
    have : c.toNat + 32 ≤ 90 := small ▸ le
    omega
  · next h => exact fun upper => h (of_decide_eq_true (isUpper_iff.mpr upper))

theorem toLower_of_not_isUpper {c : Char} (h : c.isUpper = false) : c.toLower = c :=
  dif_neg (of_decide_eq_false h)

/-- No run of capital letters has small forms among the capitals of ASCII. -/
theorem caseRuns_clear : ∀ r ∈ caseRuns,
    (r.last : Int) + r.shift < 65 ∨ 90 < (r.first : Int) + r.shift := by
  have h : caseRuns.all (fun r =>
      (r.last : Int) + r.shift < 65 || 90 < (r.first : Int) + r.shift) = true := by decide
  intro r hr
  simpa using List.all_eq_true.mp h r hr

theorem toNat_ofNat (n : Nat) : (Char.ofNat n).toNat = n ∨ (Char.ofNat n).toNat = 0 := by
  by_cases h : n.isValidChar
  · rw [Char.ofNat, dif_pos h]
    exact .inl rfl
  · rw [Char.ofNat, dif_neg h]
    exact .inr rfl

theorem lowerChar_not_isUpper {c d : Char} (h : d ∈ lowerChar c) : d.isUpper = false := by
  unfold lowerChar at h
  split at h
  · rw [List.mem_singleton.mp h]
    exact toLower_not_isUpper c
  · next hc =>
    split at h
    · simp only [List.mem_cons, List.not_mem_nil, or_false] at h
      rcases h with rfl | rfl <;> decide
    · split at h
      · next r hr =>
        have hm := caseRuns_clear r (List.mem_of_find?_eq_some hr)
        have hh := List.find?_some hr
        simp only [CaseRun.holds, Bool.and_eq_true, decide_eq_true_eq] at hh
        rw [List.mem_singleton.mp h, Bool.eq_false_iff, Ne, isUpper_iff]
        rcases toNat_ofNat (c.toNat + r.shift).toNat with hn | hn <;> omega
      · rw [List.mem_singleton.mp h, Bool.eq_false_iff, Ne, isUpper_iff]
        omega

theorem lowerAfter_not_isUpper {before cs : List Char} {d : Char}
    (h : d ∈ lowerAfter before cs) : d.isUpper = false := by
  induction cs generalizing before with
  | nil => exact absurd h (by simp [lowerAfter])
  | cons c cs ih =>
    rcases List.mem_append.mp h with h | h
    · split at h
      · rw [List.mem_singleton.mp h, lowerSigma]
        split <;> decide
      · exact lowerChar_not_isUpper h
    · exact ih h

/-- **Lower-casing leaves no capital letter of ASCII.** -/
theorem lower_not_isUpper {cs : List Char} {d : Char} (h : d ∈ lower cs) : d.isUpper = false :=
  lowerAfter_not_isUpper h

end Text

/-- Some written digits stand for the numeral. -/
def Numeral.Written (x : Numeral) : Prop := ∃ base digits, Numeral.ofDigits base digits = .ok x

theorem digitsOf_ascii {base : Nat} {c : Char} (h : c ∈ digitsOf base) : c.toNat < 128 := by
  have ascii : alphabet.all (·.toNat < 128) = true := by decide
  simpa using List.all_eq_true.mp ascii c (List.mem_of_mem_take h)

/-- **Reading the digits of a numeral that was read gives it back.** -/
theorem Numeral.Written.ofDigits {x : Numeral} (h : x.Written) :
    Numeral.ofDigits x.base x.digits = .ok x := by
  obtain ⟨base, digits, hd⟩ := h
  obtain ⟨hb, hne, hall, rfl⟩ := ofDigits_eq_ok.mp hd
  have same : Text.lower (Text.lower digits) = Text.lower digits := by
    rw [Text.lower_of_ascii fun c hc => digitsOf_ascii (hall c hc)]
    have fixed : ∀ c ∈ Text.lower digits, c.toLower = id c := fun c hc =>
      Text.toLower_of_not_isUpper (Text.lower_not_isUpper hc)
    rw [List.map_congr_left fixed, List.map_id]
  exact ofDigits_eq_ok.mpr ⟨hb, Text.lower_ne_nil hne, by rwa [same], by rw [same]⟩

instance (x : Numeral) : Decidable x.Written :=
  decidable_of_iff ((Numeral.ofDigits x.base x.digits).toOption = some x) <| by
    match h : Numeral.ofDigits x.base x.digits with
    | .ok y =>
      refine ⟨fun hy => ⟨_, _, h.trans (congrArg Except.ok (Option.some.inj hy))⟩, fun hx => ?_⟩
      rw [← h, hx.ofDigits]
      rfl
    | .error _ => exact ⟨nofun, fun hx => nomatch h.symm.trans hx.ofDigits⟩

end Radix
