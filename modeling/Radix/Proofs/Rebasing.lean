import Radix.Proofs.Eval.Failure
import Radix.Proofs.Numeral.Arithmetic

/-!
# Proofs/Rebasing — the last base decides

    numeral x ──value──▸ number ──ofNat (value of t)──▸ x in the base that t stands for

The native function that rebases reads both arguments off as numbers, so it sees nothing of the base
and the zeros of its first argument (`Native.rebased_eq`), and what it gives has the value of that
argument again.  Hence rebasing once more forgets the base in between, and of a chain of bases only
the last one matters (`Native.rebasedThrough_append`).
-/

namespace Radix

theorem Numeral.ofNat_eq_error {base n : Nat} {e : NumeralError} :
    ofNat base n = .error e ↔ ¬ IsBase base ∧ e = .baseOutOfRange base := by
  rw [← checkBase_eq_error, ofNat, bind_eq_error, or_iff_left]
  rintro ⟨b, -, h⟩
  exact absurd h (by simp [pure, Except.pure])

namespace Native

variable {x t u : Numeral}

/-- Rebasing writes the value of the first argument in the base that is the value of the second. -/
theorem rebased_eq (hx : x.WellFormed) (ht : t.WellFormed) :
    rebased [.numeral x, .numeral t] =
      ofNumeral ((Numeral.ofNat t.value x.value).map .numeral) := by
  have read : rebased [.numeral x, .numeral t] = ofNumeral (t.toNat >>= fun n =>
      checkBase n >>= fun base => x.rebase base >>= fun z => .ok (.numeral z)) := rfl
  have ofValue (base : Nat) : x.rebase base = Numeral.ofNat base x.value := by
    rw [Numeral.rebase, hx.toNat_eq]
    rfl
  simp only [read, ht.toNat_eq, ofValue]
  by_cases hb : IsBase t.value
  · obtain ⟨z, hz⟩ := Numeral.ofNat_ok hb x.value
    simp only [bind, Except.bind, checkBase_eq_ok.mpr ⟨hb, rfl⟩, hz]
    rfl
  · simp only [bind, Except.bind, checkBase_eq_error.mpr ⟨hb, rfl⟩,
      Numeral.ofNat_eq_error.mpr ⟨hb, rfl⟩]
    rfl

theorem rebased_eq_ok (hx : x.WellFormed) (ht : t.WellFormed) {v : Value} :
    rebased [.numeral x, .numeral t] = .ok v ↔ ∃ z, v = .numeral z ∧ z.Writes t.value x.value := by
  simp only [rebased_eq hx ht, ofNumeral_eq_ok, map_eq_ok, Numeral.ofNat_eq_ok_iff]
  exact exists_congr fun z => and_comm.trans (and_congr_left fun _ => eq_comm)

theorem rebased_eq_error (hx : x.WellFormed) (ht : t.WellFormed) {e : RunError} :
    rebased [.numeral x, .numeral t] = .error e ↔
      ¬ IsBase t.value ∧ e = .numeral (.baseOutOfRange t.value) := by
  simp only [rebased_eq hx ht, ofNumeral_eq_error, map_eq_error, Numeral.ofNat_eq_error, and_assoc,
    exists_and_left, exists_eq_left]

/-- Rebases to one base after the other. -/
def rebasedThrough (v : Value) (ts : List Numeral) : Except RunError Value :=
  ts.foldlM (fun v t => rebased [v, .numeral t]) v

/-- **Of a chain of bases only the last one matters.** -/
theorem rebasedThrough_append {ts : List Numeral} (hx : x.WellFormed)
    (hts : ∀ t ∈ ts, t.WellFormed ∧ IsBase t.value) (hu : u.WellFormed) :
    rebasedThrough (.numeral x) (ts ++ [u]) = rebased [.numeral x, .numeral u] := by
  induction ts generalizing x with
  | nil => exact bind_pure _
  | cons t ts ih =>
    obtain ⟨⟨ht, hb⟩, hts⟩ := List.forall_mem_cons.mp hts
    obtain ⟨z, hz⟩ := Numeral.exists_writes hb x.value
    rw [rebasedThrough, List.cons_append, List.foldlM_cons,
      (rebased_eq_ok hx ht).mpr ⟨z, rfl, hz⟩]
    refine (ih hz.wellFormed hts).trans ?_
    rw [rebased_eq hz.wellFormed hu, rebased_eq hx hu, hz.value_eq]

/-- **Rebasing is exact, and the last base decides.**  On well-formed numerals it succeeds exactly
if the value of the second one lies between 2 and 64, and otherwise fails with that very value; what
it gives has that value as its base, the value of the first numeral and no leading zeros.  So after
a chain of bases the numeral is what the last one makes of it at once, and back in its own base it
is what it was, without leading zeros. -/
theorem rebase_exact {x : Numeral} (hx : x.WellFormed) :
    (∀ args f c, run .rebase args f c = (rebased args, c)) ∧
    (∀ t : Numeral, t.WellFormed →
      (∀ v, rebased [.numeral x, .numeral t] = .ok v ↔
        (2 ≤ t.value ∧ t.value ≤ 64) ∧ ∃ z, v = .numeral z ∧ z.Writes t.value x.value) ∧
      ∀ e, rebased [.numeral x, .numeral t] = .error e ↔
        ¬ (2 ≤ t.value ∧ t.value ≤ 64) ∧ e = .numeral (.baseOutOfRange t.value)) ∧
    ∀ (ts : List Numeral) (u : Numeral),
      (∀ t ∈ ts, t.WellFormed ∧ 2 ≤ t.value ∧ t.value ≤ 64) → u.WellFormed →
      rebasedThrough (.numeral x) (ts ++ [u]) = rebased [.numeral x, .numeral u] ∧
        (u.value = x.base →
          rebasedThrough (.numeral x) (ts ++ [u]) = .ok (.numeral x.trimmed)) := by
  refine ⟨fun _ _ _ => rfl, fun t ht => ⟨fun v => ?_, fun e => rebased_eq_error hx ht⟩,
    fun ts u hts hu => ?_⟩
  · rw [rebased_eq_ok hx ht, iff_and_self]
    rintro ⟨z, -, hz⟩
    exact hz.base_eq ▸ hz.wellFormed.1
  · have last : rebasedThrough (.numeral x) (ts ++ [u]) = rebased [.numeral x, .numeral u] :=
      rebasedThrough_append hx hts hu
    refine ⟨last, fun own => last.trans ((rebased_eq_ok hx hu).mpr ⟨x.trimmed, rfl, ?_⟩)⟩
    exact own ▸ hx.writes_trimmed

/-- A value that is 2 in its lower 32 bits is no base, and hexadecimal digits come back from base 64
and base 36. -/
theorem rebase_exact_backAndForth :
    rebased [.numeral ⟨16, ['0', '0', 'f', 'f']⟩,
        .numeral ⟨16, ['1', '0', '0', '0', '0', '0', '0', '0', '2']⟩] =
      .error (.numeral (.baseOutOfRange 4294967298)) ∧
    rebasedThrough (.numeral ⟨16, ['0', '0', 'f', 'f']⟩)
        ([⟨10, ['6', '4']⟩, ⟨64, ['A']⟩] ++ [⟨2, ['1', '0', '0', '0', '0']⟩]) =
      .ok (.numeral ⟨16, ['f', 'f']⟩) := by
  have hex : Numeral.WellFormed ⟨16, ['0', '0', 'f', 'f']⟩ :=
    Numeral.wellFormed_iff_all.mpr (by decide)
  have wide : Numeral.WellFormed ⟨16, ['1', '0', '0', '0', '0', '0', '0', '0', '2']⟩ :=
    Numeral.wellFormed_iff_all.mpr (by decide)
  have own : Numeral.WellFormed ⟨2, ['1', '0', '0', '0', '0']⟩ :=
    Numeral.wellFormed_iff_all.mpr (by decide)
  have between : ∀ t ∈ ([⟨10, ['6', '4']⟩, ⟨64, ['A']⟩] : List Numeral),
      t.WellFormed ∧ 2 ≤ t.value ∧ t.value ≤ 64 := by
    rw [List.forall_mem_cons, List.forall_mem_singleton]
    exact ⟨⟨Numeral.wellFormed_iff_all.mpr (by decide), by decide⟩,
      ⟨Numeral.wellFormed_iff_all.mpr (by decide), by decide⟩⟩
  obtain ⟨-, single, chain⟩ := rebase_exact hex
  exact ⟨((single _ wide).2 _).mpr ⟨by decide, rfl⟩, (chain _ _ between own).2 rfl⟩

end Native

end Radix
