import Radix.Proofs.Numeral.Written
import Radix.Proofs.Token.Cover

/-!
# Proofs/Numeral/Bare — numerals without parentheses are only refused for their base

The scanner and the reader decide by different rules what a digit is: the scanner lower-cases single
characters and stops at the first that is not of ASCII, the reader lower-cases a whole text.  On what
the scanner takes for a bare payload they agree (`Numeral.ofDigits_of_isPayload`), so what the reader
can still refuse is the base, or that there is no digit at all.
-/

namespace Radix

namespace Lexical

theorem isPayload_iff {base : Nat} {c : Char} :
    isPayload base c = true ↔ c.toNat < 128 ∧ c.toLower ∈ digitsOf base := by
  rw [isPayload, Bool.and_eq_true, decide_eq_true_iff, isDigitOf_iff]

/-- A character of a bare payload is of ASCII, and its small form is among the first symbols. -/
theorem isPayload_eq (base : Nat) : isPayload base =
    fun c => decide (c.toNat < 128 ∧ c.toLower ∈ alphabet.take (min base 64)) := by
  have htake : digitsOf base = alphabet.take (min base 64) :=
    List.take_eq_take_min (l := alphabet) (i := base)
  funext c
  rw [Bool.eq_iff_iff, isPayload_iff, decide_eq_true_iff, htake]

/-- The decimal digits are digits of base 10, and no capital letters. -/
theorem isPayload_of_isDigit {c : Char} (h : c.isDigit = true) :
    isPayload 10 c = true ∧ c.toLower = c := by
  have decimals : (List.range 10).all (fun d => isPayload 10 (Char.ofNat (48 + d)) ∧
      (Char.ofNat (48 + d)).toLower = Char.ofNat (48 + d)) = true := by decide
  obtain ⟨hlow, hhigh⟩ : 48 ≤ c.toNat ∧ c.toNat ≤ 57 := by
    simpa [Char.isDigit, UInt32.le_iff_toNat_le] using h
  have hc := List.all_eq_true.mp decimals (c.toNat - 48) (by simp; omega)
  rw [show 48 + (c.toNat - 48) = c.toNat by omega, Char.ofNat_toNat] at hc
  exact of_decide_eq_true hc

/-- **A bare payload goes as far as its digits do**, since otherwise a longer one would be spelled
there. -/
theorem takeWhile_isPayload {base : Nat} {ds payload us : List Char} (hds : BaseDigits base ds)
    (hp : ∀ c ∈ payload, isPayload base c = true)
    (hlong : NoLonger ('b' :: (ds ++ '@' :: payload)).length ('b' :: (ds ++ '@' :: payload) ++ us)) :
    (payload ++ us).takeWhile (isPayload base) = payload := by
  rw [List.takeWhile_append_of_pos hp]
  cases us with
  | nil => exact List.append_nil payload
  | cons d us =>
    cases hd : isPayload base d with
    | false => rw [List.takeWhile_cons_of_neg (by simp [hd]), List.append_nil]
    | true =>
      have hmore : ∀ c ∈ payload ++ [d], isPayload base c = true :=
        List.forall_mem_append.mpr ⟨hp, List.forall_mem_singleton.mpr hd⟩
      have hlen := hlong _ _ us (.bare hds hmore) (by simp)
      simp only [List.length_cons, List.length_append, List.length_nil] at hlen
      omega

/-- A base is marked in one way only. -/
theorem BaseDigits.rest_eq {base base' : Nat} {ds ds' rest rest' : List Char}
    (h : BaseDigits base ds) (h' : BaseDigits base' ds')
    (heq : ds ++ '@' :: rest = ds' ++ '@' :: rest') : rest = rest' := by
  have hmark := baseMark?_of_baseDigits h rest
  rw [heq, baseMark?_of_baseDigits h' rest'] at hmark
  simp only [Option.some.injEq, Prod.mk.injEq] at hmark
  exact hmark.2.2.symm

end Lexical

namespace Numeral

/-- What is read off a bare payload. -/
theorem ofDigits_of_isPayload {base : Nat} {payload : List Char}
    (hp : ∀ c ∈ payload, Lexical.isPayload base c = true) :
    ofDigits base payload =
      if ¬ IsBase base then .error (.baseOutOfRange base)
      else if payload = [] then .error (.noDigits base)
      else .ok ⟨base, payload.map Char.toLower⟩ := by
  have hlower : Text.lower payload = payload.map Char.toLower :=
    Text.lower_of_ascii fun c hc => (Lexical.isPayload_iff.mp (hp c hc)).1
  have hdigits : ∀ d ∈ Text.lower payload, d ∈ digitsOf base := by
    rw [hlower]
    intro d hd
    obtain ⟨c, hc, rfl⟩ := List.mem_map.mp hd
    exact (Lexical.isPayload_iff.mp (hp c hc)).2
  by_cases hb : IsBase base
  · rw [if_neg (not_not.mpr hb)]
    by_cases hne : payload = []
    · rw [if_pos hne, hne, ofDigits, checkBase, if_pos hb]
      rfl
    · rw [if_neg hne]
      exact ofDigits_eq_ok.mpr ⟨hb, hne, hdigits, by rw [hlower]⟩
  · rw [if_pos hb, ofDigits, checkBase, if_neg hb]
    rfl

/-- **Bare numerals are refused only for their base, or for being empty.**  In a source that is
scanned, the digits of every number are read as they are.  A based numeral begins with its base and
an `@`.  If no parenthesis follows, its payload is the longest run of characters of ASCII there whose
small form is among the first symbols of the alphabet, as many as the base says; the reader refuses
it if the base is out of range, and if the payload is empty, and otherwise keeps the payload with its
capital letters lower-cased. -/
theorem bare_numerals_read {source : List Char} {ts : List Token} (h : tokenize source = .ok ts)
    {t : Token} (ht : t ∈ ts) :
    (∀ digits, t.lexeme = .number digits → ofDigits 10 digits = .ok ⟨10, digits⟩) ∧
    ∀ base payload, t.lexeme = .based base payload →
      ∃ ds rest, Lexical.BaseDigits base ds ∧
        source.drop t.offset = 'b' :: (ds ++ '@' :: rest) ∧
        (rest.head? ≠ some '(' →
          payload = rest.takeWhile (fun c =>
            c.toNat < 128 ∧ c.toLower ∈ alphabet.take (min base 64)) ∧
          ofDigits base payload =
            if ¬ IsBase base then .error (.baseOutOfRange base)
            else if payload = [] then .error (.noDigits base)
            else .ok ⟨base, payload.map Char.toLower⟩) := by
  constructor
  · intro digits hl
    obtain ⟨w, us, -, hs⟩ := spelled_of_tokenize h ht (by simp [hl])
    rw [hl] at hs
    cases hs with
    | @number d ds hd hds =>
      have hall : ∀ c ∈ d :: ds, c.isDigit = true := List.forall_mem_cons.mpr ⟨hd, hds⟩
      rw [ofDigits_of_isPayload fun c hc => (Lexical.isPayload_of_isDigit (hall c hc)).1,
        if_neg (by decide), if_neg (by simp),
        List.map_congr_left fun c hc => (Lexical.isPayload_of_isDigit (hall c hc)).2,
        List.map_id']
  · intro base payload hl
    obtain ⟨w, us, hdrop, hs, hlong⟩ := longest_of_tokenize h ht (by simp [hl])
    rw [hl] at hs
    cases hs with
    | @bare _ ds _ hds hp =>
      refine ⟨ds, payload ++ us, hds, by rw [hdrop]; simp, fun _ => ⟨?_, ofDigits_of_isPayload hp⟩⟩
      rw [← Lexical.isPayload_eq, Lexical.takeWhile_isPayload hds hp hlong]
    | @enclosed _ ds _ hds hp =>
      exact ⟨ds, '(' :: (payload ++ ')' :: us), hds, by rw [hdrop]; simp, fun hne => absurd rfl hne⟩

/-- A payload that ends before a letter, a number, and a payload that ends at once. -/
def bareSource : List Char :=
  ['b', '1', '6', '@', 'F', 'f', 'G', ' ', '0', '0', '7', ' ', 'b', '2', '@', '2']

def bareTokens : List Token :=
  [⟨.based 16 ['F', 'f'], 0⟩, ⟨.name "G", 6⟩, ⟨.number ['0', '0', '7'], 8⟩, ⟨.based 2 [], 12⟩,
   ⟨.number ['2'], 15⟩, ⟨.stop, 16⟩]

theorem bare_numerals_read_source :
    tokenize bareSource = .ok bareTokens ∧
      ofDigits 10 ['0', '0', '7'] = .ok ⟨10, ['0', '0', '7']⟩ ∧
      ofDigits 16 ['F', 'f'] = .ok ⟨16, ['f', 'f']⟩ ∧ ofDigits 2 [] = .error (.noDigits 2) := by
  have scanned : tokenize bareSource = .ok bareTokens := by with_unfolding_all rfl
  have number := (bare_numerals_read scanned (t := ⟨.number ['0', '0', '7'], 8⟩) (by decide)).1
  obtain ⟨ds, rest, hds, hdrop, hbare⟩ :=
    (bare_numerals_read scanned (t := ⟨.based 16 ['F', 'f'], 0⟩) (by decide)).2 _ _ rfl
  obtain ⟨ds', rest', hds', hdrop', hbare'⟩ :=
    (bare_numerals_read scanned (t := ⟨.based 2 [], 12⟩) (by decide)).2 _ _ rfl
  have follows := hds.rest_eq (.two (d := '1') (e := '6') rfl rfl) (List.cons.inj hdrop).2.symm
  have follows' := hds'.rest_eq (.one (d := '2') rfl) (List.cons.inj hdrop').2.symm
  exact ⟨scanned, number _ rfl, (hbare (by simp [follows])).2, (hbare' (by simp [follows'])).2⟩

end Numeral

end Radix
