import Mathlib.Data.List.Find
import Radix.Proofs.Token.Cover

/-!
# Proofs/Token/Seam — no lexeme reaches across a line end or a blank

Names, digits and signs hold neither, and a text or payload that is closed ends before what is put
behind it.  So a lexeme at the front of a source stays there when a line end or a blank and anything
else is put behind (`front_append_seam`).  A comment stops before a line end as well
(`front_append_newline`), so two sources with a line end between them are scanned one after the
other (`tokenize_append_newline`).
-/

namespace Radix

namespace Lexical

variable {c d : Char} {cs rest : List Char}

/-! ## Seams -/

/-- The character ends whatever is not closed by another: neither a word, nor a bare payload, nor a
sign goes on with it. -/
structure IsSeam (d : Char) : Prop where
  word : isNameChar d = false
  payload : d.toLower ∉ alphabet
  sign : ∀ s ∈ signs, d ∉ s.1

theorem isSeam_newline : IsSeam '\n' := ⟨by decide, by decide, by decide⟩

theorem isSeam_blank : IsSeam ' ' := ⟨by decide, by decide, by decide⟩

theorem IsSeam.isDigit (hd : IsSeam d) : d.isDigit = false := by
  have hword := hd.word
  simp only [isNameChar, Char.isAlphanum, Bool.or_eq_false_iff] at hword
  exact hword.1.2

theorem IsSeam.isPayload (hd : IsSeam d) (base : Nat) : isPayload base d = false := by
  have noDigit : alphabet.idxOf? d.toLower = none := List.idxOf?_eq_none_iff.mpr hd.payload
  simp [Lexical.isPayload, isDigitOf, digitValue?, noDigit]

theorem takeWhile_append_stop {p : Char → Bool} (hp : p d = false) (cs rest : List Char) :
    (cs ++ d :: rest).takeWhile p = cs.takeWhile p := by
  induction cs with
  | nil => simp [hp]
  | cons c cs ih => simp [List.takeWhile_cons, ih]

theorem isPrefixOf_append_stop {w : List Char} (hw : d ∉ w) (cs rest : List Char) :
    w.isPrefixOf (cs ++ d :: rest) = w.isPrefixOf cs := by
  induction w generalizing cs with
  | nil => simp
  | cons e w ih =>
    rw [List.mem_cons, not_or] at hw
    cases cs with
    | nil => simp [List.isPrefixOf, Ne.symm hw.1]
    | cons c cs => simp [List.isPrefixOf, ih hw.2]

/-- What does not hold the seam stands before the first one. -/
theorem eq_append_of_stop {w us : List Char} (h : cs ++ d :: rest = w ++ us) (hw : d ∉ w) :
    ∃ vs, cs = w ++ vs := by
  rcases List.append_eq_append_iff.mp h with ⟨vs, rfl, hvs⟩ | ⟨vs, rfl, -⟩
  · cases vs with
    | nil => exact ⟨[], by simp⟩
    | cons v vs =>
      obtain ⟨rfl, -⟩ := List.cons.inj hvs
      exact absurd (by simp) hw
  · exact ⟨vs, rfl⟩

/-! ## The front of a source -/

theorem sign_append_seam (hd : IsSeam d) (cs rest : List Char) :
    sign (cs ++ d :: rest) = sign cs := by
  unfold sign
  refine List.find?_congr fun s hs => ?_
  rw [isPrefixOf_append_stop (hd.sign s hs)]

theorem decodeText_append {ps : List (Char × Nat)} {column close : Nat}
    (h : decodeText column cs = some (ps, close)) (rest : List Char) :
    decodeText column (cs ++ rest) = some (ps, close) := by
  obtain ⟨w, us, rfl, hw, rfl⟩ := writes_of_decodeText h
  rw [List.append_assoc, List.cons_append]
  exact decodeText_of_writes hw _

/-- The mark of a base stands before what is neither a digit nor an `@`. -/
theorem baseMark?_of_append_stop {base width : Nat} {r : List Char} (hd : d.isDigit = false)
    (hat : d ≠ '@') (h : baseMark? (cs ++ d :: rest) = some (base, width, r)) :
    ∃ ds vs, BaseDigits base ds ∧ cs = ds ++ '@' :: vs := by
  obtain ⟨ds, hds, heq, -⟩ := baseDigits_of_baseMark? h
  have clear : d ∉ ds ++ ['@'] := by
    rw [List.mem_append, List.mem_singleton, not_or]
    refine ⟨fun hm => ?_, hat⟩
    exact absurd (hds.isDigit_of_mem d hm) (by simp [hd])
  obtain ⟨vs, rfl⟩ := eq_append_of_stop (w := ds ++ ['@']) (by simpa using heq) clear
  exact ⟨ds, vs, hds, by simp⟩

theorem baseMark?_append_seam (hd : IsSeam d) (cs rest : List Char) :
    baseMark? (cs ++ d :: rest) =
      (baseMark? cs).map fun (base, width, r) => (base, width, r ++ d :: rest) := by
  match h : baseMark? cs with
  | some (base, width, r) =>
    obtain ⟨ds, hds, rfl, rfl⟩ := baseDigits_of_baseMark? h
    rw [List.append_assoc, List.cons_append, baseMark?_of_baseDigits hds]
    rfl
  | none =>
    match h' : baseMark? (cs ++ d :: rest) with
    | none => rfl
    | some (base, width, r) =>
      -- Neither a digit nor the `@` is a seam, so the mark stands before it.
      have hat : d ≠ '@' := by
        rintro rfl
        exact hd.sign (['@'], .mark .at) (by decide) (by decide)
      obtain ⟨ds, vs, hds, rfl⟩ := baseMark?_of_append_stop hd.isDigit hat h'
      rw [baseMark?_of_baseDigits hds] at h
      exact nomatch h

theorem payload_append_seam (hd : IsSeam d) {base width : Nat} {r : List Char}
    (h : payload base width r ≠ .fault .unclosedPayload) (rest : List Char) :
    payload base width (r ++ d :: rest) = payload base width r := by
  rcases payload_cases base width r with ⟨p, us, rfl, hp, hf⟩ | ⟨us, -, -, hf⟩ | ⟨hopen, hf⟩
  · rw [hf, List.cons_append, List.append_assoc, List.cons_append, payload_enclosed hp]
  · exact absurd hf h
  · have hopen' : ∀ us, r ++ d :: rest ≠ '(' :: us := by
      intro us hus
      cases r with
      | nil =>
        obtain ⟨rfl, -⟩ := List.cons.inj hus
        exact hd.sign (['('], .mark .openParen) (by decide) (by decide)
      | cons e r => exact hopen r (by rw [(List.cons.inj hus).1])
    rcases payload_cases base width (r ++ d :: rest) with ⟨_, _, hr, -⟩ | ⟨_, hr, -⟩ | ⟨-, hf'⟩
    · exact absurd hr (hopen' _)
    · exact absurd hr (hopen' _)
    · rw [hf', hf, takeWhile_append_stop (hd.isPayload base)]

theorem word_append_seam (hd : IsSeam d) (c : Char) (cs rest : List Char) :
    word c (cs ++ d :: rest) = word c cs := by
  rw [word, word, takeWhile_append_stop hd.word]

/-- **A lexeme at the front does not reach across a seam.** -/
theorem front_append_seam (hd : IsSeam d) {l : Lexeme} {width : Nat}
    (h : front c cs = .lexeme l width) (rest : List Char) :
    front c (cs ++ d :: rest) = .lexeme l width := by
  by_cases hgap : isGap c = true
  · exact absurd h (by simp [front, hgap])
  by_cases hhash : c = '#'
  · exact absurd h (by simp [front, hhash, isGap])
  by_cases hnewline : c = '\n'
  · subst hnewline
    exact h
  by_cases hquote : c = '"'
  · subst hquote
    rw [front_quote] at h ⊢
    cases hd : decodeText 1 cs with
    | none => exact absurd h (by simp [hd])
    | some p => rwa [decodeText_append hd, ← hd]
  by_cases hdigit : c.isDigit = true
  · rwa [front_digit hdigit, takeWhile_append_stop hd.isDigit, ← front_digit hdigit]
  by_cases hname : isNameStart c = true
  · cases hb : (if c = 'b' then baseMark? cs else none) with
    | none =>
      have none_of : c = 'b' → baseMark? cs = none := fun h => by simpa [h] using hb
      have none_of' : c = 'b' → baseMark? (cs ++ d :: rest) = none := fun h => by
        rw [baseMark?_append_seam hd, none_of h]
        rfl
      rwa [front_word hname none_of', word_append_seam hd, ← front_word hname none_of]
    | some p =>
      obtain ⟨base, width, r⟩ := p
      obtain ⟨rfl, hmark⟩ : c = 'b' ∧ baseMark? cs = some (base, width, r) := by simpa using hb
      have hmark' : baseMark? (cs ++ d :: rest) = some (base, width, r ++ d :: rest) := by
        rw [baseMark?_append_seam hd, hmark]
        rfl
      rw [front_based hmark] at h
      rw [front_based hmark', payload_append_seam hd (by simp [h]), h]
  · have hsign : isSignStart c = true := by
      simp [isSignStart, hgap, hhash, hnewline, hquote, hdigit, hname]
    rwa [front_sign hsign, ← List.cons_append, sign_append_seam hd, ← front_sign hsign]

/-- **What stands at the front does not reach across a line end.** -/
theorem front_append_newline (h : ∀ f, front c cs ≠ .fault f) (rest : List Char) :
    front c (cs ++ '\n' :: rest) = front c cs := by
  by_cases hgap : isGap c = true
  · rw [front, front, if_pos hgap, if_pos hgap, takeWhile_append_stop (by decide)]
  by_cases hhash : c = '#'
  · rw [front, front, if_neg hgap, if_pos hhash, if_neg hgap, if_pos hhash,
      takeWhile_append_stop (by decide)]
  cases hf : front c cs with
  | fault f => exact absurd hf (h f)
  | lexeme l width => exact front_append_seam isSeam_newline hf rest
  | gap width =>
    obtain ⟨g, us, hg, hlen, gap⟩ := gap_of_begins (hf ▸ begins_front c cs)
    cases gap with
    | nil => exact absurd hlen (by simp)
    | blank hblank _ => exact absurd ((List.cons.inj hg).1 ▸ hblank) hgap
    | comment _ _ _ => exact absurd (List.cons.inj hg).1 hhash

/-- What stands at the front is part of the source. -/
theorem width_le_length {width : Nat}
    (h : front c cs = .gap width ∨ ∃ l, front c cs = .lexeme l width) : width ≤ cs.length := by
  have begins := begins_front c cs
  have bound : ∀ {w us : List Char}, c :: cs = w ++ us → w.length = width + 1 →
      width ≤ cs.length := by
    intro w us hw hlen
    have := congrArg List.length hw
    simp only [List.length_cons, List.length_append] at this
    omega
  rcases h with h | ⟨l, h⟩
  · obtain ⟨g, us, hg, hlen, -⟩ := gap_of_begins (h ▸ begins)
    exact bound hg hlen
  · obtain ⟨w, us, hw, hlen, -⟩ := spelled_of_begins (h ▸ begins)
    exact bound hw hlen

end Lexical

open Lexical

/-! ## Scans -/

/-- **A source is scanned up to a line end as if it ended there**, and then what follows is. -/
theorem scanFrom_append_newline {o p : Nat} {cs : List Char} {ts : List Token}
    (h : scanFrom o cs = ⟨ts ++ [⟨.stop, p⟩], none⟩) (rest : List Char) :
    scanFrom o (cs ++ '\n' :: rest) =
      ⟨ts ++ ⟨.newline, o + cs.length⟩ :: (scanFrom (o + cs.length + 1) rest).tokens,
        (scanFrom (o + cs.length + 1) rest).fault⟩ := by
  -- What is left after the front, with the line end behind it.
  have left : ∀ {c : Char} {cs : List Char} {width : Nat}, width ≤ cs.length →
      (cs ++ '\n' :: rest).drop width = cs.drop width ++ '\n' :: rest ∧
        ∀ o, o + width + 1 + (cs.drop width).length = o + (c :: cs).length := by
    intro c cs width hw
    refine ⟨List.drop_append_of_le_length hw, fun o => ?_⟩
    rw [List.length_drop, List.length_cons]
    omega
  fun_induction scanFrom o cs generalizing ts with
  | case1 o =>
    obtain rfl : ts = [] := by
      have := congrArg (·.tokens.length) h
      simpa using this
    rw [List.nil_append, scanFrom]
    rfl
  | case2 o c cs width hfront ih =>
    obtain ⟨hdrop, hlen⟩ := left (c := c) (width_le_length (.inl hfront))
    rw [List.cons_append, scanFrom, front_append_newline (by simp [hfront]), hfront]
    dsimp only
    rw [hdrop, ih h, hlen]
  | case3 o c cs l width hfront ih =>
    obtain ⟨hdrop, hlen⟩ := left (c := c) (width_le_length (.inr ⟨l, hfront⟩))
    have hword : l ≠ .stop := by
      obtain ⟨w, us, -, -, hs, -⟩ := spelled_of_begins (hfront ▸ begins_front c cs)
      rintro rfl
      cases hs
    generalize hs : scanFrom (o + width + 1) (cs.drop width) = s at h ih
    obtain ⟨tokens, fault⟩ := s
    obtain ⟨htokens, rfl⟩ := Scan.mk.inj h
    cases ts with
    | nil => exact absurd (Token.mk.inj (List.cons.inj htokens).1).1 hword
    | cons t ts =>
      obtain ⟨rfl, rfl⟩ := List.cons.inj htokens
      rw [List.cons_append, scanFrom, front_append_newline (by simp [hfront]), hfront]
      dsimp only
      rw [hdrop, ih rfl, hlen]
      rfl
  | case4 o c cs f hfront => exact absurd (Scan.mk.inj h).2 (by simp)

/-- **Moving a source moves its tokens.** -/
theorem scanFrom_add (o k : Nat) (cs : List Char) :
    scanFrom (o + k) cs = (scanFrom o cs).relocate (· + k) := by
  fun_induction scanFrom o cs with
  | case1 o =>
    rw [scanFrom]
    rfl
  | case2 o c cs width hfront ih =>
    rw [scanFrom, hfront]
    dsimp only
    rw [← ih]
    congr 1
    omega
  | case3 o c cs l width hfront ih =>
    rw [scanFrom, hfront]
    dsimp only
    rw [show o + k + width + 1 = o + width + 1 + k by omega, ih]
    rfl
  | case4 o c cs f hfront =>
    rw [scanFrom, hfront]
    rfl

theorem tokenize_eq_ok {cs : List Char} {ts : List Token} :
    tokenize cs = .ok ts ↔ scanFrom 0 cs = ⟨ts, none⟩ := by
  unfold tokenize scan
  obtain ⟨tokens, fault⟩ := scanFrom 0 cs
  cases fault <;> simp [Scan.result]

/-- The token, moved by `k` characters. -/
def Token.shift (k : Nat) (t : Token) : Token := { t with offset := t.offset + k }

/-- **Two sources with a line end between them are scanned one after the other.** -/
theorem tokenize_append_newline {a b : List Char} {ts us : List Token} {p : Nat}
    (ha : tokenize a = .ok (ts ++ [⟨.stop, p⟩])) (hb : tokenize b = .ok us) :
    tokenize (a ++ '\n' :: b) =
      .ok (ts ++ ⟨.newline, a.length⟩ :: us.map (Token.shift (a.length + 1))) := by
  have moved : scanFrom (0 + a.length + 1) b = (scanFrom 0 b).relocate (· + (a.length + 1)) := by
    rw [← scanFrom_add, Nat.add_assoc]
  rw [tokenize_eq_ok, scanFrom_append_newline (tokenize_eq_ok.mp ha), moved, tokenize_eq_ok.mp hb,
    Nat.zero_add]
  rfl

end Radix
