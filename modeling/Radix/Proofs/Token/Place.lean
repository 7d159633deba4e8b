import Mathlib.Data.List.Chain
import Radix.Proofs.Token.Cover

/-!
# Proofs/Token/Place — where the characters of a text stand

A text token remembers for each of its characters how far from the opening quote it was written.
`Decoded` says as a relation how a text is decoded, and `QuotedText.WrittenAt` that a text stands in
a source.  The places of such a text are right for its braces (`WrittenAt.brace`), they grow with
the index (`WrittenAt.place_add_le`), and they leave a gap behind a quote, which cannot have been
written without an escape (`WrittenAt.place_add_lt`).
-/

namespace Radix

namespace Lexical

open Template (isBrace)

/-! ## Decoding -/

/-- Between the column and the closing quote, the source decodes to these characters at these
distances. -/
inductive Decoded : Nat → List Char → List (Char × Nat) → Prop
  | close {column cs} : Decoded column ('"' :: cs) []
  | plain {column c cs ps} : c ≠ '"' → Decoded (column + 1) cs ps →
    Decoded column (c :: cs) ((c, column) :: ps)
  | escape {column c d cs ps} : isBrace d = false → Decoded (column + 2) cs ps →
    Decoded column ('\\' :: c :: cs) ((d, column) :: ps)
  | brace {column c cs ps} : isBrace c = true → Decoded (column + 2) cs ps →
    Decoded column ('\\' :: c :: cs) (('\\', column) :: (c, column + 1) :: ps)

theorem decoded_of_writes {column : Nat} {cs : List Char} {ps : List (Char × Nat)}
    (h : Writes column cs ps) (rest : List Char) : Decoded column (cs ++ '"' :: rest) ps := by
  induction h with
  | nil => exact .close
  | plain hc _ _ ih => exact .plain hc ih
  | newline _ ih => exact .escape (by decide) ih
  | tab _ ih => exact .escape (by decide) ih
  | brace hc _ ih => exact .brace hc ih
  | itself _ _ hc _ ih => exact .escape hc ih

/-- The second character stands behind the first, and if that is a quote, behind its escape. -/
def Next (x y : Char × Nat) : Prop := x.2 < y.2 ∧ (x.1 = '"' → x.2 + 1 < y.2)

variable {column : Nat} {cs : List Char} {ps : List (Char × Nat)}

theorem Decoded.isChain (h : Decoded column cs ps) {x : Char × Nat} (hx : x.2 < column)
    (hquote : x.1 = '"' → x.2 + 1 < column) : List.IsChain Next (x :: ps) := by
  induction h generalizing x with
  | close => exact .singleton x
  | plain hc _ ih => exact .cons_cons ⟨hx, hquote⟩ (ih (Nat.lt_succ_self _) fun h => absurd h hc)
  | escape _ _ ih => exact .cons_cons ⟨hx, hquote⟩ (ih (by simp) fun _ => by simp)
  | brace hc _ ih =>
    refine .cons_cons ⟨hx, hquote⟩ (.cons_cons ⟨by simp, fun h => ?_⟩ (ih (by simp) fun h => ?_))
    · exact absurd (show '\\' = '"' from h) (by decide)
    · obtain rfl : _ = '"' := h
      exact absurd hc (by decide)

/-- Something is written at every place. -/
theorem Decoded.place_lt (h : Decoded column cs ps) {x : Char × Nat} (hx : x ∈ ps) :
    x.2 < column + cs.length := by
  induction h with
  | close => exact absurd hx List.not_mem_nil
  | plain _ _ ih | escape _ _ ih =>
    rcases List.mem_cons.mp hx with rfl | hx
    · simp
    · have := ih hx
      simp only [List.length_cons]
      omega
  | brace _ _ ih =>
    simp only [List.length_cons]
    rcases List.mem_cons.mp hx with rfl | hx
    · simp
    rcases List.mem_cons.mp hx with rfl | hx
    · simp
    · have := ih hx
      omega

/-- A brace stands where its place says. -/
theorem Decoded.brace_at (h : Decoded column cs ps) {c : Char} {p : Nat} (hc : isBrace c = true)
    (hp : (c, p) ∈ ps) : ∃ k, p = column + k ∧ cs[k]? = some c := by
  induction h with
  | close => exact absurd hp List.not_mem_nil
  | plain _ _ ih =>
    rcases List.mem_cons.mp hp with he | hp
    · obtain ⟨rfl, rfl⟩ := Prod.mk.inj he
      exact ⟨0, rfl, rfl⟩
    · obtain ⟨k, rfl, hk⟩ := ih hp
      exact ⟨k + 1, by omega, hk⟩
  | escape hd _ ih =>
    rcases List.mem_cons.mp hp with he | hp
    · obtain ⟨rfl, -⟩ := Prod.mk.inj he
      exact absurd hc (by simp [hd])
    · obtain ⟨k, rfl, hk⟩ := ih hp
      exact ⟨k + 2, by omega, hk⟩
  | brace hd _ ih =>
    rcases List.mem_cons.mp hp with he | hp
    · obtain ⟨rfl, -⟩ := Prod.mk.inj he
      exact absurd hc (by decide)
    rcases List.mem_cons.mp hp with he | hp
    · obtain ⟨rfl, rfl⟩ := Prod.mk.inj he
      exact ⟨1, rfl, rfl⟩
    · obtain ⟨k, rfl, hk⟩ := ih hp
      exact ⟨k + 2, by omega, hk⟩

end Lexical

/-! ## Texts in a source -/

/-- The text is written in the source, with its opening quote at the offset. -/
def QuotedText.WrittenAt (source : List Char) (offset : Nat) (q : QuotedText) : Prop :=
  ∃ cs ps, source.drop offset = '"' :: cs ∧ Lexical.Decoded 1 cs ps ∧ q = Lexical.quotedText ps

namespace QuotedText.WrittenAt

open Lexical Template

variable {source : List Char} {offset : Nat} {q : QuotedText}

theorem quote (h : q.WrittenAt source offset) : source[offset]? = some '"' := by
  obtain ⟨cs, ps, hs, -⟩ := h
  rw [← Nat.add_zero offset, ← List.getElem?_drop, hs]
  rfl

/-- **A brace of a text stands in the source where its place says.** -/
theorem brace (h : q.WrittenAt source offset) {i : Nat} {c : Char} (hc : isBrace c = true)
    (hi : q.chars[i]? = some c) : source[offset + q.place i]? = some c ∧ 0 < q.place i := by
  obtain ⟨cs, ps, hs, hps, rfl⟩ := h
  obtain ⟨⟨d, p⟩, hp, rfl⟩ : ∃ x, ps[i]? = some x ∧ x.1 = c := by
    simpa [quotedText] using hi
  have place : (quotedText ps).place i = p := by simp [QuotedText.place, quotedText, hp]
  obtain ⟨k, rfl, hk⟩ := hps.brace_at hc (List.mem_of_getElem? hp)
  rw [place]
  refine ⟨?_, by omega⟩
  rw [← List.getElem?_drop, hs, Nat.add_comm 1 k]
  exact hk

theorem place_lt (h : q.WrittenAt source offset) {i : Nat} (hi : i < q.chars.length) :
    offset + q.place i < source.length := by
  obtain ⟨cs, ps, hs, hps, rfl⟩ := h
  have hlen : i < ps.length := by simpa [quotedText] using hi
  have place : (quotedText ps).place i = ps[i].2 := by simp [QuotedText.place, quotedText, hlen]
  have hlt := hps.place_lt (List.getElem_mem hlen)
  have hdrop := congrArg List.length hs
  rw [List.length_drop, List.length_cons] at hdrop
  rw [place]
  omega

theorem next (h : q.WrittenAt source offset) {i : Nat} (hi : i + 1 < q.chars.length) :
    q.place i < q.place (i + 1) ∧ (q.chars[i]? = some '"' → q.place i + 1 < q.place (i + 1)) := by
  obtain ⟨cs, ps, -, hps, rfl⟩ := h
  have hlen : i + 1 < ps.length := by simpa [quotedText] using hi
  have chain : List.IsChain Next ps := (hps.isChain (x := (' ', 0)) (by simp) (by simp)).of_cons
  have place : ∀ (j : Nat) (hj : j < ps.length), (quotedText ps).place j = ps[j].2 := by
    intro j hj
    simp [QuotedText.place, quotedText, hj]
  obtain ⟨hlt, hquote⟩ := chain.getElem i hlen
  rw [place i (by omega), place (i + 1) hlen]
  refine ⟨hlt, fun hq => hquote ?_⟩
  have hi' : i < ps.length := by omega
  simpa [quotedText, hi'] using hq

/-- Every character takes up a place. -/
theorem place_add_le (h : q.WrittenAt source offset) {i d : Nat} (hd : i + d < q.chars.length) :
    q.place i + d ≤ q.place (i + d) := by
  induction d with
  | zero => exact Nat.le_refl _
  | succ d ih =>
    have hlt := (h.next (i := i + d) hd).1
    have hle := ih (by omega)
    rw [← Nat.add_assoc i d 1]
    omega

/-- **Behind a quote there is one place more than there are characters.** -/
theorem place_add_lt (h : q.WrittenAt source offset) {i d : Nat} (hq : q.chars[i]? = some '"')
    (hpos : 0 < d) (hd : i + d < q.chars.length) : q.place i + d < q.place (i + d) := by
  obtain ⟨d, rfl⟩ : ∃ k, d = k + 1 := ⟨d - 1, by omega⟩
  have hlt := (h.next (i := i) (by omega)).2 hq
  have hle := h.place_add_le (i := i + 1) (d := d) (by omega)
  rw [show i + (d + 1) = i + 1 + d by omega]
  omega

end QuotedText.WrittenAt

/-! ## Scanning -/

/-- **A text token of a source is written there.** -/
theorem writtenAt_of_tokenize {source : List Char} {ts : List Token} {q : QuotedText} {o : Nat}
    (h : tokenize source = .ok ts) (ht : ⟨.text q, o⟩ ∈ ts) : q.WrittenAt source o := by
  obtain ⟨w, us, hdrop, hw⟩ := spelled_of_tokenize h ht (by simp)
  cases hw with
  | @text cs ps hcs =>
    refine ⟨cs ++ '"' :: us, ps, ?_, Lexical.decoded_of_writes hcs us, rfl⟩
    simpa using hdrop

end Radix
