import Radix.Proofs.Template.Split

/-!
# Proofs/Template/Inside — the offsets in a source do not point behind its end

A program carries the offsets of its calls, operators and texts.  `Expr.Inside N e` says that none
of them is beyond `N`, nor the offset of any character of a text.  What is read from tokens that are
inside is inside (`Read.makes_inside`), and the tokens of a source are, for its length
(`inside_of_tokenize`).  This is passed on to the expressions in an interpolation, which is read
only when the text is evaluated (`Template.inside_of_parts`), and the faults that are found then are
inside as well (`Template.fault_inside`).
-/

namespace Radix

variable {N : Nat}

/-- No character of the text, whose quote has the offset `o`, has an offset beyond `N`, and each
takes up a place. -/
structure QuotedText.Inside (N : Nat) (q : QuotedText) (o : Nat) : Prop where
  bound : ∀ i, i < q.chars.length → o + q.place i ≤ N
  spaced : ∀ i d, i + d < q.chars.length → q.place i + d ≤ q.place (i + d)

/-- The token has no offset beyond `N`. -/
structure Token.Inside (N : Nat) (t : Token) : Prop where
  offset : t.offset ≤ N
  text : ∀ q, t.lexeme = .text q → q.Inside N t.offset

/-- The expression, apart from what it is made of, has no offset beyond `N`. -/
def Expr.HasInside (N : Nat) : Expr → Prop
  | .text q o => q.Inside N o
  | .binary _ _ _ (some o) => o ≤ N
  | .call _ _ o => o ≤ N
  | _ => True

/-- There is no offset beyond `N` in the expression. -/
def Expr.Inside (N : Nat) (e : Expr) : Prop := e.Everywhere (HasInside N)

theorem Read.makes_inside : Makes (Token.Inside N) (Expr.HasInside N) where
  text ht := ht.text _ rfl
  binary ht := ht.offset
  call ht := ht.offset

/-! ## Sources -/

theorem inside_of_tokenize {source : List Char} {ts : List Token}
    (h : tokenize source = .ok ts) : ∀ t ∈ ts, t.Inside source.length := by
  rintro ⟨l, o⟩ ht
  refine ⟨offset_le_of_tokenize h ht, fun q hl => ?_⟩
  obtain rfl : l = .text q := hl
  have written := writtenAt_of_tokenize h ht
  exact ⟨fun i hi => Nat.le_of_lt (written.place_lt hi), fun i d => written.place_add_le⟩

/-- Tokens that are inside are refused inside. -/
theorem Read.inside_of_error {ts : List Token} {e : ReadError} (hts : ∀ t ∈ ts, t.Inside N)
    (h : program ts = .error e) : e.offset ≤ N := by
  rcases offset_of_program h with he | ⟨t, ht, he⟩
  · omega
  · exact he ▸ (hts t ht).offset

/-! ## Interpolations -/

namespace Template

variable {q : QuotedText} {o i : Nat} {inner : List Char} {us : List Token}

/-- The tokens of an interpolation are inside, if the text around it is. -/
theorem moved_inside (hq : q.Inside N o) (hopens : Opens q.chars i inner)
    (hus : tokenize inner = .ok us) : ∀ t ∈ moved q o i us, t.Inside N := by
  intro t ht
  obtain ⟨⟨l, k⟩, hu, rfl⟩ := List.mem_map.mp ht
  have hlt := hopens.lt
  have hk : k ≤ inner.length := offset_le_of_tokenize hus hu
  refine ⟨hq.bound _ (by dsimp only; omega), fun q' hl => ?_⟩
  obtain rfl : l = .text q' := hl
  have written := writtenAt_of_tokenize hus hu
  refine ⟨fun j hj => ?_, fun j d => written.place_add_le⟩
  -- The places inside the inner text are counted as if nothing were escaped, so they fall short.
  have hplace := written.place_lt hj
  have hspaced := hq.spaced (i + 1 + k) (q'.place j) (by omega)
  have hbound := hq.bound (i + 1 + k + q'.place j) (by omega)
  dsimp only
  omega

theorem interpolation_inside {e : Expr} (hq : q.Inside N o) (hopens : Opens q.chars i inner)
    (h : interpolation q o i inner = .ok e) : e.Inside N := by
  obtain ⟨us, hus, hprogram⟩ := interpolation_eq_ok h
  exact Read.made_of_program Read.makes_inside hprogram (moved_inside hq hopens hus) e (by simp)

theorem interpolation_fault_inside {e : ReadError} (hq : q.Inside N o)
    (hopens : Opens q.chars i inner) (h : interpolation q o i inner = .error e) :
    e.offset ≤ N := by
  have hlt := hopens.lt
  rcases interpolation_eq_error h with ⟨e₀, he₀, rfl⟩ | ⟨us, hus, hp⟩ | ⟨n, rfl⟩
  · have := offset_lt_of_tokenize he₀
    exact hq.bound _ (by omega)
  · exact Read.inside_of_error (moved_inside hq hopens hus) hp
  · exact hq.bound i (by omega)

/-- **The expressions in a text are inside, if the text is.** -/
theorem inside_of_parts {ps : List Part} {e : Expr} (hq : q.Inside N o)
    (h : parts q o = .ok ps) (he : .expr e ∈ ps) : e.Inside N := by
  obtain ⟨m, inner, hopens, hx⟩ := (splits_partsFrom q o 0 q.chars).opens h he
  rw [Nat.zero_add] at hx
  exact interpolation_inside hq hopens hx

/-- **A text is refused inside.** -/
theorem fault_inside {e : ReadError} (hq : q.Inside N o) (h : parts q o = .error e) :
    e.offset ≤ N := by
  rcases (splits_partsFrom q o 0 q.chars).fault h with ⟨m, hm, rfl⟩ | ⟨m, inner, hopens, hx⟩
  · rw [Nat.zero_add]
    exact hq.bound m (List.getElem?_eq_some_iff.mp hm.getElem?).1
  · rw [Nat.zero_add] at hx
    exact interpolation_fault_inside hq hopens hx

end Template

end Radix
