import Radix.Proofs.Read.Alike
import Radix.Proofs.Read.Written
import Radix.Proofs.Text.Enclosed
import Radix.Proofs.Token.Place

/-!
# Proofs/Template/Split — how a text is split

`Passes` says which characters of a text stand outside of its interpolations, `Opens` which brace
opens an interpolation, and `LeftOpen` which one is never closed.  `Splits` is the splitting of a
text as a relation, and everything else is proved by induction on it.  An interpolation is scanned
alone, and its tokens are then moved to their places in the text (`tokenize_of_scanAt`).
-/

namespace Radix

/-! ## Outside of interpolations -/

namespace Template

/-- Read from the left, after `i` characters the text is outside of its interpolations, and the last
characters are left. -/
inductive Passes : List Char → Nat → List Char → Prop
  | here {cs} : Passes cs 0 cs
  | interpolation {inner cs i rest} : '\x7d' ∉ inner → Passes cs i rest →
    Passes ('\x7b' :: (inner ++ '\x7d' :: cs)) (inner.length + 2 + i) rest
  | brace {c cs i rest} : isBrace c = true → Passes cs i rest →
    Passes ('\\' :: c :: cs) (2 + i) rest
  | char {c cs i rest} : c ≠ '\x7b' → (∀ d ds, c = '\\' → cs = d :: ds → isBrace d = false) →
    Passes cs i rest → Passes (c :: cs) (1 + i) rest

theorem Passes.drop {cs rest : List Char} {i : Nat} (h : Passes cs i rest) : cs.drop i = rest := by
  induction h with
  | here => rfl
  | @interpolation inner cs i rest _ _ ih =>
    have split : '\x7b' :: (inner ++ '\x7d' :: cs) = ('\x7b' :: (inner ++ ['\x7d'])) ++ cs := by
      simp
    rw [split, ← List.drop_drop, List.drop_left' (by simp), ih]
  | brace _ _ ih =>
    rw [← List.drop_drop, List.drop_succ_cons, List.drop_succ_cons, List.drop_zero, ih]
  | char _ _ _ ih => rw [← List.drop_drop, List.drop_succ_cons, List.drop_zero, ih]

theorem Passes.trans {cs ds rest : List Char} {i j : Nat} (h : Passes cs i ds)
    (h' : Passes ds j rest) : Passes cs (i + j) rest := by
  induction h with
  | here => simpa using h'
  | interpolation hi _ ih =>
    rw [Nat.add_assoc]
    exact .interpolation hi (ih h')
  | brace hc _ ih =>
    rw [Nat.add_assoc]
    exact .brace hc (ih h')
  | char hc hs _ ih =>
    rw [Nat.add_assoc]
    exact .char hc hs (ih h')

/-- The brace at the index opens an interpolation with these characters in it. -/
def Opens (cs : List Char) (i : Nat) (inner : List Char) : Prop :=
  ∃ rest, Passes cs i ('\x7b' :: (inner ++ '\x7d' :: rest)) ∧ '\x7d' ∉ inner

/-- The brace at the index is left open. -/
def LeftOpen (cs : List Char) (i : Nat) : Prop :=
  ∃ rest, Passes cs i ('\x7b' :: rest) ∧ '\x7d' ∉ rest

theorem Opens.after {cs ds inner : List Char} {i j : Nat} (h : Passes cs i ds)
    (h' : Opens ds j inner) : Opens cs (i + j) inner := by
  obtain ⟨rest, hp, hi⟩ := h'
  exact ⟨rest, h.trans hp, hi⟩

theorem LeftOpen.after {cs ds : List Char} {i j : Nat} (h : Passes cs i ds)
    (h' : LeftOpen ds j) : LeftOpen cs (i + j) := by
  obtain ⟨rest, hp, hr⟩ := h'
  exact ⟨rest, h.trans hp, hr⟩

/-- What stands between braces stands in the text behind the first of them. -/
theorem Opens.getElem? {cs inner : List Char} {m : Nat} (h : Opens cs m inner) {k : Nat}
    (hk : k < inner.length) : cs[m + 1 + k]? = inner[k]? := by
  obtain ⟨rest, hp, -⟩ := h
  rw [Nat.add_assoc, ← List.getElem?_drop, hp.drop, Nat.add_comm 1 k, List.getElem?_cons_succ,
    List.getElem?_append_left hk]

theorem Opens.mem {cs inner : List Char} {m : Nat} (h : Opens cs m inner) :
    '\x7d' ∈ cs := by
  obtain ⟨rest, hp, -⟩ := h
  refine List.mem_of_mem_drop (i := m) ?_
  rw [hp.drop]
  simp

theorem LeftOpen.getElem? {cs : List Char} {m : Nat} (h : LeftOpen cs m) :
    cs[m]? = some '\x7b' := by
  obtain ⟨rest, hp, -⟩ := h
  rw [← Nat.add_zero m, ← List.getElem?_drop, hp.drop]
  rfl

/-- The closing brace stands in the text. -/
theorem Opens.lt {cs inner : List Char} {m : Nat} (h : Opens cs m inner) :
    m + 1 + inner.length < cs.length := by
  obtain ⟨rest, hp, -⟩ := h
  have hlen := congrArg List.length hp.drop
  simp only [List.length_drop, List.length_cons, List.length_append] at hlen
  omega

/-! ## Splitting a text -/

/-- What the splitting of the characters from index `i` on gives, as a relation: an interpolation is
read, a brace is left open, or a character is passed. -/
inductive Splits (q : QuotedText) (o : Nat) : Nat → List Char → Except ReadError (List Part) → Prop
  | nil {i} : Splits q o i [] (.ok [])
  | expr {i inner rest r} : '\x7d' ∉ inner → Splits q o (i + (inner.length + 2)) rest r →
    Splits q o i ('\x7b' :: (inner ++ '\x7d' :: rest)) (do
      let e ← interpolation q o i inner
      let ps ← r
      return .expr e :: ps)
  | unclosed {i rest} : '\x7d' ∉ rest →
    Splits q o i ('\x7b' :: rest) (.error ⟨.unclosedInterpolation, o + q.place i⟩)
  | pass {i cs w rest r} (c) : Passes cs w rest → Splits q o (i + w) rest r →
    Splits q o i cs (do
      let ps ← r
      return prepend c ps)

theorem splits_partsFrom (q : QuotedText) (o i : Nat) (cs : List Char) :
    Splits q o i cs (partsFrom q o i cs) := by
  fun_induction partsFrom q o i cs with
  | case1 => exact .nil
  | case2 i cs inner hlen ih =>
    have closed : cs = inner ++ '\x7d' :: cs.drop (inner.length + 1) := Text.eq_append_of_closed hlen
    have split := Splits.expr (i := i) (Text.not_mem_enclosed _ cs) ih
    rwa [← closed] at split
  | case3 i cs inner hlen => exact .unclosed (Text.not_mem_of_unclosed hlen)
  | case4 i c cs hc ih => exact .pass c (.brace hc .here) ih
  | case5 i c cs hc ih =>
    refine .pass '\\' (.char (by decide) (fun d ds _ he => ?_) .here) ih
    obtain ⟨rfl, -⟩ := List.cons.inj he
    simpa using hc
  | case6 i c cs hopen hslash ih =>
    exact .pass c (.char hopen (fun d ds h he => absurd he (hslash d ds h)) .here) ih

variable {q : QuotedText} {o i : Nat} {cs : List Char}

/-- An expression in a text was read from the characters between its braces. -/
theorem Splits.opens {r : Except ReadError (List Part)} (h : Splits q o i cs r) {ps : List Part}
    {e : Expr} (hr : r = .ok ps) (he : .expr e ∈ ps) :
    ∃ m inner, Opens cs m inner ∧ interpolation q o (i + m) inner = .ok e := by
  induction h generalizing ps with
  | nil =>
    obtain rfl := Except.ok.inj hr
    exact absurd he (by simp)
  | @expr i inner rest r hi _ ih =>
    obtain ⟨x, hx, hr⟩ := bind_eq_ok.mp hr
    obtain ⟨qs, hqs, hr⟩ := bind_eq_ok.mp hr
    obtain rfl := Except.ok.inj hr
    rcases List.mem_cons.mp he with heq | he
    · obtain rfl := Part.expr.inj heq
      exact ⟨0, inner, ⟨rest, .here, hi⟩, hx⟩
    · obtain ⟨m, inner', hm, hx'⟩ := ih hqs he
      exact ⟨_, inner', hm.after (.interpolation hi .here), by rwa [← Nat.add_assoc]⟩
  | unclosed => exact absurd hr (by simp)
  | pass c hp _ ih =>
    obtain ⟨qs, hqs, hr⟩ := bind_eq_ok.mp hr
    obtain rfl := Except.ok.inj hr
    obtain ⟨m, inner, hm, hx⟩ := ih hqs (mem_prepend.mp he)
    exact ⟨_, inner, hm.after hp, by rwa [← Nat.add_assoc]⟩

/-- A text is refused for a brace that is left open, or for one of its interpolations. -/
theorem Splits.fault {r : Except ReadError (List Part)} (h : Splits q o i cs r) {e : ReadError}
    (hr : r = .error e) :
    (∃ m, LeftOpen cs m ∧ e = ⟨.unclosedInterpolation, o + q.place (i + m)⟩) ∨
      ∃ m inner, Opens cs m inner ∧ interpolation q o (i + m) inner = .error e := by
  -- What is found behind the first `w` characters is found in the text.
  have behind : ∀ {cs rest : List Char} {i w : Nat}, Passes cs w rest →
      ((∃ m, LeftOpen rest m ∧ e = ⟨.unclosedInterpolation, o + q.place (i + w + m)⟩) ∨
        ∃ m inner, Opens rest m inner ∧ interpolation q o (i + w + m) inner = .error e) →
      (∃ m, LeftOpen cs m ∧ e = ⟨.unclosedInterpolation, o + q.place (i + m)⟩) ∨
        ∃ m inner, Opens cs m inner ∧ interpolation q o (i + m) inner = .error e := by
    rintro cs rest i w hp (⟨m, hm, he⟩ | ⟨m, inner, hm, he⟩)
    · exact .inl ⟨_, hm.after hp, by rwa [← Nat.add_assoc]⟩
    · exact .inr ⟨_, inner, hm.after hp, by rwa [← Nat.add_assoc]⟩
  induction h with
  | nil => exact absurd hr (by simp)
  | @expr i inner rest r hi _ ih =>
    rcases bind_eq_error.mp hr with hx | ⟨x, -, hr⟩
    · exact .inr ⟨0, inner, ⟨rest, .here, hi⟩, hx⟩
    rcases bind_eq_error.mp hr with hps | ⟨ps, -, hr⟩
    · exact behind (.interpolation hi .here) (ih hps)
    · exact absurd hr (by simp [pure, Except.pure])
  | @unclosed i rest hrest => exact .inl ⟨0, ⟨rest, .here, hrest⟩, (Except.error.inj hr).symm⟩
  | pass c hp _ ih =>
    rcases bind_eq_error.mp hr with hps | ⟨ps, -, hr⟩
    · exact behind hp (ih hps)
    · exact absurd hr (by simp [pure, Except.pure])

/-! ## Interpolations -/

/-- The tokens of a fragment are its tokens alone, moved to their places. -/
theorem tokenize_of_scanAt {table : List Nat} {cs : List Char} {ts : List Token}
    (h : (scanAt table cs).result = .ok ts) :
    ∃ us, tokenize cs = .ok us ∧
      ts = us.map fun t => { t with offset := placeIn table t.offset } := by
  unfold tokenize
  unfold scanAt at h
  match scan cs, h with
  | ⟨us, none⟩, h => exact ⟨us, rfl, (Except.ok.inj h).symm⟩

/-- The fault of a fragment is its fault alone, moved to its place. -/
theorem error_of_scanAt {table : List Nat} {cs : List Char} {e : ReadError}
    (h : (scanAt table cs).result = .error e) :
    ∃ e₀, tokenize cs = .error e₀ ∧ e = { e₀ with offset := placeIn table e₀.offset } := by
  unfold tokenize
  unfold scanAt at h
  match scan cs, h with
  | ⟨us, some e₀⟩, h => exact ⟨e₀, rfl, (Except.error.inj h).symm⟩

variable {inner : List Char} {e : Expr}

/-- How the text scans what stands behind its brace at the index, up to the closing one. -/
def spanScan (q : QuotedText) (o i : Nat) (inner : List Char) : Scan :=
  scanAt ((List.range' (i + 1) (inner.length + 1)).map (o + q.place ·)) inner

theorem interpolation_eq_ok_iff : interpolation q o i inner = .ok e ↔
    ∃ ts, (spanScan q o i inner).result = .ok ts ∧ Read.program ts = .ok [e] := by
  constructor
  · intro h
    obtain ⟨ts, hts, hread⟩ := bind_eq_ok.mp h
    obtain ⟨es, hes, hone⟩ := bind_eq_ok.mp hread
    refine ⟨ts, hts, ?_⟩
    match es, hone with
    | [x], hone => rw [hes, Except.ok.inj hone]
  · rintro ⟨ts, hts, hes⟩
    exact bind_eq_ok.mpr ⟨ts, hts, bind_eq_ok.mpr ⟨[e], hes, rfl⟩⟩

/-- The span is refused: for its characters, for its tokens, or for how many expressions those
are. -/
def RefusesSpan (q : QuotedText) (o i : Nat) (inner : List Char) (err : ReadError) : Prop :=
  (spanScan q o i inner).result = .error err ∨
    ∃ ts, (spanScan q o i inner).result = .ok ts ∧ (Read.program ts = .error err ∨
      ∃ es, Read.program ts = .ok es ∧ es.length ≠ 1 ∧
        err = ⟨.interpolationCount es.length, o + q.place i⟩)

theorem refusesSpan_of_interpolation {err : ReadError}
    (h : interpolation q o i inner = .error err) : RefusesSpan q o i inner err := by
  rcases bind_eq_error.mp h with hs | ⟨ts, hts, hread⟩
  · exact .inl hs
  refine .inr ⟨ts, hts, ?_⟩
  rcases bind_eq_error.mp hread with hp | ⟨es, hes, hcount⟩
  · exact .inl hp
  · refine .inr ⟨es, hes, ?_⟩
    match es, hcount with
    | [], hcount | _ :: _ :: _, hcount => exact ⟨by simp, (Except.error.inj hcount).symm⟩

/-- The places of an interpolation are places of the text around it. -/
theorem placeIn_interpolation {k : Nat} (hk : k ≤ inner.length) :
    placeIn ((List.range' (i + 1) (inner.length + 1)).map (o + q.place ·)) k =
      o + q.place (i + 1 + k) := by
  simp [placeIn, Nat.lt_succ_of_le hk]

/-- The tokens of an interpolation, moved to their places in the text. -/
def moved (q : QuotedText) (o i : Nat) (us : List Token) : List Token :=
  us.map fun t => { t with offset := o + q.place (i + 1 + t.offset) }

theorem moved_of_spanScan {ts : List Token} (h : (spanScan q o i inner).result = .ok ts) :
    ∃ us, tokenize inner = .ok us ∧ ts = moved q o i us := by
  obtain ⟨us, hus, rfl⟩ := tokenize_of_scanAt h
  refine ⟨us, hus, List.map_congr_left fun t ht => ?_⟩
  rw [placeIn_interpolation (offset_le_of_tokenize hus ht)]

/-- **An interpolation is read from the characters between the braces.** -/
theorem interpolation_eq_ok (h : interpolation q o i inner = .ok e) :
    ∃ us, tokenize inner = .ok us ∧ Read.program (moved q o i us) = .ok [e] := by
  obtain ⟨ts, hts, hread⟩ := interpolation_eq_ok_iff.mp h
  obtain ⟨us, hus, rfl⟩ := moved_of_spanScan hts
  exact ⟨us, hus, hread⟩

/-- An interpolation is refused for its characters, for its tokens, or for the number of
expressions in it. -/
theorem interpolation_eq_error {err : ReadError} (h : interpolation q o i inner = .error err) :
    (∃ e₀, tokenize inner = .error e₀ ∧
      err = { e₀ with offset := o + q.place (i + 1 + e₀.offset) }) ∨
    (∃ us, tokenize inner = .ok us ∧ Read.program (moved q o i us) = .error err) ∨
    ∃ n, err = ⟨.interpolationCount n, o + q.place i⟩ := by
  rcases refusesSpan_of_interpolation h with hs | ⟨ts, hts, hp | ⟨es, -, -, he⟩⟩
  · obtain ⟨e₀, he₀, rfl⟩ := error_of_scanAt hs
    refine .inl ⟨e₀, he₀, ?_⟩
    rw [placeIn_interpolation (Nat.le_of_lt (offset_lt_of_tokenize he₀))]
  · obtain ⟨us, hus, rfl⟩ := moved_of_spanScan hts
    exact .inr (.inl ⟨us, hus, hp⟩)
  · exact .inr (.inr ⟨es.length, he⟩)

/-- A text has no closing brace if there is none where it is written. -/
theorem not_mem_chars_of_tokenize {ts : List Token} {k : Nat}
    (hcs : '\x7d' ∉ cs) (hts : tokenize cs = .ok ts) (hk : ⟨.text q, k⟩ ∈ ts) :
    '\x7d' ∉ q.chars := by
  intro h
  obtain ⟨i, hi⟩ := List.mem_iff_getElem?.mp h
  exact hcs (List.mem_of_getElem? ((writtenAt_of_tokenize hts hk).brace (by decide) hi).1)

/-- The texts in an interpolation are texts of the characters between the braces, and their offsets
are found by the places of the text around them. -/
theorem texts_of_interpolation (h : interpolation q o i inner = .ok e) :
    e.Texts fun q' o' => ∃ ts k, tokenize inner = .ok ts ∧ ⟨.text q', k⟩ ∈ ts ∧
      o' = o + q.place (i + 1 + k) := by
  obtain ⟨us, hus, hprogram⟩ := interpolation_eq_ok h
  refine (Read.texts_of_program hprogram e (by simp)).mono fun y hy q' o' he => ?_
  obtain ⟨⟨l, k⟩, hk, ht⟩ := List.mem_map.mp (hy q' o' he)
  obtain ⟨rfl, rfl⟩ := Token.mk.inj ht
  exact ⟨us, k, hus, hk, rfl⟩

end Template

end Radix
