import Mathlib.Data.List.Forall2
import Mathlib.Data.Option.Basic
import Radix.Proofs.Template.Split

/-!
# Proofs/Template/Place — the tokens of an interpolation stand where they are written

The tokens of an interpolation are counted from its own first character.  It stands in a decoded
text, behind the brace at `m`, and the text stands in the source, behind the quote at `o`, with
escapes in it that take up two places.

```
  k  ──▶  m + 1 + k  ──places──▶  d  ──▶  o + d
```

`QuotedText.Tabulated`: the table of a text leads from its characters to where they are written.
`SpanPlaced`: so it leads from the tokens of an interpolation, its end and a fault in it.  What a
text is split into comes from these tokens (`interpolation_of_partsFrom`), and so does the refusal
of an interpolation (`refusesSpan_of_interpolation`).
-/

namespace Radix

open Lexical Template

/-! ## The table of a text -/

/-- The character that is meant by a backslash and this one behind it, which is no brace. -/
def escapeOf (d : Char) : Char := if d = 'n' then '\n' else if d = 't' then '\t' else d

/-- The source holds the character at the offset, or the backslash of the escape that stands for
it. -/
inductive StandsAt (source : List Char) (p : Nat) : Char → Prop
  | itself {c} : source[p]? = some c → StandsAt source p c
  | escape {d} : source[p]? = some '\\' → source[p + 1]? = some d → isBrace d = false →
    StandsAt source p (escapeOf d)

/-- What stands in a piece of the source stands in the source. -/
theorem StandsAt.within {piece source : List Char} {n k : Nat} {c : Char}
    (h : ∀ j x, piece[j]? = some x → source[n + j]? = some x) (hc : StandsAt piece k c) :
    StandsAt source (n + k) c := by
  cases hc with
  | itself hk => exact .itself (h k c hk)
  | escape hk hd hb => exact .escape (h k _ hk) (h (k + 1) _ hd) hb

theorem Lexical.Writes.standsAt {column : Nat} {cs : List Char} {ps : List (Char × Nat)}
    (h : Writes column cs ps) {c : Char} {p : Nat} (hp : (c, p) ∈ ps) :
    ∃ k, p = column + k ∧ StandsAt cs k c := by
  -- A character that is written further on stands behind what is written first.
  have later : ∀ {n : Nat} {w cs : List Char}, (∃ k, p = n + w.length + k ∧ StandsAt cs k c) →
      ∃ k, p = n + k ∧ StandsAt (w ++ cs) k c := by
    rintro n w cs ⟨k, rfl, hk⟩
    refine ⟨w.length + k, Nat.add_assoc .., hk.within fun j x hj => ?_⟩
    rwa [List.getElem?_append_right (Nat.le_add_right ..), Nat.add_sub_cancel_left]
  induction h with
  | nil => exact absurd hp List.not_mem_nil
  | @plain column d cs ps _ _ _ ih =>
    rcases List.mem_cons.mp hp with he | hp
    · obtain ⟨rfl, rfl⟩ := Prod.mk.inj he
      exact ⟨0, rfl, .itself rfl⟩
    · exact later (w := [d]) (ih hp)
  | newline _ ih =>
    rcases List.mem_cons.mp hp with he | hp
    · obtain ⟨rfl, rfl⟩ := Prod.mk.inj he
      exact ⟨0, rfl, .escape (d := 'n') rfl rfl rfl⟩
    · exact later (w := ['\\', 'n']) (ih hp)
  | tab _ ih =>
    rcases List.mem_cons.mp hp with he | hp
    · obtain ⟨rfl, rfl⟩ := Prod.mk.inj he
      exact ⟨0, rfl, .escape (d := 't') rfl rfl rfl⟩
    · exact later (w := ['\\', 't']) (ih hp)
  | @brace column d cs ps _ _ ih =>
    rcases List.mem_cons.mp hp with he | hp
    · obtain ⟨rfl, rfl⟩ := Prod.mk.inj he
      exact ⟨0, rfl, .itself rfl⟩
    rcases List.mem_cons.mp hp with he | hp
    · obtain ⟨rfl, rfl⟩ := Prod.mk.inj he
      exact ⟨1, rfl, .itself rfl⟩
    · exact later (w := ['\\', d]) (ih hp)
  | @itself column d cs ps hn ht hb _ ih =>
    rcases List.mem_cons.mp hp with he | hp
    · obtain ⟨rfl, rfl⟩ := Prod.mk.inj he
      have stands : StandsAt ('\\' :: c :: cs) 0 (escapeOf c) := .escape rfl rfl hb
      rw [escapeOf, if_neg hn, if_neg ht] at stands
      exact ⟨0, rfl, stands⟩
    · exact later (w := ['\\', d]) (ih hp)

/-- The table of the text, whose quote has the offset, leads from each of its characters to where it
is written in the source. -/
structure QuotedText.Tabulated (source : List Char) (offset : Nat) (q : QuotedText) : Prop where
  oneEach : q.places.length = q.chars.length
  increasing : q.places.Pairwise (· < ·)
  standsAt : ∀ (i : Nat) (c : Char) (d : Nat), q.chars[i]? = some c → q.places[i]? = some d →
    StandsAt source (offset + d) c

theorem QuotedText.place_eq {q : QuotedText} {i d : Nat} (h : q.places[i]? = some d) :
    q.place i = d := by
  rw [place, List.getD_eq_getElem?_getD, h, Option.getD_some]

/-- **The table of a text token is right.** -/
theorem tabulated_of_tokenize {source : List Char} {ts : List Token} {q : QuotedText} {o : Nat}
    (h : tokenize source = .ok ts) (ht : ⟨.text q, o⟩ ∈ ts) : q.Tabulated source o := by
  have written := writtenAt_of_tokenize h ht
  obtain ⟨w, us, hdrop, hw⟩ := spelled_of_tokenize h ht (by simp)
  cases hw with
  | @text cs ps hcs =>
    have oneEach : (quotedText ps).places.length = (quotedText ps).chars.length := by
      simp [quotedText]
    refine ⟨oneEach, List.pairwise_iff_getElem.mpr fun i j hi hj hij => ?_, fun i c d hc hd => ?_⟩
    · have spaced := written.place_add_le (i := i) (d := j - i) (by omega)
      rw [Nat.add_sub_cancel' hij.le, QuotedText.place_eq (List.getElem?_eq_getElem hi),
        QuotedText.place_eq (List.getElem?_eq_getElem hj)] at spaced
      omega
    · obtain ⟨x, hx, rfl⟩ : ∃ x, ps[i]? = some x ∧ x.1 = c := by simpa [quotedText] using hc
      obtain rfl : x.2 = d := by simpa [quotedText, hx] using hd
      obtain ⟨k, hk, stands⟩ := hcs.standsAt (List.mem_of_getElem? hx)
      rw [hk, ← Nat.add_assoc]
      refine stands.within fun j y hj => ?_
      have hlt : j < cs.length := (List.getElem?_eq_some_iff.mp hj).1
      rw [Nat.add_assoc, ← List.getElem?_drop, hdrop, List.cons_append, Nat.add_comm 1 j,
        List.getElem?_cons_succ, List.append_assoc, List.getElem?_append_left hlt, hj]

/-! ## Which spans a text is split at -/

namespace Template

section Passes

variable {cs rest inner : List Char} {i m : Nat}

/-- Where an interpolation stands in front, the text is outside of it only before and behind. -/
theorem Passes.cases_interpolation (hinner : '\x7d' ∉ inner)
    (h : Passes ('\x7b' :: (inner ++ '\x7d' :: cs)) i rest) :
    (i = 0 ∧ rest = '\x7b' :: (inner ++ '\x7d' :: cs)) ∨
      ∃ j, i = inner.length + 2 + j ∧ Passes cs j rest := by
  generalize hds : '\x7b' :: (inner ++ '\x7d' :: cs) = ds at h
  cases h with
  | here => exact .inl ⟨rfl, rfl⟩
  | @interpolation inner' cs' j rest hinner' hp =>
    have htail := (List.cons.inj hds).2
    have hsame : inner = inner' := by
      rw [← Text.enclosed_append hinner cs, htail, Text.enclosed_append hinner' cs']
    subst hsame
    obtain rfl := (List.cons.inj (List.append_cancel_left htail)).2
    exact .inr ⟨j, rfl, hp⟩
  | brace => exact absurd (List.cons.inj hds).1 (by decide)
  | char hc => exact absurd (List.cons.inj hds).1.symm hc

theorem Passes.cases_brace {c : Char} (hc : isBrace c = true)
    (h : Passes ('\\' :: c :: cs) i rest) :
    (i = 0 ∧ rest = '\\' :: c :: cs) ∨ ∃ j, i = 2 + j ∧ Passes cs j rest := by
  cases h with
  | here => exact .inl ⟨rfl, rfl⟩
  | brace _ hp => exact .inr ⟨_, rfl, hp⟩
  | char _ hslash _ => exact absurd hc (by simp [hslash c cs rfl rfl])

theorem Passes.cases_char {c : Char} (hopen : c ≠ '\x7b')
    (hslash : ∀ d ds, c = '\\' → cs = d :: ds → isBrace d = false) (h : Passes (c :: cs) i rest) :
    (i = 0 ∧ rest = c :: cs) ∨ ∃ j, i = 1 + j ∧ Passes cs j rest := by
  cases h with
  | here => exact .inl ⟨rfl, rfl⟩
  | interpolation => exact absurd rfl hopen
  | @brace d cs j _ hd => exact absurd hd (by simp [hslash d cs rfl rfl])
  | char _ _ hp => exact .inr ⟨_, rfl, hp⟩

end Passes

/-- Whatever stands in front of an interpolation is passed first. -/
theorem Opens.of_passes {cs ds inner : List Char} {w m : Nat} (h : Opens cs m inner)
    (hcs : ∀ ds, cs ≠ '\x7b' :: ds) (step : ∀ i rest, Passes cs i rest →
      (i = 0 ∧ rest = cs) ∨ ∃ j, i = w + j ∧ Passes ds j rest) :
    ∃ j, m = w + j ∧ Opens ds j inner := by
  obtain ⟨rest, hp, hinner⟩ := h
  rcases step m _ hp with ⟨-, heq⟩ | ⟨j, rfl, hj⟩
  · exact absurd heq.symm (hcs _)
  · exact ⟨j, rfl, rest, hj, hinner⟩

/-- An interpolation in front is the first one, and any other stands behind it. -/
theorem Opens.cases_interpolation {cs inner inner' : List Char} {m : Nat}
    (hinner : '\x7d' ∉ inner) (h : Opens ('\x7b' :: (inner ++ '\x7d' :: cs)) m inner') :
    (m = 0 ∧ inner' = inner) ∨ ∃ j, m = inner.length + 2 + j ∧ Opens cs j inner' := by
  obtain ⟨rest, hp, hinner'⟩ := h
  rcases hp.cases_interpolation hinner with ⟨rfl, heq⟩ | ⟨j, rfl, hj⟩
  · refine .inl ⟨rfl, ?_⟩
    rw [← Text.enclosed_append hinner' rest, (List.cons.inj heq).2,
      Text.enclosed_append hinner cs]
  · exact .inr ⟨j, rfl, rest, hj, hinner'⟩

/-- **A text that is split was read at every interpolation.** -/
theorem interpolation_of_partsFrom {q : QuotedText} {o i m : Nat} {cs inner : List Char}
    {ps : List Part} (h : partsFrom q o i cs = .ok ps) (hm : Opens cs m inner) :
    ∃ e, interpolation q o (i + m) inner = .ok e ∧ .expr e ∈ ps := by
  -- Behind characters that are passed, the text is read on.
  have passed : ∀ {c : Char} {i w m : Nat} {ds : List Char} {r : Except ReadError (List Part)}
      {ps : List Part}, (r >>= fun qs => pure (prepend c qs)) = .ok ps →
      (∃ j, m = w + j ∧ Opens ds j inner) →
      (∀ {qs j}, r = .ok qs → Opens ds j inner →
        ∃ e, interpolation q o (i + w + j) inner = .ok e ∧ .expr e ∈ qs) →
      ∃ e, interpolation q o (i + m) inner = .ok e ∧ .expr e ∈ ps := by
    rintro c i w m ds r ps h ⟨j, rfl, hj⟩ ih
    obtain ⟨qs, hqs, h⟩ := bind_eq_ok.mp h
    obtain rfl := Except.ok.inj h
    obtain ⟨e, he, hmem⟩ := ih hqs hj
    exact ⟨e, by rwa [← Nat.add_assoc], mem_prepend.mpr hmem⟩
  fun_induction partsFrom q o i cs generalizing ps m with
  | case1 => exact absurd hm.lt (Nat.not_lt_zero _)
  | case2 i cs inner' hlen =>
    rename_i ih
    obtain ⟨x, hx, h⟩ := bind_eq_ok.mp h
    obtain ⟨qs, hqs, h⟩ := bind_eq_ok.mp h
    obtain rfl := Except.ok.inj h
    have closed : cs = inner' ++ '\x7d' :: cs.drop (inner'.length + 1) :=
      Text.eq_append_of_closed hlen
    rw [closed] at hm
    rcases hm.cases_interpolation (Text.not_mem_enclosed _ cs) with ⟨rfl, rfl⟩ | ⟨j, rfl, hj⟩
    · exact ⟨x, hx, List.mem_cons_self⟩
    · obtain ⟨e, he, hmem⟩ := ih hqs hj
      refine ⟨e, ?_, List.mem_cons_of_mem _ hmem⟩
      rwa [← Nat.add_assoc i, ← Nat.add_assoc i]
  | case3 => exact absurd h (by simp [throw, throwThe, MonadExceptOf.throw])
  | case4 i c cs hc ih =>
    exact passed h (hm.of_passes (by simp) fun _ _ hp => hp.cases_brace hc) ih
  | case5 i c cs hc ih =>
    refine passed h (hm.of_passes (by simp) fun _ _ hp => hp.cases_char (by decide) ?_) ih
    intro d ds _ he
    obtain ⟨rfl, -⟩ := List.cons.inj he
    simpa using hc
  | case6 i c cs hopen hslash ih =>
    refine passed h (hm.of_passes (fun ds he => hopen (List.cons.inj he).1) fun _ _ hp =>
      hp.cases_char hopen ?_) ih
    exact fun d ds hd he => absurd he (hslash d ds hd)

/-! ## The tokens of a span -/

/-- By the table, the character `k` behind the brace at the index has the offset `p`. -/
def PutAt (q : QuotedText) (o m k p : Nat) : Prop := ∃ d, q.places[m + 1 + k]? = some d ∧ p = o + d

/-- The text scans the span into the tokens of the span alone, or up to its fault, and all of them
have the offsets of their characters.  The end of the span has that of the closing brace. -/
structure SpanPlaced (source : List Char) (q : QuotedText) (o m : Nat) (inner : List Char) :
    Prop where
  tokens : List.Forall₂ (fun t u => u.lexeme = t.lexeme ∧ PutAt q o m t.offset u.offset)
    (scan inner).tokens (spanScan q o m inner).tokens
  fault : Option.Rel (fun e e' => e'.fault = e.fault ∧ PutAt q o m e.offset e'.offset)
    (scan inner).fault (spanScan q o m inner).fault
  stop : (scan inner).fault = none → ∃ p, PutAt q o m inner.length p ∧
    (spanScan q o m inner).tokens.getLast? = some ⟨.stop, p⟩ ∧
    q.chars[m + 1 + inner.length]? = some '\x7d' ∧ source[p]? = some '\x7d'

section Spans

variable {source : List Char} {q : QuotedText} {o m : Nat} {inner : List Char}

theorem tokenize_of_no_fault (h : (scan inner).fault = none) :
    tokenize inner = .ok (scan inner).tokens := by
  rw [tokenize, Scan.result, h]

theorem tokenize_of_fault {e : ReadError} (h : (scan inner).fault = some e) :
    tokenize inner = .error e := by
  rw [tokenize, Scan.result, h]

/-- Also a scan that ends with a fault has only offsets in its source. -/
theorem offset_le_of_scan {t : Token} (ht : t ∈ (scan inner).tokens) : t.offset ≤ inner.length := by
  cases hf : (scan inner).fault with
  | none => exact offset_le_of_tokenize (tokenize_of_no_fault hf) ht
  | some e =>
    have herror := tokenize_of_fault hf
    have hbefore := ((stuck_of_tokenize herror).1.covers.increasing.2 t ht).2
    have hinside := offset_lt_of_tokenize herror
    omega

theorem Opens.putAt (h : Opens q.chars m inner) (hq : q.Tabulated source o) {k : Nat}
    (hk : k ≤ inner.length) :
    PutAt q o m k (placeIn ((List.range' (m + 1) (inner.length + 1)).map (o + q.place ·)) k) := by
  have hlt : m + 1 + k < q.places.length := by
    have := h.lt
    have := hq.oneEach
    omega
  have hentry := List.getElem?_eq_getElem hlt
  exact ⟨_, hentry, by rw [placeIn_interpolation hk, QuotedText.place_eq hentry]⟩

theorem Opens.closeBrace (h : Opens q.chars m inner) :
    q.chars[m + 1 + inner.length]? = some '\x7d' := by
  obtain ⟨rest, hp, -⟩ := h
  rw [Nat.add_assoc, ← List.getElem?_drop, hp.drop, Nat.add_comm 1, List.getElem?_cons_succ,
    List.getElem?_append_right (Nat.le_refl _), Nat.sub_self, List.getElem?_cons_zero]

/-- **The tokens of a span stand where they are written.** -/
theorem Opens.spanPlaced (h : Opens q.chars m inner) {ts : List Token}
    (hts : tokenize source = .ok ts) (hq : ⟨.text q, o⟩ ∈ ts) :
    SpanPlaced source q o m inner := by
  have table := tabulated_of_tokenize hts hq
  refine ⟨?_, ?_, fun hf => ?_⟩
  · rw [spanScan, scanAt, Scan.relocate, List.forall₂_map_right_iff, List.forall₂_same]
    exact fun t ht => ⟨rfl, h.putAt table (offset_le_of_scan ht)⟩
  · rw [spanScan, scanAt, Scan.relocate]
    cases hf : (scan inner).fault with
    | none => exact .none
    | some e =>
      have hinside := offset_lt_of_tokenize (tokenize_of_fault hf)
      exact .some ⟨rfl, h.putAt table hinside.le⟩
  · obtain ⟨words, hwords, -⟩ := tokens_of_tokenize (tokenize_of_no_fault hf)
    obtain ⟨d, hd, hp⟩ := h.putAt table (Nat.le_refl inner.length)
    refine ⟨o + d, ⟨d, hd, rfl⟩, ?_, h.closeBrace, ?_⟩
    · rw [spanScan, scanAt, Scan.relocate, hwords, List.map_append, List.map_singleton,
        List.getLast?_concat, hp]
    · have hbrace := (writtenAt_of_tokenize hts hq).brace (by decide) h.closeBrace
      rw [← QuotedText.place_eq hd]
      exact hbrace.1

end Spans

/-- **Interpolated tokens keep their place.**  The table of a text token has one entry for each of
its characters, the entries increase, and each leads to where the character is written.  At every
interpolation, the text is scanned into the tokens of what stands between the braces, each at the
offset of its first character by the table, with the end at the closing brace.  What the text is
split into is read from these tokens, and if it is refused, then for them or for a brace that is
left open. -/
theorem interpolated_tokens_placed {source : List Char} {ts : List Token} {q : QuotedText} {o : Nat}
    (hts : tokenize source = .ok ts) (hq : ⟨.text q, o⟩ ∈ ts) :
    q.Tabulated source o ∧
    (∀ m inner, Opens q.chars m inner → SpanPlaced source q o m inner) ∧
    (∀ ps, parts q o = .ok ps → ∀ m inner, Opens q.chars m inner →
      ∃ us e, (spanScan q o m inner).result = .ok us ∧ Read.program us = .ok [e] ∧
        .expr e ∈ ps) ∧
    ∀ e, parts q o = .error e →
      (∃ m, LeftOpen q.chars m ∧ e = ⟨.unclosedInterpolation, o + q.place m⟩) ∨
      ∃ m inner, Opens q.chars m inner ∧ RefusesSpan q o m inner e := by
  refine ⟨tabulated_of_tokenize hts hq, fun m inner h => h.spanPlaced hts hq,
    fun ps hps m inner h => ?_, fun e he => ?_⟩
  · obtain ⟨e, he, hmem⟩ := interpolation_of_partsFrom hps h
    rw [Nat.zero_add] at he
    obtain ⟨us, hus, hread⟩ := interpolation_eq_ok_iff.mp he
    exact ⟨us, e, hus, hread, hmem⟩
  · rcases (splits_partsFrom q o 0 q.chars).fault he with ⟨m, hm, he⟩ | ⟨m, inner, hm, he⟩
    · exact .inl ⟨m, hm, by rw [he, Nat.zero_add]⟩
    · rw [Nat.zero_add] at he
      exact .inr ⟨m, inner, hm, refusesSpan_of_interpolation he⟩

/-! A source with escapes before and inside an interpolation, an escaped brace, and an interpolation
that is no expression. -/

def escapedSource : List Char := "x = \"\\n\x7bf(\\\"b\\\")\x7d\\\x7b\x7b$\x7d\"".toList

def escapedText : QuotedText where
  chars := "\n\x7bf(\"b\")\x7d\\\x7b\x7b$\x7d".toList
  places := [1, 3, 4, 5, 6, 8, 9, 11, 12, 13, 14, 15, 16, 17]

theorem escapedText_opens : Opens escapedText.chars 1 "f(\"b\")".toList ∧
    Opens escapedText.chars 11 ['$'] := by
  have first : Passes escapedText.chars 1 "\x7bf(\"b\")\x7d\\\x7b\x7b$\x7d".toList :=
    .char (by decide) (fun _ _ h => absurd h (by decide)) .here
  have second : Passes "\x7bf(\"b\")\x7d\\\x7b\x7b$\x7d".toList 10 "\x7b$\x7d".toList :=
    @Passes.interpolation "f(\"b\")".toList _ _ _ (by decide) (.brace rfl .here)
  exact ⟨⟨_, first, by decide⟩, ⟨[], first.trans second, by decide⟩⟩

theorem escapedText_placed :
    (tokenize escapedSource = .ok [⟨.name "x", 0⟩, ⟨.mark .assign, 2⟩, ⟨.text escapedText, 4⟩,
        ⟨.stop, 23⟩] ∧
      spanScan escapedText 4 1 "f(\"b\")".toList = ⟨[⟨.name "f", 8⟩, ⟨.mark .openParen, 9⟩,
        ⟨.text (.plain ['b']), 10⟩, ⟨.mark .closeParen, 15⟩, ⟨.stop, 16⟩], none⟩ ∧
      spanScan escapedText 4 11 ['$'] = ⟨[], some ⟨.strayCharacter '$', 20⟩⟩) ∧
    escapedText.Tabulated escapedSource 4 ∧
    SpanPlaced escapedSource escapedText 4 1 "f(\"b\")".toList ∧
    SpanPlaced escapedSource escapedText 4 11 ['$'] := by
  have tokens : tokenize escapedSource = .ok [⟨.name "x", 0⟩, ⟨.mark .assign, 2⟩,
      ⟨.text escapedText, 4⟩, ⟨.stop, 23⟩] := by with_unfolding_all rfl
  obtain ⟨table, spans, -⟩ :=
    interpolated_tokens_placed tokens (q := escapedText) (o := 4) (by simp)
  exact ⟨⟨tokens, by with_unfolding_all rfl, by with_unfolding_all rfl⟩, table,
    spans _ _ escapedText_opens.1, spans _ _ escapedText_opens.2⟩

end Template

end Radix
