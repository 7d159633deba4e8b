import Radix.Proofs.Token.Spelling

/-!
# Proofs/Token/Cover — the tokens of a source cover it

`Covers` puts a source together again from its tokens: gaps of blanks and comments, and between them
the spellings, each as long as it can be.  A scan is such a covering of all of the source, or of what
stands before the fault that ended it (`covers_scanFrom`), and `tokenize_cuts` says so of whole
sources.
-/

namespace Radix

open Lexical

/-! ## Coverings -/

/-- The characters mean nothing in front of `rest`: they are blanks and comments, and a comment goes
to the end of its line. -/
inductive Gap (rest : List Char) : List Char → Prop
  | nil : Gap rest []
  | blank {c g} : isGap c = true → Gap rest g → Gap rest (c :: g)
  | comment {cs g} : '\n' ∉ cs → (∀ c ds, g ++ rest = c :: ds → c = '\n') → Gap rest g →
    Gap rest ('#' :: (cs ++ g))

/-- The tokens cover the source, whose first character has the first offset, up to the second
offset; `rest` is what is left there. -/
inductive Covers : Nat → List Char → List Token → Nat → List Char → Prop
  | gap {o g rest} : Gap rest g → Covers o (g ++ rest) [] (o + g.length) rest
  | token {o g l w cs ts o' rest} : Gap (w ++ cs) g → Spelled l w → NoLonger w.length (w ++ cs) →
    Covers (o + g.length + w.length) cs ts o' rest →
    Covers o (g ++ (w ++ cs)) (⟨l, o + g.length⟩ :: ts) o' rest

/-- The source up to the offset `stop` is cut into the tokens. -/
structure Cut (source : List Char) (ts : List Token) (stop : Nat) : Prop where
  covers : Covers 0 source ts stop (source.drop stop)
  increasing : (ts.map (·.offset) ++ [stop]).Pairwise (· < ·)
  words : ∀ t ∈ ts, t.lexeme ≠ .stop

/-! ## Gaps -/

theorem Gap.append {g g' rest : List Char} (h : Gap (g' ++ rest) g) (h' : Gap rest g') :
    Gap rest (g ++ g') := by
  induction h with
  | nil => exact h'
  | blank hc _ ih => exact .blank hc ih
  | @comment cs g hcs hend _ ih =>
    rw [List.cons_append, List.append_assoc]
    exact .comment hcs (by rwa [List.append_assoc]) ih

theorem gap_of_blanks {g : List Char} (h : ∀ c ∈ g, isGap c = true) (rest : List Char) :
    Gap rest g := by
  induction g with
  | nil => exact .nil
  | cons c g ih => exact .blank (h c (by simp)) (ih fun d hd => h d (by simp [hd]))

namespace Covers

variable {o o' : Nat} {cs g w rest : List Char} {ts : List Token} {l : Lexeme}

theorem nil (o : Nat) (rest : List Char) : Covers o rest [] o rest := .gap .nil

/-- A covering with a gap more in front. -/
theorem behind (hg : Gap cs g) (h : Covers (o + g.length) cs ts o' rest) :
    Covers o (g ++ cs) ts o' rest := by
  have grown : ∀ g' : List Char, o + g.length + g'.length = o + (g ++ g').length := by
    intro g'
    rw [List.length_append, Nat.add_assoc]
  cases h with
  | gap hg' =>
    rw [grown, ← List.append_assoc]
    exact .gap (hg.append hg')
  | token hg' hs hlong h =>
    rw [grown] at h ⊢
    rw [← List.append_assoc]
    exact .token (hg.append hg') hs hlong h

/-! ## What a covering says -/

theorem drop (h : Covers o cs ts o' rest) : o ≤ o' ∧ rest = cs.drop (o' - o) := by
  induction h with
  | gap => exact ⟨by omega, by simp⟩
  | @token o g l w cs ts o' rest _ _ _ _ ih =>
    obtain ⟨hle, rfl⟩ := ih
    refine ⟨by omega, ?_⟩
    have hsplit : o' - o = (g ++ w).length + (o' - (o + g.length + w.length)) := by
      rw [List.length_append]
      omega
    rw [← List.append_assoc, hsplit, List.drop_length_add_append]

/-- A token is spelled at its offset, and nothing longer is. -/
theorem spelled_at (h : Covers o cs ts o' rest) {t : Token} (ht : t ∈ ts) :
    ∃ k w us, t.offset = o + k ∧ cs.drop k = w ++ us ∧ Spelled t.lexeme w ∧
      NoLonger w.length (w ++ us) := by
  induction h with
  | gap => exact absurd ht List.not_mem_nil
  | @token o g l w cs ts o' rest _ hs hlong _ ih =>
    rcases List.mem_cons.mp ht with rfl | ht
    · exact ⟨g.length, w, cs, rfl, List.drop_left, hs, hlong⟩
    · obtain ⟨k, v, us, hk, hdrop, hv⟩ := ih ht
      refine ⟨(g ++ w).length + k, v, us, ?_, ?_, hv⟩
      · rw [hk, List.length_append]
        omega
      · rw [← List.append_assoc, List.drop_length_add_append, hdrop]

theorem ne_stop (h : Covers o cs ts o' rest) : ∀ t ∈ ts, t.lexeme ≠ .stop := by
  induction h with
  | gap => simp
  | token _ hs _ _ ih =>
    refine List.forall_mem_cons.mpr ⟨?_, ih⟩
    rintro rfl
    cases hs

end Covers

theorem Lexical.Spelled.length_pos {l : Lexeme} {w : List Char} (h : Spelled l w) :
    0 < w.length := by
  cases h with
  | keyword k => cases k <;> decide
  | mark m => cases m <;> decide
  | operator op => cases op <;> decide
  | name hs =>
    obtain ⟨c, cs, hs, -⟩ := isName_iff.mp hs
    simp [hs]
  | _ => simp

theorem Covers.increasing {o o' : Nat} {cs rest : List Char} {ts : List Token}
    (h : Covers o cs ts o' rest) :
    (ts.map (·.offset) ++ [o']).Pairwise (· < ·) ∧ ∀ t ∈ ts, o ≤ t.offset ∧ t.offset < o' := by
  induction h with
  | gap => simp
  | @token o g l w cs ts o' rest _ hs _ hcovers ih =>
    have hpos := hs.length_pos
    have hle := hcovers.drop.1
    refine ⟨List.pairwise_cons.mpr ⟨fun p hp => ?_, ih.1⟩, List.forall_mem_cons.mpr ⟨?_, ?_⟩⟩
    · rcases List.mem_append.mp hp with hp | hp
      · obtain ⟨t, ht, rfl⟩ := List.mem_map.mp hp
        have := (ih.2 t ht).1
        dsimp only
        omega
      · obtain rfl := List.mem_singleton.mp hp
        dsimp only
        omega
    · dsimp only
      omega
    · intro t ht
      have := ih.2 t ht
      omega

theorem Covers.cut {source rest : List Char} {ts : List Token} {stop : Nat}
    (h : Covers 0 source ts stop rest) : Cut source ts stop ∧ rest = source.drop stop := by
  obtain rfl : rest = source.drop stop := h.drop.2
  exact ⟨⟨h, h.increasing.1, h.ne_stop⟩, rfl⟩

/-! ## Scanning -/

/-- What a scan of the source from the offset on is to give. -/
inductive ScansTo (o : Nat) (cs : List Char) : Scan → Prop
  | whole {ts} : Covers o cs ts (o + cs.length) [] →
    ScansTo o cs ⟨ts ++ [⟨.stop, o + cs.length⟩], none⟩
  | stuck {ts f o' rest} : Covers o cs ts o' rest → Stuck f rest →
    ScansTo o cs ⟨ts, some ⟨f, o'⟩⟩

namespace ScansTo

variable {o : Nat} {cs g w : List Char} {s : Scan} {l : Lexeme}

theorem behind (hg : Gap cs g) (h : ScansTo (o + g.length) cs s) : ScansTo o (g ++ cs) s := by
  cases h with
  | @whole ts h =>
    rw [Nat.add_assoc, ← List.length_append] at h ⊢
    exact .whole (h.behind hg)
  | stuck h hf => exact .stuck (h.behind hg) hf

theorem token (hs : Spelled l w) (hlong : NoLonger w.length (w ++ cs))
    (h : ScansTo (o + w.length) cs s) : ScansTo o (w ++ cs) (s.prepend ⟨l, o⟩) := by
  cases h with
  | @whole ts h =>
    rw [Nat.add_assoc, ← List.length_append] at h ⊢
    exact .whole (.token .nil hs hlong h)
  | stuck h hf => exact .stuck (.token .nil hs hlong h) hf

end ScansTo

theorem gap_of_begins {cs : List Char} {width : Nat} (h : Begins cs (.gap width)) :
    ∃ g rest, cs = g ++ rest ∧ g.length = width + 1 ∧ Gap rest g := by
  cases h with
  | @blanks g rest hne hg =>
    have := List.length_pos_iff.mpr hne
    exact ⟨g, rest, rfl, by omega, gap_of_blanks hg rest⟩
  | @comment cs rest hcs hend =>
    refine ⟨'#' :: (cs ++ []), rest, by simp, by simp, .comment hcs hend .nil⟩

theorem spelled_of_begins {cs : List Char} {l : Lexeme} {width : Nat}
    (h : Begins cs (.lexeme l width)) : ∃ w rest, cs = w ++ rest ∧ w.length = width + 1 ∧
      Spelled l w ∧ NoLonger w.length (w ++ rest) := by
  cases h with
  | @lexeme l w rest hs hlong =>
    have := hs.length_pos
    exact ⟨w, rest, rfl, by omega, hs, hlong⟩

theorem stuck_of_begins {cs : List Char} {f : ReadFault} (h : Begins cs (.fault f)) :
    Stuck f cs := by
  cases h with
  | fault hf => exact hf

/-- Something stands where a scan is stuck. -/
theorem Lexical.Stuck.ne_nil {f : ReadFault} {cs : List Char} (h : Stuck f cs) : cs ≠ [] := by
  cases h <;> simp

theorem Lexical.Stuck.lexical {f : ReadFault} {cs : List Char} (h : Stuck f cs) :
    f.kind = .lexical := by
  cases h <;> rfl

/-- **A scan covers the source, or what stands before its fault.** -/
theorem scansTo_scanFrom (o : Nat) (cs : List Char) : ScansTo o cs (scanFrom o cs) := by
  -- The characters after the first that are left, as what is left of the source.
  have left : ∀ {c : Char} {cs w rest : List Char} {width : Nat}, c :: cs = w ++ rest →
      w.length = width + 1 → cs.drop width = rest := by
    intro c cs w rest width hw hlen
    rw [← List.drop_succ_cons (a := c), hw, ← hlen, List.drop_left]
  fun_induction scanFrom o cs with
  | case1 o => exact .whole (.nil o [])
  | case2 o c cs width hfront ih =>
    obtain ⟨g, rest, hsrc, hlen, hg⟩ := gap_of_begins (hfront ▸ begins_front c cs)
    rw [left hsrc hlen, Nat.add_assoc, ← hlen] at ih
    rw [left hsrc hlen, Nat.add_assoc, ← hlen, hsrc]
    exact ih.behind hg
  | case3 o c cs l width hfront ih =>
    obtain ⟨w, rest, hsrc, hlen, hs, hlong⟩ := spelled_of_begins (hfront ▸ begins_front c cs)
    rw [left hsrc hlen, Nat.add_assoc, ← hlen] at ih
    rw [left hsrc hlen, Nat.add_assoc, ← hlen, hsrc]
    exact ih.token hs hlong
  | case4 o c cs f hfront => exact .stuck (.nil o _) (stuck_of_begins (hfront ▸ begins_front c cs))

theorem tokens_of_tokenize {source : List Char} {ts : List Token} (h : tokenize source = .ok ts) :
    ∃ words, ts = words ++ [⟨.stop, source.length⟩] ∧ Cut source words source.length := by
  have hscan : ScansTo 0 source (scan source) := scansTo_scanFrom 0 source
  unfold tokenize at h
  generalize scan source = s at h hscan
  cases hscan with
  | @whole words hcovers =>
    rw [Nat.zero_add] at h hcovers
    exact ⟨words, (Except.ok.inj h).symm, hcovers.cut.1⟩
  | stuck => exact nomatch h

theorem stuck_of_tokenize {source : List Char} {e : ReadError} (h : tokenize source = .error e) :
    Cut source (scan source).tokens e.offset ∧ Stuck e.fault (source.drop e.offset) := by
  have hscan : ScansTo 0 source (scan source) := scansTo_scanFrom 0 source
  unfold tokenize at h
  generalize scan source = s at h hscan ⊢
  cases hscan with
  | whole => exact nomatch h
  | stuck hcovers hf =>
    obtain rfl := Except.error.inj h
    obtain ⟨hcut, rfl⟩ := hcovers.cut
    exact ⟨hcut, hf⟩

theorem offset_le_of_tokenize {source : List Char} {ts : List Token} (h : tokenize source = .ok ts)
    {t : Token} (ht : t ∈ ts) : t.offset ≤ source.length := by
  obtain ⟨words, rfl, hcut⟩ := tokens_of_tokenize h
  rcases List.mem_append.mp ht with ht | ht
  · exact Nat.le_of_lt (hcut.covers.increasing.2 t ht).2
  · exact Nat.le_of_eq (List.mem_singleton.mp ht ▸ rfl)

theorem offset_lt_of_tokenize {source : List Char} {e : ReadError}
    (h : tokenize source = .error e) : e.offset < source.length := by
  by_contra hlen
  exact (stuck_of_tokenize h).2.ne_nil (List.drop_of_length_le (Nat.le_of_not_lt hlen))

/-- Every token but the last is spelled at its offset, and nothing longer is. -/
theorem longest_of_tokenize {source : List Char} {ts : List Token} (h : tokenize source = .ok ts)
    {t : Token} (ht : t ∈ ts) (hstop : t.lexeme ≠ .stop) :
    ∃ w us, source.drop t.offset = w ++ us ∧ Spelled t.lexeme w ∧ NoLonger w.length (w ++ us) := by
  obtain ⟨words, rfl, hcut⟩ := tokens_of_tokenize h
  rcases List.mem_append.mp ht with ht | ht
  · obtain ⟨k, w, us, hk, hdrop, hw⟩ := hcut.covers.spelled_at ht
    rw [hk, Nat.zero_add]
    exact ⟨w, us, hdrop, hw⟩
  · obtain rfl := List.mem_singleton.mp ht
    exact absurd rfl hstop

theorem spelled_of_tokenize {source : List Char} {ts : List Token} (h : tokenize source = .ok ts)
    {t : Token} (ht : t ∈ ts) (hstop : t.lexeme ≠ .stop) :
    ∃ w us, source.drop t.offset = w ++ us ∧ Spelled t.lexeme w := by
  obtain ⟨w, us, hdrop, hw, -⟩ := longest_of_tokenize h ht hstop
  exact ⟨w, us, hdrop, hw⟩

/-- **A source is cut into its tokens, with nothing but gaps between them and each as long as can
be.**  The last token marks the end of the source.  If a fault ends the scan, the source is cut into
the tokens before it, and where it stands no token can begin or something is left unclosed. -/
theorem tokenize_cuts (source : List Char) :
    match tokenize source with
    | .ok ts => ∃ words, ts = words ++ [⟨.stop, source.length⟩] ∧ Cut source words source.length
    | .error e => Cut source (scan source).tokens e.offset ∧
        Stuck e.fault (source.drop e.offset) := by
  match h : tokenize source with
  | .ok ts => exact tokens_of_tokenize h
  | .error e => exact stuck_of_tokenize h

end Radix
