import Radix.Token.Scan

/-!
# Proofs/Token/Scan — a name alone and a quoted text alone

What the scanner makes of two sources that stand for one token each.  A name is scanned as itself
(`scan_name`).  A quoted text is scanned as the characters that the source between the quotes
decodes to (`scan_quoted`); `Decodes` says which these are, piece by piece, so a text is decoded by
putting its pieces together.
-/

namespace Radix

namespace Lexical

/-! ## Names -/

/-- Is the word a name?  It consists of letters, digits and underscores, starts with no digit, and
is no keyword. -/
def isName (s : String) : Bool :=
  match s.toList with
  | [] => false
  | c :: cs => isNameStart c && cs.all isNameChar && (Keyword.ofSpelling? s).isNone

theorem isName_iff {s : String} : isName s = true ↔ ∃ c cs, s.toList = c :: cs ∧
    isNameStart c = true ∧ (∀ d ∈ cs, isNameChar d = true) ∧ Keyword.ofSpelling? s = none := by
  unfold isName
  split
  · next h => simp [h]
  · next c cs h => simp [h, and_assoc]

theorem isNameChar_of_isNameStart {c : Char} (h : isNameStart c = true) : isNameChar c = true := by
  simp only [isNameStart, isNameChar, Char.isAlphanum, Bool.or_eq_true] at h ⊢
  rcases h with h | h
  · exact .inl (.inl h)
  · exact .inr h

/-- Every character of a name is one that a name can go on with. -/
theorem isNameChar_of_mem {s : String} (h : isName s = true) {c : Char} (hc : c ∈ s.toList) :
    isNameChar c = true := by
  obtain ⟨d, ds, hs, hd, hds, -⟩ := isName_iff.mp h
  rw [hs] at hc
  rcases List.mem_cons.mp hc with rfl | hc
  · exact isNameChar_of_isNameStart hd
  · exact hds c hc

theorem isDigit_of_isNameStart {c : Char} (h : isNameStart c = true) : c.isDigit = false := by
  rw [Bool.eq_false_iff]
  intro hd
  have digit : c.val ≤ '9'.val := of_decide_eq_true (Bool.and_eq_true_iff.mp hd).2
  rcases Bool.or_eq_true_iff.mp h with h | h
  · rcases Bool.or_eq_true_iff.mp h with h | h
    · obtain ⟨letter, -⟩ : 'A'.val ≤ c.val ∧ _ := of_decide_eq_true h
      exact absurd (UInt32.le_trans letter digit) (by decide)
    · have letter : 'a'.val ≤ c.val := of_decide_eq_true (Bool.and_eq_true_iff.mp h).1
      exact absurd (UInt32.le_trans letter digit) (by decide)
  · obtain rfl := of_decide_eq_true h
    exact absurd hd (by decide)

/-- A word has no mark of a base. -/
theorem baseMark?_of_isNameChar {cs : List Char} (h : ∀ d ∈ cs, isNameChar d = true) :
    baseMark? cs = none := by
  have noAt : '@' ∉ cs := fun hat => absurd (h '@' hat) (by decide)
  unfold baseMark?
  split
  · simp at noAt
  · simp at noAt
  · rfl

theorem isGap_of_isNameStart {c : Char} (h : isNameStart c = true) : isGap c = false := by
  match hc : isGap c with
  | false => rfl
  | true =>
    simp only [isGap, Bool.or_eq_true, decide_eq_true_eq] at hc
    rcases hc with ((rfl | rfl) | rfl) | rfl <;> exact absurd h (by decide)

theorem front_of_isNameStart {c : Char} (h : isNameStart c = true) (cs : List Char) :
    front c cs = ((if c = 'b' then baseMark? cs else none).elim (word c cs)
      fun (base, width, rest) => payload base width rest) := by
  have ne : ∀ d : Char, isNameStart d = false → c ≠ d := fun d hd hc => by
    rw [hc, hd] at h
    exact absurd h (by decide)
  unfold front
  rw [if_neg (by simp [isGap_of_isNameStart h]), if_neg (ne '#' (by decide)),
    if_neg (ne '\n' (by decide)), if_neg (ne '"' (by decide)),
    if_neg (by simp [isDigit_of_isNameStart h]), if_pos h]
  cases (if c = 'b' then baseMark? cs else none) <;> rfl

/-- A character that can start a name starts a word, unless it is the `b` of a based numeral. -/
theorem front_word {c : Char} {cs : List Char} (h : isNameStart c = true)
    (hb : c = 'b' → baseMark? cs = none) : front c cs = word c cs := by
  rw [front_of_isNameStart h]
  split
  · next hc => rw [hb hc, Option.elim_none]
  · rfl

theorem front_based {base width : Nat} {cs rest : List Char}
    (h : baseMark? cs = some (base, width, rest)) : front 'b' cs = payload base width rest := by
  rw [front_of_isNameStart (by decide), if_pos rfl, h, Option.elim_some]

/-- Nothing but the word stands at the front. -/
theorem front_name {s : String} {c : Char} {cs : List Char} (hs : s.toList = c :: cs)
    (h : isName s = true) : front c cs = .lexeme (.name s) cs.length := by
  obtain ⟨d, ds, hd, hstart, hmore, hword⟩ := isName_iff.mp h
  obtain ⟨rfl, rfl⟩ := List.cons.inj (hs.symm.trans hd)
  have hrun : cs.takeWhile isNameChar = cs := by
    have happ : (cs ++ []).takeWhile isNameChar = cs ++ [].takeWhile isNameChar :=
      List.takeWhile_append_of_pos hmore
    simpa using happ
  have hself : String.ofList (c :: cs) = s := by rw [← hs, String.ofList_toList]
  rw [front_word hstart fun _ => baseMark?_of_isNameChar hmore]
  simp only [word, hrun, hself, hword]

/-! ## Quoted texts -/

/-- Whatever closes the text after it, the piece `body` of the source decodes to `chars`. -/
def Decodes (body chars : List Char) : Prop :=
  ∀ column rest ps close, decodeText (column + body.length) rest = some (ps, close) →
    ∃ qs, decodeText column (body ++ rest) = some (qs ++ ps, close) ∧ qs.map (·.1) = chars

theorem decodes_nil : Decodes [] [] := fun _ _ _ _ h => ⟨[], h, rfl⟩

theorem Decodes.append {b b' cs cs' : List Char} (h : Decodes b cs) (h' : Decodes b' cs') :
    Decodes (b ++ b') (cs ++ cs') := by
  intro column rest ps close hrest
  rw [List.length_append, ← Nat.add_assoc] at hrest
  obtain ⟨qs', hqs', rfl⟩ := h' _ rest ps close hrest
  obtain ⟨qs, hqs, rfl⟩ := h column (b' ++ rest) _ close hqs'
  refine ⟨qs ++ qs', ?_, List.map_append⟩
  rw [List.append_assoc, hqs, List.append_assoc]

/-- A character with no meaning between quotes. -/
theorem decodes_plain {c : Char} (hquote : c ≠ '"') (hescape : c ≠ '\\') : Decodes [c] [c] := by
  intro column rest ps close hrest
  refine ⟨[(c, column)], ?_, rfl⟩
  rw [List.singleton_append, decodeText]
  · simp only [List.length_singleton] at hrest
    rw [hrest]
    rfl
  · exact hquote
  · exact fun h _ => hescape h
  · exact fun _ _ h _ => hescape h

theorem decodes_escape (c : Char) : Decodes ['\\', c] ((unescape 0 c).map (·.1)) := by
  intro column rest ps close hrest
  refine ⟨unescape column c, ?_, ?_⟩
  · rw [List.cons_append, List.singleton_append, decodeText]
    simp only [List.length_cons, List.length_nil] at hrest
    rw [hrest]
    rfl
  · unfold unescape
    split
    · rfl
    split
    · rfl
    split <;> rfl

theorem decodes_flatMap {α : Type} {f g : α → List Char} {xs : List α}
    (h : ∀ x ∈ xs, Decodes (f x) (g x)) : Decodes (xs.flatMap f) (xs.flatMap g) := by
  induction xs with
  | nil => exact decodes_nil
  | cons x xs ih =>
    rw [List.flatMap_cons, List.flatMap_cons]
    exact (h x (by simp)).append (ih fun y hy => h y (by simp [hy]))

theorem front_quoted {body chars : List Char} (h : Decodes body chars) :
    ∃ quoted, front '"' (body ++ ['"']) = .lexeme (.text quoted) (body.length + 1) ∧
      quoted.chars = chars := by
  obtain ⟨qs, hqs, rfl⟩ := h 1 ['"'] [] (1 + body.length) rfl
  refine ⟨quotedText qs, ?_, rfl⟩
  rw [front, if_neg (by decide), if_neg (by decide), if_neg (by decide), if_pos rfl, hqs,
    List.append_nil]
  simp only [Nat.add_comm]

end Lexical

/-! ## Whole sources -/

theorem scan_name {s : String} (h : Lexical.isName s = true) :
    scan s.toList = ⟨[⟨.name s, 0⟩, ⟨.stop, s.toList.length⟩], none⟩ := by
  obtain ⟨c, cs, hs, -⟩ := Lexical.isName_iff.mp h
  rw [scan, hs, scanFrom, Lexical.front_name hs h]
  simp [scanFrom, Scan.prepend]

theorem scan_quoted {body chars : List Char} (h : Lexical.Decodes body chars) :
    ∃ quoted o, scan ('"' :: (body ++ ['"'])) = ⟨[⟨.text quoted, 0⟩, ⟨.stop, o⟩], none⟩ ∧
      quoted.chars = chars := by
  obtain ⟨quoted, hfront, hchars⟩ := Lexical.front_quoted h
  refine ⟨quoted, body.length + 2, ?_, hchars⟩
  rw [scan, scanFrom, hfront]
  simp [scanFrom, Scan.prepend]

end Radix
