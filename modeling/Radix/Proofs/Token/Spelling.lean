import Mathlib.Tactic.FinCases
import Radix.Proofs.Text.Enclosed
import Radix.Proofs.Token.Scan
import Radix.Template

/-!
# Proofs/Token/Spelling — how lexemes are written

`Spelled` says by which characters a lexeme is written, with no word on how they are found in a
source.  `Begins` says what a source can begin with: a blank, a comment up to the end of its line, a
lexeme at a place where none is spelled with more characters, or something with which no lexeme
begins or that is left unclosed.  `begins_front`: this is what `front` makes of a source.
-/

namespace Radix.Lexical

open Template (isBrace)

/-! ## Spellings -/

/-- The decimal digits, one or two, stand for the base. -/
inductive BaseDigits : Nat → List Char → Prop
  | one {d} : d.isDigit = true → BaseDigits (decimal d) [d]
  | two {d e} : d.isDigit = true → e.isDigit = true → BaseDigits (10 * decimal d + decimal e) [d, e]

/-- Written between quotes from the column on, the first characters stand for the others, each with
its distance from the opening quote. -/
inductive Writes : Nat → List Char → List (Char × Nat) → Prop
  | nil {column} : Writes column [] []
  | plain {column c cs ps} : c ≠ '"' → c ≠ '\\' → Writes (column + 1) cs ps →
    Writes column (c :: cs) ((c, column) :: ps)
  | newline {column cs ps} : Writes (column + 2) cs ps →
    Writes column ('\\' :: 'n' :: cs) (('\n', column) :: ps)
  | tab {column cs ps} : Writes (column + 2) cs ps →
    Writes column ('\\' :: 't' :: cs) (('\t', column) :: ps)
  | brace {column c cs ps} : isBrace c = true → Writes (column + 2) cs ps →
    Writes column ('\\' :: c :: cs) (('\\', column) :: (c, column + 1) :: ps)
  | itself {column c cs ps} : c ≠ 'n' → c ≠ 't' → isBrace c = false → Writes (column + 2) cs ps →
    Writes column ('\\' :: c :: cs) ((c, column) :: ps)

/-- The characters write the lexeme. -/
inductive Spelled : Lexeme → List Char → Prop
  | keyword (k) : Spelled (.keyword k) k.spelling.toList
  | mark (m) : Spelled (.mark m) m.spelling.toList
  | operator (op) : Spelled (.operator op) op.symbol.toList
  | newline : Spelled .newline ['\n']
  | name {s} : isName s = true → Spelled (.name s) s.toList
  | number {d ds} : d.isDigit = true → (∀ e ∈ ds, e.isDigit = true) →
    Spelled (.number (d :: ds)) (d :: ds)
  | bare {base ds payload} : BaseDigits base ds → (∀ c ∈ payload, isPayload base c = true) →
    Spelled (.based base payload) ('b' :: (ds ++ '@' :: payload))
  | enclosed {base ds payload} : BaseDigits base ds → ')' ∉ payload →
    Spelled (.based base payload) ('b' :: (ds ++ '@' :: '(' :: (payload ++ [')'])))
  | text {cs ps} : Writes 1 cs ps → Spelled (.text (quotedText ps)) ('"' :: (cs ++ ['"']))

/-- No lexeme is spelled with more than `n` characters at the front of the source. -/
def NoLonger (n : Nat) (source : List Char) : Prop :=
  ∀ l w rest, Spelled l w → source = w ++ rest → w.length ≤ n

/-- Why a source does not begin with a lexeme. -/
inductive Stuck : ReadFault → List Char → Prop
  | stray {c cs} : NoLonger 0 (c :: cs) → Stuck (.strayCharacter c) (c :: cs)
  /-- Nothing that can be written between quotes is followed by a quote. -/
  | text {cs} : (∀ w ps rest, Writes 1 w ps → cs ≠ w ++ '"' :: rest) → Stuck .unclosedText ('"' :: cs)
  | payload {base ds cs} : BaseDigits base ds → ')' ∉ cs →
    Stuck .unclosedPayload ('b' :: (ds ++ '@' :: '(' :: cs))

/-- What a source begins with. -/
inductive Begins : List Char → Front → Prop
  | blanks {g rest} : g ≠ [] → (∀ c ∈ g, isGap c = true) → Begins (g ++ rest) (.gap (g.length - 1))
  | comment {cs rest} : '\n' ∉ cs → (∀ c ds, rest = c :: ds → c = '\n') →
    Begins ('#' :: (cs ++ rest)) (.gap cs.length)
  | lexeme {l w rest} : Spelled l w → NoLonger w.length (w ++ rest) →
    Begins (w ++ rest) (.lexeme l (w.length - 1))
  | fault {f cs} : Stuck f cs → Begins cs (.fault f)

/-! ## Quoted texts -/

theorem Writes.escape {column : Nat} {cs : List Char} {ps : List (Char × Nat)}
    (h : Writes (column + 2) cs ps) (c : Char) :
    Writes column ('\\' :: c :: cs) (unescape column c ++ ps) := by
  unfold unescape
  split
  · next hn => exact hn ▸ .newline h
  split
  · next ht => exact ht ▸ .tab h
  split
  · next hb => exact .brace hb h
  · next hn ht hb => exact .itself hn ht (by simpa [isBrace] using hb) h

theorem decodeText_of_writes {column : Nat} {cs : List Char} {ps : List (Char × Nat)}
    (h : Writes column cs ps) (rest : List Char) :
    decodeText column (cs ++ '"' :: rest) = some (ps, column + cs.length) := by
  have escaped : ∀ {column c cs ps}, decodeText (column + 2) (cs ++ '"' :: rest) =
      some (ps, column + 2 + cs.length) → decodeText column ('\\' :: c :: cs ++ '"' :: rest) =
        some (unescape column c ++ ps, column + ('\\' :: c :: cs).length) := by
    intro column c cs ps hd
    rw [List.cons_append, List.cons_append, decodeText, hd]
    simp only [Option.map_some, List.length_cons, Option.some.injEq, Prod.mk.injEq, true_and]
    omega
  induction h with
  | nil => rfl
  | @plain column c cs ps hq hs _ ih =>
    rw [List.cons_append, decodeText, ih]
    · simp only [Option.map_some, List.length_cons, Option.some.injEq, Prod.mk.injEq, true_and]
      omega
    · exact hq
    · exact fun h _ => hs h
    · exact fun _ _ h _ => hs h
  | newline _ ih => exact escaped ih
  | tab _ ih => exact escaped ih
  | @brace column c cs ps hc _ ih =>
    have hu : unescape column c = [('\\', column), (c, column + 1)] := by
      simp only [isBrace, Bool.or_eq_true, decide_eq_true_eq] at hc
      rcases hc with rfl | rfl <;> rfl
    rw [escaped ih, hu]
    rfl
  | @itself column c cs ps hn ht hc _ ih =>
    have hu : unescape column c = [(c, column)] := by
      rw [unescape, if_neg hn, if_neg ht, if_neg (by simpa [isBrace] using hc)]
    rw [escaped ih, hu]
    rfl

theorem writes_of_decodeText {column close : Nat} {cs : List Char} {ps : List (Char × Nat)}
    (h : decodeText column cs = some (ps, close)) :
    ∃ w rest, cs = w ++ '"' :: rest ∧ Writes column w ps ∧ close = column + w.length := by
  fun_induction decodeText column cs generalizing ps close with
  | case1 => exact absurd h (by simp)
  | case2 column cs =>
    obtain ⟨rfl, rfl⟩ := Prod.mk.inj (Option.some.inj h)
    exact ⟨[], cs, rfl, .nil, rfl⟩
  | case3 => exact absurd h (by simp)
  | case4 column c cs ih =>
    obtain ⟨⟨qs, k⟩, hqs, hk⟩ := Option.map_eq_some_iff.mp h
    obtain ⟨rfl, rfl⟩ := Prod.mk.inj hk
    obtain ⟨w, rest, rfl, hw, rfl⟩ := ih hqs
    refine ⟨'\\' :: c :: w, rest, rfl, hw.escape c, ?_⟩
    simp only [List.length_cons]
    omega
  | case5 column c cs hquote hslash hslash' ih =>
    obtain ⟨⟨qs, k⟩, hqs, hk⟩ := Option.map_eq_some_iff.mp h
    obtain ⟨rfl, rfl⟩ := Prod.mk.inj hk
    obtain ⟨w, rest, rfl, hw, rfl⟩ := ih hqs
    refine ⟨c :: w, rest, rfl, .plain hquote (fun hc => ?_) hw, ?_⟩
    · match w with
      | [] => exact hslash' '"' rest hc rfl
      | d :: w => exact hslash' d (w ++ '"' :: rest) hc rfl
    · simp only [List.length_cons]
      omega

/-! ## Based numerals -/

theorem baseMark?_of_baseDigits {base : Nat} {ds : List Char} (h : BaseDigits base ds)
    (rest : List Char) : baseMark? (ds ++ '@' :: rest) = some (base, ds.length + 1, rest) := by
  cases h with
  | one hd => simp [baseMark?, hd]
  | @two d e hd he =>
    have hat : e ≠ '@' := by
      rintro rfl
      exact absurd he (by decide)
    rw [List.cons_append, List.cons_append, List.nil_append, baseMark?]
    · simp [hd, he]
    · exact hat

theorem baseDigits_of_baseMark? {base width : Nat} {cs rest : List Char}
    (h : baseMark? cs = some (base, width, rest)) :
    ∃ ds, BaseDigits base ds ∧ cs = ds ++ '@' :: rest ∧ width = ds.length + 1 := by
  unfold baseMark? at h
  split at h
  · next d cs =>
    split at h
    · next hd =>
      obtain ⟨rfl, rfl, rfl⟩ : decimal d = base ∧ 2 = width ∧ cs = rest := by simpa using h
      exact ⟨[d], .one hd, rfl, rfl⟩
    · exact absurd h (by simp)
  · next d e cs _ =>
    split at h
    · next hd =>
      obtain ⟨hd, he⟩ := Bool.and_eq_true_iff.mp hd
      obtain ⟨rfl, rfl, rfl⟩ : 10 * decimal d + decimal e = base ∧ 3 = width ∧ cs = rest := by
        simpa using h
      exact ⟨[d, e], .two hd he, rfl, rfl⟩
    · exact absurd h (by simp)
  · exact absurd h (by simp)

theorem BaseDigits.isDigit_of_mem {base : Nat} {ds : List Char} (h : BaseDigits base ds) :
    ∀ d ∈ ds, d.isDigit = true := by
  cases h with
  | one hd => simp [hd]
  | two hd he => simp [hd, he]

/-- A base below 100 is written with its decimal digits. -/
theorem baseDigits_repr {base : Nat} (h : base < 100) : BaseDigits base (Nat.repr base).toList := by
  have digit : ∀ {d : Nat}, d < 10 → d.digitChar.isDigit = true ∧ decimal d.digitChar = d :=
    fun hd => ⟨by simpa using hd, Nat.toNat_digitChar_sub_48_of_lt_ten hd⟩
  rw [Nat.toList_repr]
  by_cases hone : base < 10
  · obtain ⟨hd, hv⟩ := digit hone
    rw [Nat.toDigits_of_lt_base hone]
    simpa only [hv] using BaseDigits.one hd
  · obtain ⟨hd, hv⟩ := digit (d := base / 10) (by omega)
    obtain ⟨he, hw⟩ := digit (d := base % 10) (by omega)
    have halves : Nat.toDigits 10 base =
        Nat.toDigits 10 (base / 10) ++ Nat.toDigits 10 (base % 10) := by
      rw [Nat.toDigits_append_toDigits (by omega) (by omega) (by omega), Nat.div_add_mod]
    rw [halves, Nat.toDigits_of_lt_base (by omega), Nat.toDigits_of_lt_base (by omega),
      List.singleton_append]
    simpa only [hv, hw, Nat.div_add_mod] using BaseDigits.two hd he

/-- What follows the mark of a base. -/
theorem payload_cases (base width : Nat) (cs : List Char) :
    (∃ p rest, cs = '(' :: (p ++ ')' :: rest) ∧ ')' ∉ p ∧
      payload base width cs = .lexeme (.based base p) (width + p.length + 2)) ∨
    (∃ rest, cs = '(' :: rest ∧ ')' ∉ rest ∧ payload base width cs = .fault .unclosedPayload) ∨
    (∀ rest, cs ≠ '(' :: rest) ∧
      payload base width cs = .lexeme (.based base (cs.takeWhile (isPayload base)))
        (width + (cs.takeWhile (isPayload base)).length) := by
  unfold payload
  split
  · next cs =>
    by_cases hlen : (cs.takeWhile (· ≠ ')')).length < cs.length
    · exact .inl ⟨_, _, congrArg ('(' :: ·) (Text.eq_append_of_closed hlen),
        Text.not_mem_enclosed ')' cs, if_pos hlen⟩
    · exact .inr (.inl ⟨cs, rfl, Text.not_mem_of_unclosed hlen, if_neg hlen⟩)
  · next hopen => exact .inr (.inr ⟨fun rest h => hopen rest h, rfl⟩)

/-! ## Nothing longer -/

/-- A lexeme of at least `n` characters is found, or an open payload. -/
def Finds (n : Nat) (f : Front) : Prop :=
  (∃ l width, f = .lexeme l width ∧ n ≤ width + 1) ∨ f = .fault .unclosedPayload

theorem le_length_takeWhile {p : Char → Bool} {v : List Char} (h : ∀ d ∈ v, p d = true)
    (rest : List Char) : v.length ≤ ((v ++ rest).takeWhile p).length := by
  rw [List.takeWhile_append_of_pos h, List.length_append]
  omega

theorem finds_payload (base width : Nat) (cs : List Char) :
    Finds (width + 1) (payload base width cs) := by
  rcases payload_cases base width cs with ⟨p, rest, -, -, h⟩ | ⟨rest, -, -, h⟩ | ⟨-, h⟩
  · exact .inl ⟨_, _, h, by omega⟩
  · exact .inr h
  · exact .inl ⟨_, _, h, by omega⟩

theorem Finds.mono {m n : Nat} {f : Front} (h : Finds n f) (hmn : m ≤ n) : Finds m f := by
  rcases h with ⟨l, width, hf, hn⟩ | hf
  · exact .inl ⟨l, width, hf, by omega⟩
  · exact .inr hf

/-- The first character of what stands at the front is the first character of the source. -/
theorem of_head_any {p : Char → Bool} {c : Char} {cs w rest : List Char} (h : c :: cs = w ++ rest)
    (hp : w.head?.any p = true) : p c = true ∧ ∃ v, w = c :: v ∧ cs = v ++ rest := by
  match w with
  | [] => exact absurd hp (by simp)
  | d :: v =>
    obtain ⟨rfl, rfl⟩ := List.cons.inj h
    exact ⟨by simpa using hp, v, rfl, rfl⟩

theorem finds_word {c : Char} {cs w rest : List Char} (hw : c :: cs = w ++ rest)
    (hstart : w.head?.any isNameStart = true) (hall : w.all isNameChar = true) :
    Finds w.length (front c cs) := by
  obtain ⟨hc, v, rfl, rfl⟩ := of_head_any hw hstart
  have hmore : ∀ d ∈ v, isNameChar d = true :=
    fun d hd => List.all_eq_true.mp hall d (List.mem_cons_of_mem c hd)
  match hb : (if c = 'b' then baseMark? (v ++ rest) else none) with
  | none =>
    rw [front_word hc fun h => by simpa [h] using hb]
    have hlen := le_length_takeWhile hmore rest
    unfold word
    dsimp only
    split
    · exact .inl ⟨_, _, rfl, Nat.succ_le_succ hlen⟩
    · exact .inl ⟨_, _, rfl, Nat.succ_le_succ hlen⟩
  | some (base, width, r) =>
    obtain ⟨rfl, hb⟩ : c = 'b' ∧ baseMark? (v ++ rest) = some (base, width, r) := by
      simpa using hb
    rw [front_based hb]
    refine (finds_payload base width r).mono ?_
    -- The word ends before the `@`.
    obtain ⟨ds, -, heq, rfl⟩ := baseDigits_of_baseMark? hb
    by_contra hlen
    rw [List.length_cons] at hlen
    have hv : (v ++ rest)[ds.length]? = v[ds.length]? := List.getElem?_append_left (by omega)
    have hat : v[ds.length]? = some '@' := by
      rw [← hv, heq, List.getElem?_append_right (Nat.le_refl _), Nat.sub_self]
      rfl
    exact absurd (hmore '@' (List.mem_of_getElem? hat)) (by decide)

theorem front_digit {c : Char} (h : c.isDigit = true) (cs : List Char) :
    front c cs = .lexeme (.number (c :: cs.takeWhile Char.isDigit))
      (cs.takeWhile Char.isDigit).length := by
  have ne : ∀ d : Char, d.isDigit = false → c ≠ d := fun d hd hc => by
    rw [hc, hd] at h
    exact absurd h (by decide)
  have gap : isGap c = false := by
    simp [isGap, ne ' ' (by decide), ne '\t' (by decide), ne '\r' (by decide),
      ne '\x0c' (by decide)]
  unfold front
  rw [if_neg (by simp [gap]), if_neg (ne '#' (by decide)), if_neg (ne '\n' (by decide)),
    if_neg (ne '"' (by decide)), if_pos h]

/-- Is the character none that something else than a sign begins with? -/
def isSignStart (c : Char) : Bool :=
  !(isGap c || c = '#' || c = '\n' || c = '"' || c.isDigit || isNameStart c)

theorem front_sign {c : Char} (h : isSignStart c = true) (cs : List Char) :
    front c cs = (sign (c :: cs)).elim (.fault (.strayCharacter c))
      fun s => .lexeme s.2 (s.1.length - 1) := by
  simp only [isSignStart, Bool.not_eq_true', Bool.or_eq_false_iff, decide_eq_false_iff_not] at h
  obtain ⟨⟨⟨⟨⟨hg, hc⟩, hn⟩, hq⟩, hd⟩, hs⟩ := h
  unfold front
  rw [if_neg (by simp [hg]), if_neg hc, if_neg hn, if_neg hq, if_neg (by simp [hd]),
    if_neg (by simp [hs])]
  cases sign (c :: cs) <;> rfl

theorem finds_sign {s : List Char × Lexeme} (h : s ∈ signs) {c : Char} {cs rest : List Char}
    (hs : c :: cs = s.1 ++ rest) : Finds s.1.length (front c cs) := by
  have starts : ∀ p ∈ signs, p.1.head?.any isSignStart = true := by decide
  have sorted : signs.Pairwise fun a b => b.1.length ≤ a.1.length := by decide
  have isPrefix : s.1.isPrefixOf (c :: cs) = true := by
    rw [hs, List.isPrefixOf_iff_prefix]
    exact List.prefix_append _ _
  rw [front_sign (of_head_any hs (starts s h)).1]
  match hf : sign (c :: cs) with
  | none => exact absurd isPrefix (List.find?_eq_none.mp hf s h)
  | some t =>
    refine .inl ⟨_, _, rfl, ?_⟩
    obtain ⟨-, as, bs, hsplit, hfirst⟩ := List.find?_eq_some_iff_append.mp hf
    -- What stands in the table before the sign that is found is not at the front, and what stands
    -- behind it is no longer.
    rw [hsplit] at h sorted
    rcases List.mem_append.mp h with has | hbs
    · exact absurd isPrefix (by simpa only [Bool.not_eq_true, Bool.not_eq_true'] using hfirst s has)
    rcases List.mem_cons.mp hbs with rfl | hbs
    · omega
    · have := List.rel_of_pairwise_cons (List.pairwise_append.mp sorted).2.1 hbs
      omega

theorem payload_enclosed {base width : Nat} {p : List Char} (h : ')' ∉ p) (rest : List Char) :
    payload base width ('(' :: (p ++ ')' :: rest)) =
      .lexeme (.based base p) (width + p.length + 2) := by
  rw [payload, Text.enclosed_append h, if_pos (by simp)]

theorem ne_openParen_of_isPayload {base : Nat} {c : Char} (h : isPayload base c = true) :
    c ≠ '(' := by
  rintro rfl
  have noDigit : alphabet.idxOf? '(' = none := by decide
  simp [isPayload, isDigitOf, digitValue?, noDigit] at h

/-- A payload that is nothing but digits. -/
theorem payload_bare {base width : Nat} {p : List Char} (h : ∀ c ∈ p, isPayload base c = true) :
    payload base width p = .lexeme (.based base p) (width + p.length) := by
  have hopen : ∀ rest, p ≠ '(' :: rest := by
    rintro rest rfl
    exact ne_openParen_of_isPayload (h '(' (by simp)) rfl
  rcases payload_cases base width p with ⟨_, _, hp, -⟩ | ⟨_, hp, -⟩ | ⟨-, hp⟩
  · exact absurd hp (hopen _)
  · exact absurd hp (hopen _)
  · rw [hp, List.takeWhile_eq_self_iff.mpr h]

theorem finds_bare {base width : Nat} {p : List Char} (h : ∀ c ∈ p, isPayload base c = true)
    (rest : List Char) : Finds (width + 1 + p.length) (payload base width (p ++ rest)) := by
  match p with
  | [] => exact finds_payload base width rest
  | c :: p =>
    have hc : c ≠ '(' := ne_openParen_of_isPayload (h c (by simp))
    rcases payload_cases base width (c :: p ++ rest) with ⟨_, _, hp, -⟩ | ⟨_, hp, -⟩ | ⟨-, hp⟩
    · exact absurd (List.cons.inj hp).1 hc
    · exact absurd (List.cons.inj hp).1 hc
    · have := le_length_takeWhile h rest
      exact .inl ⟨_, _, hp, by omega⟩

theorem front_quote (cs : List Char) :
    front '"' cs = (decodeText 1 cs).elim (.fault .unclosedText)
      fun (ps, close) => .lexeme (.text (quotedText ps)) close := by
  rw [front, if_neg (by decide), if_neg (by decide), if_neg (by decide), if_pos rfl]
  cases decodeText 1 cs <;> rfl

/-- **Whatever is spelled at the front of a source, no less is found there.** -/
theorem finds_front {l : Lexeme} {w rest cs : List Char} {c : Char} (h : Spelled l w)
    (hw : c :: cs = w ++ rest) : Finds w.length (front c cs) := by
  -- A spelling whose first character is known.
  have begins : ∀ {d : Char} {v : List Char}, c :: cs = d :: v ++ rest → c = d ∧ cs = v ++ rest :=
    fun h => List.cons.inj h
  cases h with
  | keyword k => exact finds_word hw (by cases k <;> decide) (by cases k <;> decide)
  | mark m => exact finds_sign (s := (_, .mark m)) (by cases m <;> decide) hw
  | operator op => exact finds_sign (s := (_, .operator op)) (by cases op <;> decide) hw
  | newline =>
    obtain ⟨rfl, -⟩ := begins hw
    exact .inl ⟨.newline, 0, rfl, Nat.le_refl _⟩
  | @name s hs =>
    refine finds_word hw ?_ (List.all_eq_true.mpr fun _ => isNameChar_of_mem hs)
    obtain ⟨d, ds, hd, hstart, -⟩ := isName_iff.mp hs
    simpa [hd] using hstart
  | number hd hds =>
    obtain ⟨rfl, rfl⟩ := begins hw
    rw [front_digit hd]
    exact .inl ⟨_, _, rfl, Nat.succ_le_succ (le_length_takeWhile hds rest)⟩
  | @bare base ds p hds hp =>
    obtain ⟨rfl, rfl⟩ := begins hw
    rw [List.append_assoc, List.cons_append, front_based (baseMark?_of_baseDigits hds _)]
    refine (finds_bare hp rest).mono ?_
    simp only [List.length_cons, List.length_append]
    omega
  | @enclosed base ds p hds hp =>
    obtain ⟨rfl, rfl⟩ := begins hw
    rw [List.append_assoc, List.cons_append, List.cons_append, List.append_assoc,
      List.singleton_append, front_based (baseMark?_of_baseDigits hds _), payload_enclosed hp]
    refine .inl ⟨_, _, rfl, ?_⟩
    simp only [List.length_cons, List.length_append, List.length_nil]
    omega
  | @text v ps hv =>
    obtain ⟨rfl, rfl⟩ := begins hw
    rw [List.append_assoc, List.singleton_append, front_quote, decodeText_of_writes hv]
    refine .inl ⟨_, _, rfl, ?_⟩
    simp only [List.length_cons, List.length_append, List.length_nil]
    omega

theorem noLonger_of_front {c : Char} {cs : List Char} {l : Lexeme} {width : Nat}
    (h : front c cs = .lexeme l width) : NoLonger (width + 1) (c :: cs) := by
  intro l' w rest hs hw
  rcases finds_front hs hw with ⟨_, _, hf, hn⟩ | hf
  · obtain ⟨rfl, rfl⟩ := Front.lexeme.inj (h.symm.trans hf)
    exact hn
  · exact nomatch h.symm.trans hf

/-! ## The front of a source -/

theorem begins_lexeme {c : Char} {cs w : List Char} {l : Lexeme} {width : Nat} (rest : List Char)
    (h : Spelled l w) (hw : c :: cs = w ++ rest) (hwidth : w.length = width + 1)
    (hf : front c cs = .lexeme l width) : Begins (c :: cs) (front c cs) := by
  have hlong := noLonger_of_front hf
  rw [hw, ← hwidth] at hlong
  have := Begins.lexeme h hlong
  rwa [hwidth, Nat.add_sub_cancel, ← hf, ← hw] at this

theorem begins_word {c : Char} {cs : List Char} (hc : isNameStart c = true)
    (hb : c = 'b' → baseMark? cs = none) : Begins (c :: cs) (front c cs) := by
  have hw : c :: cs = c :: cs.takeWhile isNameChar ++ cs.dropWhile isNameChar := by
    rw [List.cons_append, List.takeWhile_append_dropWhile]
  have hword := front_word hc hb
  unfold word at hword
  dsimp only at hword
  split at hword
  · next k hk =>
    have hspelling : k.spelling.toList = c :: cs.takeWhile isNameChar := by
      have := List.find?_some hk
      rw [of_decide_eq_true this, String.toList_ofList]
    exact begins_lexeme _ (hspelling ▸ .keyword k) hw rfl hword
  · next hk =>
    have hspelled : Spelled (.name (String.ofList (c :: cs.takeWhile isNameChar)))
        (String.ofList (c :: cs.takeWhile isNameChar)).toList :=
      .name (isName_iff.mpr ⟨_, _, String.toList_ofList, hc,
        fun _ => List.mem_takeWhile_imp, hk⟩)
    rw [String.toList_ofList] at hspelled
    exact begins_lexeme _ hspelled hw rfl hword

theorem begins_based {base width : Nat} {cs r : List Char}
    (h : baseMark? cs = some (base, width, r)) : Begins ('b' :: cs) (front 'b' cs) := by
  have hfront := front_based h
  obtain ⟨ds, hds, rfl, rfl⟩ := baseDigits_of_baseMark? h
  rcases payload_cases base (ds.length + 1) r with ⟨p, rest, rfl, hp, hf⟩ | ⟨rest, rfl, hp, hf⟩ |
    ⟨-, hf⟩
  · refine begins_lexeme rest (.enclosed hds hp) (by simp) ?_ (hfront.trans hf)
    simp only [List.length_cons, List.length_append, List.length_nil]
    omega
  · rw [hfront, hf]
    exact .fault (.payload hds hp)
  · refine begins_lexeme (r.dropWhile (isPayload base))
      (.bare hds fun _ => List.mem_takeWhile_imp) (by simp) ?_ (hfront.trans hf)
    simp only [List.length_cons, List.length_append]
    omega

theorem begins_text (cs : List Char) : Begins ('"' :: cs) (front '"' cs) := by
  have hfront := front_quote cs
  match hd : decodeText 1 cs with
  | none =>
    rw [hd] at hfront
    refine hfront ▸ .fault (.text fun w ps rest hw he => ?_)
    rw [he, decodeText_of_writes hw] at hd
    exact nomatch hd
  | some (ps, close) =>
    rw [hd] at hfront
    obtain ⟨w, rest, rfl, hw, rfl⟩ := writes_of_decodeText hd
    refine begins_lexeme rest (.text hw) (by simp) ?_ hfront
    simp only [List.length_cons, List.length_append, List.length_nil]
    omega

theorem begins_sign {c : Char} (h : isSignStart c = true) (cs : List Char) :
    Begins (c :: cs) (front c cs) := by
  have spelled : ∀ s ∈ signs, Spelled s.2 s.1 ∧ s.1.length = s.1.length - 1 + 1 := by
    intro s hs
    unfold signs at hs
    fin_cases hs <;> first | exact ⟨.operator _, rfl⟩ | exact ⟨.mark _, rfl⟩
  have hfront := front_sign h cs
  match hs : sign (c :: cs) with
  | none =>
    rw [hs] at hfront
    refine hfront ▸ .fault (.stray fun l w rest hl hw => ?_)
    rcases finds_front hl hw with ⟨_, _, hf, -⟩ | hf
    · exact nomatch hfront.symm.trans hf
    · exact nomatch hfront.symm.trans hf
  | some t =>
    rw [hs] at hfront
    obtain ⟨hl, hlen⟩ := spelled t (List.mem_of_find?_eq_some hs)
    have hfound := List.find?_some hs
    obtain ⟨rest, hrest⟩ := List.isPrefixOf_iff_prefix.mp hfound
    exact begins_lexeme rest hl hrest.symm hlen hfront

theorem begins_blanks (cs : List Char) (h : cs.takeWhile isGap ≠ []) :
    Begins cs (.gap ((cs.takeWhile isGap).length - 1)) := by
  have hall : ∀ c ∈ cs.takeWhile isGap, isGap c = true := fun _ => List.mem_takeWhile_imp
  have hbegins : Begins (cs.takeWhile isGap ++ cs.dropWhile isGap) _ := .blanks h hall
  rwa [List.takeWhile_append_dropWhile] at hbegins

theorem begins_comment (cs : List Char) :
    Begins ('#' :: cs) (.gap (cs.takeWhile (· ≠ '\n')).length) := by
  have hend : ∀ d ds, cs.dropWhile (· ≠ '\n') = d :: ds → d = '\n' := by
    intro d ds h
    have := List.head?_dropWhile_not (· ≠ '\n') cs
    rw [h] at this
    simpa using this
  have := Begins.comment (Text.not_mem_enclosed '\n' cs) hend
  rwa [List.takeWhile_append_dropWhile] at this

/-- **What `front` gives is what the source begins with.** -/
theorem begins_front (c : Char) (cs : List Char) : Begins (c :: cs) (front c cs) := by
  by_cases hgap : isGap c = true
  · have hfront : front c cs = .gap (cs.takeWhile isGap).length := by rw [front, if_pos hgap]
    have := begins_blanks (c :: cs) (by simp [hgap])
    simpa [hfront, hgap] using this
  by_cases hhash : c = '#'
  · have hfront : front c cs = .gap (cs.takeWhile (· ≠ '\n')).length := by
      rw [front, if_neg hgap, if_pos hhash]
    rw [hfront, hhash]
    exact begins_comment cs
  by_cases hnewline : c = '\n'
  · subst hnewline
    exact begins_lexeme cs .newline rfl rfl rfl
  by_cases hquote : c = '"'
  · exact hquote ▸ begins_text cs
  by_cases hdigit : c.isDigit = true
  · exact begins_lexeme (cs.dropWhile Char.isDigit)
      (.number hdigit fun _ => List.mem_takeWhile_imp) (by simp) rfl (front_digit hdigit cs)
  by_cases hname : isNameStart c = true
  · cases hb : (if c = 'b' then baseMark? cs else none) with
    | none => exact begins_word hname fun h => by simpa [h] using hb
    | some p =>
      obtain ⟨base, width, r⟩ := p
      obtain ⟨rfl, hb⟩ : c = 'b' ∧ baseMark? cs = some (base, width, r) := by simpa using hb
      exact begins_based hb
  · exact begins_sign (by simp [isSignStart, hgap, hhash, hnewline, hquote, hdigit, hname]) cs

end Radix.Lexical
