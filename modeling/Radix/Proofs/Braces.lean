import Mathlib.Algebra.Ring.Int.Defs
import Radix.Interactive
import Radix.Proofs.Numeral.WellFormed
import Radix.Proofs.Read.Grammar
import Radix.Proofs.Token.Cover

/-!
# Proofs/Braces — counting braces without cutting the source into tokens

`openBraces` looks at single characters: whether it is in a text, in a comment or behind a backslash
is all that it knows.  Yet it counts the braces that are tokens (`openBraces_of_covers`): over a gap
or over the spelling of a lexeme it comes back to where it was, but for the lexemes that are braces.
The one exception is a payload in parentheses, where a quote or a brace may stand, and that is no
numeral then.
-/

namespace Radix

open Lexical

/-! ## Characters -/

/-- The scan outside of texts and comments. -/
def BraceScan.outside (d : Int) : BraceScan := { depth := d }

/-- The scan inside a text. -/
def BraceScan.inside (d : Int) : BraceScan := { depth := d, inText := true }

/-- The character means something to the scan outside of texts and comments. -/
def isTelling (c : Char) : Bool := c = '"' || c = '#' || c = '\x7b' || c = '\x7d'

namespace BraceScan

variable {d : Int} {c : Char} {cs : List Char}

theorem next_outside (h : isTelling c = false) : (outside d).next c = outside d := by
  simp only [isTelling, Bool.or_eq_false_iff, decide_eq_false_iff_not] at h
  simp [next, outside, h]

theorem next_inside (hq : c ≠ '"') (hs : c ≠ '\\') : (inside d).next c = inside d := by
  simp [next, inside, hq, hs]

theorem next_escape (d : Int) (c : Char) : ((inside d).next '\\').next c = inside d := by
  simp [next, inside]

theorem foldl_outside (h : cs.any isTelling = false) :
    cs.foldl next (outside d) = outside d := by
  induction cs with
  | nil => rfl
  | cons c cs ih =>
    obtain ⟨hc, hcs⟩ := Bool.or_eq_false_iff.mp h
    rw [List.foldl_cons, next_outside hc, ih hcs]

/-- A text leaves the scan in the text, up to its closing quote. -/
theorem foldl_writes {column : Nat} {ps : List (Char × Nat)} (h : Writes column cs ps) (d : Int) :
    cs.foldl next (inside d) = inside d := by
  induction h with
  | nil => rfl
  | plain hq hs _ ih => rw [List.foldl_cons, next_inside hq hs, ih]
  | newline _ ih | tab _ ih | brace _ _ ih | itself _ _ _ _ ih =>
    rw [List.foldl_cons, List.foldl_cons, next_escape, ih]

/-! ## Gaps -/

/-- Inside a comment nothing happens before the end of the line. -/
theorem foldl_comment (h : '\n' ∉ cs) (d : Int) :
    cs.foldl next { depth := d, inComment := true } = { depth := d, inComment := true } := by
  induction cs with
  | nil => rfl
  | cons c cs ih =>
    rw [List.mem_cons, not_or] at h
    rw [List.foldl_cons, show next { depth := d, inComment := true } c = _ from
      if_neg (Ne.symm h.1)]
    exact ih h.2

/-- The line end that ends a comment means nothing outside of one. -/
theorem depth_foldl_comment {rest : List Char} (h : ∀ c ds, rest = c :: ds → c = '\n') (d : Int) :
    (rest.foldl next { depth := d, inComment := true }).depth =
      (rest.foldl next (outside d)).depth := by
  match rest with
  | [] => rfl
  | c :: rest =>
    obtain rfl := h c rest rfl
    rfl

/-- **A gap is passed over.** -/
theorem depth_foldl_gap {g rest : List Char} (h : Gap rest g) (d : Int) :
    ((g ++ rest).foldl next (outside d)).depth = (rest.foldl next (outside d)).depth := by
  induction h with
  | nil => rfl
  | @blank c g hc _ ih =>
    have blank : isTelling c = false := by
      simp only [isGap, Bool.or_eq_true, decide_eq_true_eq] at hc
      rcases hc with ((rfl | rfl) | rfl) | rfl <;> rfl
    rw [List.cons_append, List.foldl_cons, next_outside blank, ih]
  | @comment cs g hcs hend _ ih =>
    rw [List.cons_append, List.append_assoc, List.foldl_cons, List.foldl_append,
      show (outside d).next '#' = { depth := d, inComment := true } from rfl, foldl_comment hcs,
      depth_foldl_comment hend, ih]

end BraceScan

/-! ## Lexemes -/

/-- By how much a lexeme changes the number of open braces. -/
def Lexeme.nesting : Lexeme → Int
  | .mark .openBrace => 1
  | .mark .closeBrace => -1
  | _ => 0

/-- By how much the lexemes change it together. -/
def nesting (ls : List Lexeme) : Int := (ls.map Lexeme.nesting).sum

@[simp] theorem nesting_nil : nesting [] = 0 := rfl

@[simp] theorem nesting_cons (l : Lexeme) (ls : List Lexeme) :
    nesting (l :: ls) = l.nesting + nesting ls := rfl

@[simp] theorem nesting_append (ls ms : List Lexeme) :
    nesting (ls ++ ms) = nesting ls + nesting ms := by
  rw [nesting, List.map_append, List.sum_append]
  rfl

theorem nesting_eq_count (ls : List Lexeme) :
    nesting ls = (ls.count (.mark .openBrace) : Int) - ls.count (.mark .closeBrace) := by
  induction ls with
  | nil => rfl
  | cons l ls ih =>
    have single : l.nesting = ((if l == .mark .openBrace then 1 else 0 : Nat) : Int) -
        (if l == .mark .closeBrace then 1 else 0 : Nat) := by
      unfold Lexeme.nesting
      split <;> simp_all
    rw [nesting_cons, ih, single, List.count_cons, List.count_cons]
    omega

theorem nesting_eq_zero {ls : List Lexeme} (h : ∀ l ∈ ls, l.nesting = 0) : nesting ls = 0 := by
  induction ls with
  | nil => rfl
  | cons l ls ih =>
    rw [nesting_cons, h l (by simp), ih fun m hm => h m (by simp [hm]), Int.add_zero]

/-- A character that tells the scan something is one of four. -/
theorem isTelling_cases {c : Char} (h : isTelling c = true) :
    c = '"' ∨ c = '#' ∨ c = '\x7b' ∨ c = '\x7d' := by
  simpa [isTelling, or_assoc] using h

theorem isTelling_of_isNameChar {c : Char} (h : isNameChar c = true) : isTelling c = false := by
  by_contra ht
  rcases isTelling_cases (by simpa using ht) with rfl | rfl | rfl | rfl <;>
    exact absurd h (by decide)

theorem isTelling_of_isDigit {c : Char} (h : c.isDigit = true) : isTelling c = false :=
  isTelling_of_isNameChar (by simp [isNameChar, Char.isAlphanum, h])

/-- A digit tells the scan nothing, in whatever case it is written. -/
theorem isTelling_of_toLower {base : Nat} {c : Char} (h : c.toLower ∈ digitsOf base) :
    isTelling c = false := by
  have symbol : c.toLower ∈ alphabet := List.mem_of_mem_take h
  by_contra ht
  rcases isTelling_cases (by simpa using ht) with rfl | rfl | rfl | rfl <;>
    exact absurd symbol (by decide)

theorem Text.toLower_mem_lower {c : Char} {cs : List Char} (hc : c.toNat < 128) (h : c ∈ cs) :
    c.toLower ∈ lower cs := by
  have after : ∀ before, c.toLower ∈ lowerAfter before cs := by
    induction cs with
    | nil => exact absurd h List.not_mem_nil
    | cons d ds ih =>
      intro before
      rw [lowerAfter]
      rcases List.mem_cons.mp h with rfl | h
      · have hsigma : c ≠ '\u03A3' := by
          rintro rfl
          exact absurd hc (by decide)
        simp [hsigma, lowerChar, hc]
      · exact List.mem_append_right _ (ih h (d :: before))
  exact after []

/-- Nor do the digits of a numeral. -/
theorem isTelling_of_ofDigits {base : Nat} {digits : List Char} {x : Numeral}
    (h : Numeral.ofDigits base digits = .ok x) : digits.any isTelling = false := by
  rw [List.any_eq_false]
  intro c hc ht
  obtain ⟨-, -, hall, -⟩ := Numeral.ofDigits_eq_ok.mp h
  have ascii : c.toNat < 128 := by
    rcases isTelling_cases ht with rfl | rfl | rfl | rfl <;> decide
  have silent := isTelling_of_toLower (hall _ (Text.toLower_mem_lower ascii hc))
  exact absurd ht (by simp [silent])

theorem isTelling_of_baseDigits {base : Nat} {ds : List Char} (h : BaseDigits base ds) :
    ds.any isTelling = false := by
  cases h with
  | one hd => simp [isTelling_of_isDigit hd]
  | two hd he => simp [isTelling_of_isDigit hd, isTelling_of_isDigit he]

/-- If the lexeme is a based numeral, it is written in its base. -/
def Lexeme.Based (l : Lexeme) : Prop :=
  ∀ base payload, l = .based base payload → ∃ x, Numeral.ofDigits base payload = .ok x

/-- **The spelling of a lexeme changes nothing but the depth**, and that by the lexeme's nesting. -/
theorem BraceScan.foldl_spelled {l : Lexeme} {w : List Char} (h : Spelled l w) (hl : l.Based)
    (d : Int) : w.foldl next (outside d) = outside (d + l.nesting) := by
  have silent : ∀ {l : Lexeme} {w : List Char}, l.nesting = 0 → w.any isTelling = false →
      w.foldl next (outside d) = outside (d + l.nesting) := by
    intro l w hn hw
    rw [foldl_outside hw, hn, Int.add_zero]
  have marks : isTelling 'b' = false ∧ isTelling '@' = false ∧ isTelling '(' = false ∧
      isTelling ')' = false := by decide
  cases h with
  | keyword k => exact silent rfl (by cases k <;> decide)
  | operator op => exact silent rfl (by cases op <;> decide)
  | mark m =>
    cases m with
    | openBrace | closeBrace => rfl
    | _ => exact silent rfl (by decide)
  | newline => exact silent rfl (by decide)
  | name hs =>
    refine silent rfl (List.any_eq_false.mpr fun c hc => ?_)
    simp [isTelling_of_isNameChar (isNameChar_of_mem hs hc)]
  | number hd hds =>
    refine silent rfl (List.any_eq_false.mpr (List.forall_mem_cons.mpr ⟨?_, fun c hc => ?_⟩))
    · simp [isTelling_of_isDigit hd]
    · simp [isTelling_of_isDigit (hds c hc)]
  | @bare base ds payload hds hp =>
    have hpayload : payload.any isTelling = false := List.any_eq_false.mpr fun c hc => by
      have hdigit : isDigitOf base c.toLower = true := (Bool.and_eq_true_iff.mp (hp c hc)).2
      simp [isTelling_of_toLower (isDigitOf_iff.mp hdigit)]
    exact silent rfl (by simp [isTelling_of_baseDigits hds, hpayload, marks])
  | @enclosed base ds payload hds _ =>
    obtain ⟨x, hx⟩ := hl base payload rfl
    exact silent rfl (by simp [isTelling_of_baseDigits hds, isTelling_of_ofDigits hx, marks])
  | @text cs ps hcs =>
    rw [List.foldl_cons, List.foldl_append, show (outside d).next '"' = inside d from rfl,
      foldl_writes hcs]
    simp [next, inside, outside, Lexeme.nesting]

/-! ## Sources -/

/-- **The scan of a source counts the braces among the tokens that cover it.** -/
theorem depth_of_covers {o o' : Nat} {cs rest : List Char} {ts : List Token}
    (h : Covers o cs ts o' rest) (hts : ∀ t ∈ ts, t.lexeme.Based) (hrest : rest = []) (d : Int) :
    (cs.foldl BraceScan.next (.outside d)).depth =
      d + nesting (ts.map (·.lexeme)) := by
  induction h generalizing d with
  | gap hg =>
    subst hrest
    rw [BraceScan.depth_foldl_gap hg]
    simp [BraceScan.outside]
  | token hg hs _ _ ih =>
    obtain ⟨hl, hts⟩ := List.forall_mem_cons.mp hts
    rw [BraceScan.depth_foldl_gap hg, List.foldl_append, BraceScan.foldl_spelled hs hl,
      ih hts hrest, List.map_cons, nesting_cons, Int.add_assoc]

theorem openBraces_of_tokenize {source : List Char} {ts : List Token}
    (h : tokenize source = .ok ts) (hts : ∀ t ∈ ts, t.lexeme.Based) :
    openBraces source = nesting (ts.map (·.lexeme)) := by
  obtain ⟨words, rfl, hcut⟩ := tokens_of_tokenize h
  have covers := hcut.covers
  rw [List.drop_length] at covers
  have counted := depth_of_covers covers (fun t ht => hts t (by simp [ht])) rfl 0
  rw [openBraces, show ({} : BraceScan) = .outside 0 from rfl, counted]
  simp [Lexeme.nesting]

/-! ## Programs -/

namespace Read

theorem Separators.nesting {ls : List Lexeme} (h : Separators ls) : nesting ls = 0 :=
  nesting_eq_zero fun l hl => by rcases h l hl with rfl | rfl <;> rfl

theorem Newlines.nesting {ls : List Lexeme} (h : Newlines ls) : nesting ls = 0 :=
  nesting_eq_zero fun l hl => by rw [h l hl]; rfl

theorem nesting_printLabel (label : Option String) : nesting (printLabel label) = 0 := by
  cases label <;> rfl

theorem nesting_printTag (tag : Option String) : nesting (printTag tag) = 0 := by
  cases tag <;> rfl

/-- **Sentences are balanced**: as many braces are closed as opened. -/
theorem Sentence.nesting {c : Category} {ls : List Lexeme} (h : Sentence c ls) :
    nesting ls = 0 := by
  induction h with
  | blank hs | lastLine hs => exact hs.nesting
  | statements hs _ _ h₁ h₂ | line hs _ _ _ h₁ h₂ => simp [hs.nesting, h₁, h₂]
  | bare _ h | branch _ h | argument _ h => exact h
  | noLink | noElse | number | based | text | var | parameter => rfl
  | block _ h | group _ h => simp [braced, parenthesized, Lexeme.nesting, h]
  | assignment _ h | call _ h | ret _ h => simp [Lexeme.nesting, h]
  | declaration _ _ h₁ h₂ => simp [Lexeme.nesting, nesting_printTag, h₁, h₂]
  | expression _ _ h₁ h₂ | link _ _ h₁ h₂ => simp [Lexeme.nesting, h₁, h₂]
  | whileLoop _ _ h₁ h₂ => simp [Lexeme.nesting, nesting_printLabel, parenthesized, h₁, h₂]
  | loop _ h => simp [Lexeme.nesting, nesting_printLabel, h]
  | breakTo | continueTo => simp [Lexeme.nesting, nesting_printLabel]
  | conditional _ _ _ h₁ h₂ h₃ =>
    simp [Lexeme.nesting, nesting_printLabel, parenthesized, h₁, h₂, h₃]
  | elseIf hns _ h | elseBlock hns _ h | list hns _ h => simp [Lexeme.nesting, hns.nesting, h]
  | noItem hns => simp [Lexeme.nesting, hns.nesting]
  | lastItem _ hns h => simp [Lexeme.nesting, hns.nesting, h]
  | items _ hns hns' _ h₁ h₂ => simp [Lexeme.nesting, hns.nesting, hns'.nesting, h₁, h₂]

end Read

theorem openBraces_of_ofSource {source : List Char} {program : Program}
    (h : Program.ofSource source = .ok program) : openBraces source = 0 := by
  obtain ⟨ts, hts, hp⟩ := bind_eq_ok.mp h
  obtain ⟨words, rfl, hcut⟩ := tokens_of_tokenize hts
  obtain ⟨hv, hs⟩ := Read.sentence_of_program hp hcut.words
  rw [openBraces_of_tokenize hts fun t ht base payload hl => ?_]
  · simp [hs.nesting, Lexeme.nesting]
  · rcases List.mem_append.mp ht with ht | ht
    · have hvalid := hv t ht
      rwa [hl] at hvalid
    · obtain rfl := List.mem_singleton.mp ht
      exact nomatch hl

/-- **The count of open braces agrees with the tokens.**  It is that of the tokens if all based
numerals are written in their bases.  So no brace is open in a program, and lines that make one up
are not held back: they are run at once. -/
theorem openBraces_eq_tokens (source : List Char) :
    (∀ ts, tokenize source = .ok ts →
      (∀ base payload, .based base payload ∈ ts.map (·.lexeme) →
        ∃ x, Numeral.ofDigits base payload = .ok x) →
      openBraces source = ((ts.map (·.lexeme)).count (.mark .openBrace) : Int) -
        (ts.map (·.lexeme)).count (.mark .closeBrace)) ∧
    (∀ program, Program.ofSource source = .ok program → openBraces source = 0 ∧
      ∀ fuel turns buffer line c c', source = buffer ++ line ++ ['\n'] →
        c.nextLine = some (line, c') →
        (buffer = [] → isFarewell line = false ∧ Text.trim line ≠ []) →
        converse fuel (turns + 1) buffer c =
          (runUnit fuel source .interactive c').bind fun r => converse fuel turns [] r.2) := by
  refine ⟨fun ts hts hbased => ?_, fun program hp => ⟨openBraces_of_ofSource hp, ?_⟩⟩
  · rw [← nesting_eq_count]
    refine openBraces_of_tokenize hts fun t ht base payload hl => hbased base payload ?_
    exact List.mem_map.mpr ⟨t, ht, hl⟩
  · intro fuel turns buffer line c c' hsource hline hgo
    subst hsource
    have closed : ¬ openBraces (buffer ++ line ++ ['\n']) > 0 := by
      rw [openBraces_of_ofSource hp]
      decide
    have stays : (buffer.isEmpty && isFarewell line) = false ∧
        (buffer.isEmpty && (Text.trim line).isEmpty) = false := by
      match buffer with
      | [] => simpa using hgo rfl
      | _ :: _ => exact ⟨rfl, rfl⟩
    rw [converse, hline]
    simp only [stays, closed, Bool.false_eq_true, if_false]
    cases runUnit fuel (buffer ++ line ++ ['\n']) .interactive c' <;> rfl

/-! A function over two lines.  Braces stand in a comment and in a text as well, behind a quote that
is escaped. -/

def heldLine : List Char := "fn f()\x7b # \x7d \"\n".toList

def closingLine : List Char := "ret \"\\\"\x7b#\" + b16@(F)\x7d".toList

def twoLines : List Char := heldLine ++ closingLine ++ ['\n']

def twoLinesTokens : List Token := [
  ⟨.keyword .fnWord, 0⟩, ⟨.name "f", 3⟩, ⟨.mark .openParen, 4⟩, ⟨.mark .closeParen, 5⟩,
  ⟨.mark .openBrace, 6⟩, ⟨.newline, 13⟩, ⟨.keyword .retWord, 14⟩,
  ⟨.text ⟨['"', '\x7b', '#'], [1, 3, 4]⟩, 18⟩, ⟨.operator .add, 25⟩, ⟨.based 16 ['F'], 27⟩,
  ⟨.mark .closeBrace, 34⟩, ⟨.newline, 35⟩, ⟨.stop, 36⟩]

def twoLinesProgram : Program :=
  [.function "f" [] none [.ret (.binary .add (.text ⟨['"', '\x7b', '#'], [1, 3, 4]⟩ 18)
    (.numeral ⟨16, ['f']⟩) (some 25)) 14]]

/-- What is left to be read when the first line is held back. -/
def heldConsole : Console := { feed := .stream [String.ofList closingLine] }

/-- The first line opens a brace and is held back; with the second one the function is run. -/
theorem twoLines_run_at_once :
    (tokenize twoLines = .ok twoLinesTokens ∧ Numeral.ofDigits 16 ['F'] = .ok ⟨16, ['f']⟩ ∧
      openBraces twoLines =
        ((twoLinesTokens.map (·.lexeme)).count (.mark .openBrace) : Int) -
          (twoLinesTokens.map (·.lexeme)).count (.mark .closeBrace)) ∧
    (Program.ofSource twoLines = .ok twoLinesProgram ∧ openBraces heldLine = 1 ∧
      openBraces twoLines = 0) ∧
    (heldConsole.nextLine = some (closingLine, { feed := .stream [] }) ∧
      ∀ fuel, converse fuel 1 heldLine heldConsole =
        (runUnit fuel twoLines .interactive { feed := .stream [] }).bind fun r =>
          converse fuel 0 [] r.2) := by
  have scanned : tokenize twoLines = .ok twoLinesTokens := by with_unfolding_all rfl
  have read : Program.ofSource twoLines = .ok twoLinesProgram := by with_unfolding_all rfl
  have digits : Numeral.ofDigits 16 ['F'] = .ok ⟨16, ['f']⟩ := by decide
  have next : heldConsole.nextLine = some (closingLine, { feed := .stream [] }) := rfl
  obtain ⟨counted, closed⟩ := openBraces_eq_tokens twoLines
  obtain ⟨zero, runs⟩ := closed _ read
  refine ⟨⟨scanned, digits, counted _ scanned fun base payload h => ?_⟩, ⟨read, by decide, zero⟩,
    next, fun fuel => runs fuel 0 heldLine closingLine _ _ rfl next fun h => absurd h (by decide)⟩
  obtain ⟨rfl, rfl⟩ : base = 16 ∧ payload = ['F'] := by simpa [twoLinesTokens] using h
  exact ⟨_, digits⟩

end Radix
