import Radix.Proofs.Read.Words
import Radix.Proofs.Template.Split
import Radix.Session

/-!
# Proofs/Read/Names — the names in a program can be written

The readers take any token for a name that says it is one, but the scanner cuts only names out of a
source.  So every name, tag and label in a program that was read from a source is written with the
characters of names and is no keyword (`Expr.Sourced.writable`), and so is it in the expressions
inside the texts of the program (`Template.writable_of_parts`).
-/

namespace Radix

open Lexical

/-- Every name, tag and label in the expression can stand in a source. -/
def Expr.Writable (e : Expr) : Prop := ∀ s, Word.name s ∈ e.words → isName s = true

/-- The expression is a statement of a source. -/
def Expr.Sourced (e : Expr) : Prop := ∃ source es, Program.ofSource source = .ok es ∧ e ∈ es

/-! ## Words of the parts -/

theorem mem_listWords {es : List Expr} {w : Word} : w ∈ listWords es ↔ ∃ e ∈ es, w ∈ e.words := by
  induction es with
  | nil => simp [listWords]
  | cons e es ih => simp [listWords, ih]

theorem mem_elseWords {no : Option (List Expr)} {x : Expr} (hx : x ∈ no.getD []) {w : Word}
    (hw : w ∈ x.words) : w ∈ elseWords no := by
  match no, hx with
  | some es, hx => exact List.mem_cons_of_mem _ (mem_listWords.mpr ⟨x, hx, hw⟩)

/-- An expression says what its parts say. -/
theorem Expr.mem_words_of_mem_parts {e x : Expr} (hx : x ∈ e.parts) {w : Word}
    (hw : w ∈ x.words) : w ∈ e.words := by
  have listed : ∀ es : List Expr, x ∈ es → w ∈ listWords es := fun es h =>
    mem_listWords.mpr ⟨x, h, hw⟩
  match e with
  | .numeral _ | .text _ _ | .var _ | .breakTo _ | .continueTo _ => simp [parts] at hx
  | .assign _ _ | .ret _ _ =>
    obtain rfl := List.mem_singleton.mp hx
    simp [words, hw]
  | .binary _ l r _ =>
    simp only [parts, List.mem_cons, List.not_mem_nil, or_false] at hx
    rcases hx with rfl | rfl <;> simp [words, hw]
  | .call _ es _ | .loop _ es | .function _ _ _ es => simp [words, listed es hx]
  | .branch _ c yes no =>
    simp only [parts, List.mem_cons, List.mem_append] at hx
    rcases hx with rfl | hx | hx
    · simp [words, hw]
    · simp [words, listed yes hx]
    · simp [words, mem_elseWords hx hw]
  | .whileLoop _ c body =>
    simp only [parts, List.mem_cons] at hx
    rcases hx with rfl | hx
    · simp [words, hw]
    · simp [words, listed body hx]

theorem Expr.Writable.part {e x : Expr} (h : e.Writable) (hx : x ∈ e.parts) : x.Writable :=
  fun s hs => h s (mem_words_of_mem_parts hx hs)

/-- A declaration says its name, and the tags and names of its parameters, and its result's tag. -/
theorem Expr.Writable.function {name : String} {params : List Param} {returns : Option String}
    {body : List Expr} (h : (Expr.function name params returns body).Writable) :
    isName name = true ∧ (∀ p ∈ params, isName p.name = true) ∧
      ∀ tag ∈ returns, isName tag = true := by
  refine ⟨h name (by simp [words]), fun p hp => h p.name ?_, fun tag ht => h tag ?_⟩
  · have hw : Word.name p.name ∈ paramWords params := List.mem_flatMap.mpr ⟨p, hp, by simp⟩
    simp [words, hw]
  · have hw : Word.name tag ∈ nameWords returns :=
      List.mem_map.mpr ⟨tag, Option.mem_toList.mpr ht, rfl⟩
    simp [words, hw]

/-! ## What is read -/

/-- The scanner takes nothing but names for names. -/
theorem isName_of_tokenize {source : List Char} {ts : List Token} (h : tokenize source = .ok ts)
    {t : Token} (ht : t ∈ ts) {s : String} (hs : t.lexeme = .name s) : isName s = true := by
  obtain ⟨w, us, -, hw⟩ := spelled_of_tokenize h ht (by simp [hs])
  rw [hs] at hw
  cases hw with
  | name hn => exact hn

theorem exists_says_of_mem {ts : List Token} {ws : List Word} (h : List.Forall₂ Token.Says ts ws)
    {w : Word} (hw : w ∈ ws) : ∃ t ∈ ts, t.Says w := by
  induction h with
  | nil => exact absurd hw List.not_mem_nil
  | cons ht _ ih =>
    rcases List.mem_cons.mp hw with rfl | hw
    · exact ⟨_, List.mem_cons_self, ht⟩
    · obtain ⟨u, hu, hw⟩ := ih hw
      exact ⟨u, List.mem_cons_of_mem _ hu, hw⟩

/-- **The names in a program are those of its tokens.** -/
theorem Read.writable_of_program {ts : List Token} {es : Program} (h : program ts = .ok es)
    (hts : ∀ t ∈ ts, ∀ s, t.lexeme = .name s → isName s = true) : ∀ e ∈ es, e.Writable := by
  intro e he s hs
  obtain ⟨rest, ⟨us, rfl, hsays⟩, -⟩ := (derivesProgram_iff.mpr h).speaks
  obtain ⟨t, ht, hname⟩ := exists_says_of_mem hsays (mem_listWords.mpr ⟨e, he, hs⟩)
  have hmem : t ∈ us := List.mem_of_mem_filter ht
  cases hname with
  | name => exact hts _ (List.mem_append_left rest hmem) s rfl

theorem Expr.Sourced.writable {e : Expr} (h : e.Sourced) : e.Writable := by
  obtain ⟨source, es, hread, he⟩ := h
  obtain ⟨ts, hts, hprogram⟩ := bind_eq_ok.mp hread
  exact Read.writable_of_program hprogram (fun t ht s hs => isName_of_tokenize hts ht hs) e he

/-- The same scanner cuts the expressions inside a text. -/
theorem Template.writable_of_parts {q : QuotedText} {o : Nat} {ps : List Part} {e : Expr}
    (h : parts q o = .ok ps) (he : .expr e ∈ ps) : e.Writable := by
  obtain ⟨m, inner, -, hx⟩ := (splits_partsFrom q o 0 q.chars).opens h he
  obtain ⟨us, hus, hprogram⟩ := interpolation_eq_ok hx
  refine Read.writable_of_program hprogram (fun t ht s hs => ?_) e (by simp)
  obtain ⟨u, hu, rfl⟩ := List.mem_map.mp ht
  exact isName_of_tokenize hus hu hs

end Radix
