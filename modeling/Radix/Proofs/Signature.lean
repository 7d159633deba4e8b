import Radix.Proofs.Eval.Occurs
import Radix.Proofs.Read.Names
import Radix.Proofs.Read.RoundTrip
import Radix.Proofs.Token.Print

/-!
# Proofs/Signature — a signature is the head of a declaration

A signature is put together from words: the name of a function, the words of its tags, the names of
its parameters and the word for its result.  All of them are names (`Function.Declarable`): the
natives' are, and a declaration has them from its source.  So the scanner cuts the signature where
it was put together, although nothing but a parenthesis or a comma may stand between two words, and
although tags such as `b16` begin like numerals (`scans_signature`).  The readers then give the
declaration back, and its tags are understood as those they are the words of (`Tag.ofWord?_word`).
-/

namespace Radix

open Lexical

/-! ## The words of tags -/

namespace Tag

/-- A base that the tag names is one. -/
def IsValid : Tag → Prop
  | .exactBase base => IsBase base
  | .anyBase | .text => True

instance : DecidablePred IsValid
  | .exactBase _ => inferInstanceAs (Decidable (IsBase _))
  | .anyBase | .text => inferInstanceAs (Decidable True)

theorem isValid_of_ofWord? {s : String} {tag : Tag} (h : ofWord? s = some tag) : tag.IsValid := by
  unfold ofWord? at h
  split at h
  · exact Option.some.inj h ▸ trivial
  split at h
  · exact Option.some.inj h ▸ trivial
  split at h
  · unfold ofBaseDigits? at h
    split at h
    · next hds =>
      simp only [Bool.and_eq_true, decide_eq_true_eq] at hds
      exact Option.some.inj h ▸ hds.2
    · exact absurd h (by simp)
  · exact absurd h (by simp)

theorem toList_word_exactBase (base : Nat) :
    (exactBase base).word.toList = 'b' :: (Nat.repr base).toList := by
  simp [word, toString]

/-- One or two digits after the `b` are the word of a base. -/
theorem ofBaseDigits?_of_baseDigits {base : Nat} {ds : List Char} (h : BaseDigits base ds)
    (hb : IsBase base) : ofBaseDigits? ds = some (.exactBase base) := by
  cases h with
  | one hd => simp [ofBaseDigits?, decimalValue, hd, hb]
  | two hd he => simp [ofBaseDigits?, decimalValue, hd, he, hb]

theorem baseDigits_of_isBase {base : Nat} (h : IsBase base) :
    BaseDigits base (Nat.repr base).toList :=
  baseDigits_repr (Nat.lt_of_le_of_lt h.2 (by decide))

/-- The word of a base is none that is written without digits. -/
theorem word_exactBase_ne {base : Nat} (h : IsBase base) {s : String}
    (hs : s.toList.all (fun c => !c.isDigit) = true) : s ≠ (exactBase base).word := by
  rintro rfl
  rw [toList_word_exactBase] at hs
  have hds := baseDigits_of_isBase h
  generalize (Nat.repr base).toList = ds at hds hs
  cases hds with
  | one hd | two hd he => simp [hd] at hs

/-- **The word of a tag is understood as the tag.** -/
theorem ofWord?_word {tag : Tag} (h : tag.IsValid) : ofWord? tag.word = some tag := by
  match tag, h with
  | .anyBase, _ | .text, _ => rfl
  | .exactBase base, hb =>
    unfold ofWord?
    rw [if_neg (word_exactBase_ne hb (by decide)).symm,
      if_neg (word_exactBase_ne hb (by decide)).symm, toList_word_exactBase]
    exact ofBaseDigits?_of_baseDigits (baseDigits_of_isBase hb) hb

theorem isName_word {tag : Tag} (h : tag.IsValid) : isName tag.word = true := by
  match tag, h with
  | .anyBase, _ | .text, _ => decide
  | .exactBase base, hb =>
    refine isName_iff.mpr ⟨'b', _, toList_word_exactBase base, by decide, fun d hd => ?_, ?_⟩
    · simp [isNameChar, Char.isAlphanum, (baseDigits_of_isBase hb).isDigit_of_mem d hd]
    · refine List.find?_eq_none.mpr fun k _ => ?_
      have letters : k.spelling.toList.all (fun c => !c.isDigit) = true := by cases k <;> decide
      simpa using word_exactBase_ne hb letters

end Tag

/-! ## Scanning words that abut -/

section Scans

/-- Scanned from any offset, the characters give tokens with these lexemes. -/
def Scans (cs : List Char) (ls : List Lexeme) : Prop :=
  ∀ o, ∃ ts, scanFrom o cs = ⟨ts, none⟩ ∧ Read.Spelt ls ts

variable {cs w : List Char} {ls : List Lexeme} {l : Lexeme} {c d : Char} {s : String}

theorem scans_nil : Scans [] [.stop] := fun o => ⟨[⟨.stop, o⟩], by rw [scanFrom], rfl⟩

theorem Scans.blank (h : Scans cs ls) : Scans (' ' :: cs) ls := fun o => by
  rw [scanFrom_blank (by decide)]
  exact h (o + 1)

/-- One step of the scanner. -/
theorem Scans.lexeme (h : Scans cs ls) (hf : front c (w ++ cs) = .lexeme l w.length) :
    Scans (c :: (w ++ cs)) (l :: ls) := by
  intro o
  obtain ⟨ts, hts, hls⟩ := h (o + w.length + 1)
  refine ⟨⟨l, o⟩ :: ts, ?_, Read.spelt_cons.mpr ⟨o, ts, rfl, hls⟩⟩
  rw [scanFrom, hf]
  dsimp only
  rw [List.drop_left, hts]
  rfl

/-- No mark of a base stands at the front if a word does and no `@` follows it. -/
theorem baseMark?_append_stop (hcs : ∀ e ∈ cs, isNameChar e = true) (hd : isNameChar d = false)
    (hat : d ≠ '@') (rest : List Char) : baseMark? (cs ++ d :: rest) = none := by
  cases hb : baseMark? (cs ++ d :: rest) with
  | none => rfl
  | some p =>
    have hdigit : d.isDigit = false := by
      simp only [isNameChar, Char.isAlphanum, Bool.or_eq_false_iff] at hd
      exact hd.1.2
    -- The `@` would stand in the word.
    obtain ⟨ds, vs, -, rfl⟩ := baseMark?_of_append_stop hdigit hat hb
    exact absurd (hcs '@' (by simp)) (by decide)

/-- **A name is cut where it ends**, whatever follows but an `@`. -/
theorem Scans.name (h : Scans (d :: cs) ls) (hs : isName s = true) (hd : isNameChar d = false)
    (hat : d ≠ '@') : Scans (s.toList ++ d :: cs) (.name s :: ls) := by
  obtain ⟨c, w, hcw, hstart, hmore, -⟩ := isName_iff.mp hs
  rw [hcw]
  refine h.lexeme ?_
  calc front c (w ++ d :: cs)
      = word c (w ++ d :: cs) := front_word hstart fun _ => baseMark?_append_stop hmore hd hat cs
    _ = word c w := by rw [word, word, takeWhile_append_stop hd]
    _ = front c w := (front_word hstart fun _ => baseMark?_of_isNameChar hmore).symm
    _ = .lexeme (.name s) w.length := front_name hcw hs

end Scans

/-! ## The text of a signature -/

namespace Function

/-- The parameters as a declaration of the function writes them. -/
def written (f : Function) : List Param := f.params.map fun p => ⟨p.1.word, p.2⟩

/-- The declaration of a function without a body. -/
def declaration (f : Function) : Expr := .function f.name f.written f.returns []

end Function

/-- The tags and names of parameters, as a signature shows them. -/
def paramChars (ps : List Param) : List Char :=
  [',', ' '].intercalate (ps.map fun p => p.tag.toList ++ ' ' :: p.name.toList)

/-- The tag of a result, as a signature shows it. -/
def tagChars : Option String → List Char
  | none => []
  | some tag => ' ' :: tag.toList

theorem Function.toList_signature (f : Function) :
    f.signature.toList = 'f' :: 'n' :: ' ' :: (f.name.toList ++
      '(' :: (paramChars f.written ++ ')' :: tagChars f.returns)) := by
  have params : (", ".intercalate (f.params.map fun p => p.1.word ++ " " ++ p.2)).toList =
      paramChars f.written := by
    rw [String.toList_intercalate, paramChars, Function.written, List.map_map, List.map_map]
    refine congrArg _ (List.map_congr_left fun p _ => ?_)
    simp
  unfold signature
  cases f.returns with
  | none => simp [params, tagChars]
  | some tag => simp [params, tagChars]

variable {cs : List Char} {ls : List Lexeme}

/-- The parameters are cut into their words, up to the closing parenthesis. -/
theorem Scans.params {ps : List Param} (hps : ∀ p ∈ ps, isName p.tag = true ∧ isName p.name = true)
    (h : Scans (')' :: cs) ls) : Scans (paramChars ps ++ ')' :: cs) (printParams ps ++ ls) := by
  -- One parameter, with what stands behind it.
  have one : ∀ {p : Param} {d : Char} {ds : List Char} {ms : List Lexeme}, p ∈ ps →
      isNameChar d = false → d ≠ '@' → Scans (d :: ds) ms →
      Scans (p.tag.toList ++ ' ' :: (p.name.toList ++ d :: ds))
        (.name p.tag :: .name p.name :: ms) :=
    fun hp hd hat hms =>
      ((hms.name (hps _ hp).2 hd hat).blank).name (hps _ hp).1 (by decide) (by decide)
  match ps with
  | [] => exact h
  | [p] =>
    simpa [paramChars, printParams] using one (p := p) (by simp) (by decide) (by decide) h
  | p :: q :: ps =>
    have rest : Scans (paramChars (q :: ps) ++ ')' :: cs) (printParams (q :: ps) ++ ls) :=
      Scans.params (fun r hr => hps r (by simp [hr])) h
    have comma : Scans (',' :: ([] ++ ' ' :: (paramChars (q :: ps) ++ ')' :: cs)))
        (.mark .comma :: (printParams (q :: ps) ++ ls)) := rest.blank.lexeme rfl
    have first := one (p := p) (by simp) (by decide) (by decide) comma
    simpa [paramChars, printParams, List.intercalate_cons_cons] using first

/-- All words that the signature of the function is made of are names, and so are those in its
body. -/
structure Function.Declarable (f : Function) : Prop where
  name : isName f.name = true
  tags : ∀ p ∈ f.params, p.1.IsValid
  params : ∀ p ∈ f.params, isName p.2 = true
  returns : ∀ tag ∈ f.returns, isName tag = true
  body {es : Program} : f.body = .program es → ∀ e ∈ es, e.Writable

namespace Function.Declarable

variable {f : Function} (hf : f.Declarable)

include hf

theorem written : ∀ p ∈ f.written, isName p.tag = true ∧ isName p.name = true := by
  intro p hp
  obtain ⟨q, hq, rfl⟩ := List.mem_map.mp hp
  exact ⟨Tag.isName_word (hf.tags q hq), hf.params q hq⟩

/-- **A signature is cut into the words it is made of.**  With a body that is empty, these are the
lexemes of a declaration. -/
theorem scans_signature :
    Scans (f.signature ++ " \x7b\x7d").toList (printProgram true [f.declaration]) := by
  have close : Scans ['\x7b', '\x7d'] [.mark .openBrace, .mark .closeBrace, .stop] :=
    (scans_nil.lexeme (w := []) rfl).lexeme (w := []) rfl
  have tag : Scans (tagChars f.returns ++ [' ', '\x7b', '\x7d'])
      (printTag f.returns ++ [.mark .openBrace, .mark .closeBrace, .stop]) := by
    cases hr : f.returns with
    | none => exact close.blank
    | some tag => exact (close.blank.name (hf.returns tag hr) (by decide) (by decide)).blank
  have params := (tag.lexeme (c := ')') (w := []) rfl).params hf.written
  have name := (params.lexeme (c := '(') (w := []) rfl).name hf.name (by decide) (by decide)
  have whole := name.blank.lexeme (c := 'f') (w := ['n']) rfl
  simpa [toList_signature, printProgram, printList, declaration, Expr.print, parenthesized, braced]
    using whole

end Function.Declarable

/-! ## Reading it back -/

/-- A declaration without a body is read back as it is. -/
theorem Read.program_of_function {name : String} {params : List Param} {returns : Option String}
    {ts : List Token} (h : Spelt (printProgram true [.function name params returns []]) ts) :
    program ts = .ok [.function name params returns []] := by
  obtain ⟨us, _, rfl, hus, hstop⟩ := spelt_append.mp h
  obtain ⟨o, _, rfl, hnil⟩ := spelt_cons.mp hstop
  obtain rfl := spelt_nil.mp hnil
  have statement : ∀ e ∈ [Expr.function name params returns []], ReadsStatement true e := by
    intro e he
    obtain rfl := List.mem_singleton.mp he
    exact readsStatement_function name params returns (by simp)
  obtain ⟨xs, hxs, hplace⟩ := readsLines statement (last_stop o []) hus
  obtain rfl : xs = [.function name params returns []] := by
    obtain ⟨x, rfl, hx⟩ := List.map_eq_singleton_iff.mp hplace
    match x, hx with
    | .function _ _ _ body, hx => simpa using hx
  exact derivesProgram_iff.mp hxs.program

theorem Function.Declarable.ofSource_signature {f : Function} (hf : f.Declarable) :
    Program.ofSource (f.signature ++ " \x7b\x7d").toList = .ok [f.declaration] := by
  obtain ⟨ts, hts, hspelt⟩ := hf.scans_signature 0
  exact bind_eq_ok.mpr ⟨ts, tokenize_eq_ok.mpr hts, Read.program_of_function hspelt⟩

/-! ## Declaring it again -/

/-- Declared parameters are the ones whose tags are all understood. -/
theorem Eval.paramTags_eq_ok {ps : List Param} {tags : List (Tag × String)} :
    paramTags ps = .ok tags ↔
      ps.map (fun p => (Tag.ofWord? p.tag, p.name)) = tags.map fun p => (some p.1, p.2) := by
  induction ps generalizing tags with
  | nil =>
    refine ⟨fun h => Except.ok.inj h ▸ rfl, fun h => ?_⟩
    rw [List.map_eq_nil_iff.mp h.symm]
    rfl
  | cons p ps ih =>
    rw [paramTags, List.map_cons]
    match Tag.ofWord? p.tag with
    | none =>
      refine ⟨fun h => absurd h (by simp), fun h => ?_⟩
      obtain ⟨q, qs, -, hq, -⟩ := List.map_eq_cons_iff.mp h.symm
      exact absurd (Prod.mk.inj hq).1 (by simp)
    | some tag =>
      constructor
      · intro h
        match hps : paramTags ps with
        | .error e => exact absurd h (by simp [hps, Except.map])
        | .ok qs =>
          rw [hps] at h
          rw [← Except.ok.inj h, List.map_cons, ih.mp hps]
      · intro h
        obtain ⟨⟨t, name⟩, qs, rfl, hq, hqs⟩ := List.map_eq_cons_iff.mp h.symm
        obtain ⟨ht, rfl⟩ := Prod.mk.inj hq
        obtain rfl := Option.some.inj ht
        rw [ih.mpr hqs.symm]
        rfl

namespace Function.Declarable

variable {f : Function} (hf : f.Declarable)

include hf

theorem paramTags_written : Eval.paramTags f.written = .ok f.params := by
  rw [Eval.paramTags_eq_ok, Function.written, List.map_map]
  refine List.map_congr_left fun p hp => ?_
  simp [Tag.ofWord?_word (hf.tags p hp)]

/-- **The declaration declares the signature.** -/
theorem runStatement_declaration (n : Nat) (t : State) :
    runStatement (n + 1) f.declaration t = some (.ok .unit,
      { t with frame := t.frame.declare { f with body := .program [] } }) := by
  unfold runStatement declaration
  rw [Expr.eval_succ, Eval.step, Eval.declare, hf.paramTags_written]
  rfl

end Function.Declarable

/-! ## Functions in sight -/

theorem Native.declarable (n : Native) : n.toFunction.Declarable where
  name := by cases n <;> decide
  tags := by cases n <;> decide
  params := by cases n <;> decide
  returns := by cases n <;> decide
  body h := absurd h (by simp [toFunction])

/-- Expressions are writable, and every function in sight could be declared; all else may be
any. -/
def declarable : Discipline Unit where
  top := ()
  inBranch _ _ := ()
  inLoop _ _ := ()
  expr _ e := e.Writable
  value _ := True
  state s := ∀ name f, s.frame.functions.get? name = some f → f.Declarable
  failure _ := True
  jump _ _ _ := True

/-- A declaration that is writable declares a function that could be declared. -/
theorem Expr.Writable.declarable {name : String} {params : List Param} {returns : Option String}
    {body : List Expr} {tags : List (Tag × String)}
    (h : (Expr.function name params returns body).Writable)
    (ht : Eval.paramTags params = .ok tags) :
    Function.Declarable ⟨name, tags, returns, .program body⟩ := by
  obtain ⟨hname, hparams, hreturns⟩ := h.function
  have declared : ∀ p ∈ tags, ∃ q ∈ params, Tag.ofWord? q.tag = some p.1 ∧ q.name = p.2 := by
    intro p hp
    have hm : (some p.1, p.2) ∈ tags.map fun p => (some p.1, p.2) := List.mem_map.mpr ⟨p, hp, rfl⟩
    rw [← Eval.paramTags_eq_ok.mp ht] at hm
    obtain ⟨q, hq, heq⟩ := List.mem_map.mp hm
    exact ⟨q, hq, Prod.mk.inj heq⟩
  refine ⟨hname, fun p hp => ?_, fun p hp => ?_, hreturns, fun hb e he => ?_⟩
  · obtain ⟨q, -, hq, -⟩ := declared p hp
    exact Tag.isValid_of_ofWord? hq
  · obtain ⟨q, hq, -, hn⟩ := declared p hp
    exact hn ▸ hparams q hq
  · obtain rfl := Body.program.inj hb
    exact h.part he

theorem declarable_lawful : declarable.Lawful where
  text _ hp hm := Template.writable_of_parts hp hm
  assign h := h.part (by simp [Expr.parts])
  binary h := ⟨h.part (by simp [Expr.parts]), h.part (by simp [Expr.parts])⟩
  call h _ he := h.part he
  ret h := h.part (by simp [Expr.parts])
  branch h := ⟨h.part (by simp [Expr.parts]), fun _ hx => h.part (by simp [Expr.parts, hx]),
    fun _ hx => h.part (by simp [Expr.parts, hx])⟩
  whileLoop h := ⟨h.part (by simp [Expr.parts]), fun _ hx => h.part (by simp [Expr.parts, hx])⟩
  loop h _ hx := h.part hx
  body hs hf hb := (hs _ _ hf).body hb
  bind hs _ := hs
  deeper hs := hs
  leave hs _ := hs
  declare he ht hs name f hf := by
    rcases Frame.eq_or_get?_of_declare hf with rfl | hf
    · exact he.declarable ht
    · exact hs name f hf
  console hs _ _ := hs
  report _ _ hs := hs

theorem Occurs.declarable {s : State} (hs : Occurs Expr.Sourced s) {key : String} {f : Function}
    (hf : s.frame.functions.get? key = some f) : f.Declarable := by
  refine Discipline.occurs_keeps (c := ()) declarable_lawful (fun source console name g hg => ?_)
    (fun e he => he.writable) (fun _ _ _ hs => hs) hs key f hf
  obtain ⟨n, -, rfl⟩ := Frame.native_of_get?_initial hg
  exact n.declarable

/-- **Signatures are valid declarations.**  Take any function in sight wherever a session of
sources comes by, native or declared.  Its signature with an empty body behind it is read as a
declaration of the same name, parameter names and result tag, whose written tags are understood as
the function's; and evaluating it, with any fuel and in any state, declares a function with the
same signature. -/
theorem signature_declares {s : State} (hs : Occurs Expr.Sourced s) {key : String} {f : Function}
    (hf : s.frame.functions.get? key = some f) :
    ∃ ps : List Param,
      Program.ofSource (f.signature ++ " \x7b\x7d").toList =
        .ok [.function f.name ps f.returns []] ∧
      ps.map (·.name) = f.params.map (·.2) ∧
      ps.map (fun p => Tag.ofWord? p.tag) = f.params.map (fun p => some p.1) ∧
      ∀ n t, ∃ u g, runStatement (n + 1) (.function f.name ps f.returns []) t = some (.ok .unit, u) ∧
        u.frame.functions.get? f.name = some g ∧ g.signature = f.signature := by
  have declarable := hs.declarable hf
  have tags := Eval.paramTags_eq_ok.mp declarable.paramTags_written
  refine ⟨f.written, declarable.ofSource_signature, ?_, ?_, fun n t => ⟨_, _,
    declarable.runStatement_declaration n t, Table.get?_insert_self _ _ _, rfl⟩⟩
  · simp [Function.written]
  · have firsts := congrArg (List.map Prod.fst) tags
    rw [List.map_map, List.map_map] at firsts
    exact firsts

/-- A declaration whose names and tags begin like numerals and keywords, one tag with a zero in
front. -/
def b16Source : List Char := "fn b16(b02 b10, str ret_)fn2\x7b\x7d".toList

/-- The function that it declares. -/
def b16Function : Function :=
  ⟨"b16", [(.exactBase 2, "b10"), (.text, "ret_")], some "fn2", .program []⟩

/-- The state after the declaration. -/
def b16State : State where
  frame := (Frame.initial ⟨[], "", ""⟩).declare b16Function
  console := { feed := .script [] }

theorem b16State_occurs : Occurs Expr.Sourced b16State := by
  have read : Program.ofSource b16Source =
      .ok [.function "b16" [⟨"b02", "b10"⟩, ⟨"str", "ret_"⟩] (some "fn2") []] := by
    with_unfolding_all rfl
  have declared : runStatement 1 (.function "b16" [⟨"b02", "b10"⟩, ⟨"str", "ret_"⟩] (some "fn2") [])
      ⟨.initial ⟨[], "", ""⟩, { feed := .script [] }⟩ = some (.ok .unit, b16State) := rfl
  exact .between (.evaluated .start ⟨b16Source, _, read, by simp⟩ declared)

theorem signature_declares_b16 :
    Occurs Expr.Sourced b16State ∧ b16State.frame.functions.get? "b16" = some b16Function ∧
    b16Function.signature = "fn b16(b2 b10, str ret_) fn2" ∧
    ∃ ps : List Param,
      Program.ofSource "fn b16(b2 b10, str ret_) fn2 \x7b\x7d".toList =
        .ok [.function "b16" ps (some "fn2") []] ∧
      ps.map (·.name) = ["b10", "ret_"] ∧
      ps.map (fun p => Tag.ofWord? p.tag) = [some (.exactBase 2), some .text] ∧
      ∀ n t, ∃ u g, runStatement (n + 1) (.function "b16" ps (some "fn2") []) t =
          some (.ok .unit, u) ∧
        u.frame.functions.get? "b16" = some g ∧ g.signature = "fn b16(b2 b10, str ret_) fn2" := by
  have found : b16State.frame.functions.get? "b16" = some b16Function :=
    Table.get?_insert_self _ _ _
  have shown : b16Function.signature = "fn b16(b2 b10, str ret_) fn2" := by decide
  have declares := signature_declares b16State_occurs found
  rw [shown] at declares
  exact ⟨b16State_occurs, found, shown, declares⟩

end Radix
