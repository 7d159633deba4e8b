import Radix.Proofs.Read.Resume
import Radix.Proofs.Token.Seam
import Radix.Session

/-!
# Proofs/Lines — programs can be put one behind the other

Two sources with a line end between them are scanned one after the other and read one after the
other, and nothing reaches across the line end: no lexeme (`tokenize_append_newline`), and nothing
that is read (`Read.program_append_newline`).  The second program only moves: every offset that it
remembers grows by what stands in front of it (`Expr.shift`).
-/

namespace Radix

/-! ## Expressions that are moved -/

mutual

/-- The expression with every recorded offset increased by `k`. -/
def Expr.shift (k : Nat) : Expr → Expr
  | .numeral x => .numeral x
  | .text quoted offset => .text quoted (offset + k)
  | .var name => .var name
  | .assign name value => .assign name (value.shift k)
  | .binary op left right offset =>
    .binary op (left.shift k) (right.shift k) (offset.map (· + k))
  | .call name args offset => .call name (shiftList k args) (offset + k)
  | .ret value offset => .ret (value.shift k) (offset + k)
  | .branch label condition thenBody none =>
    .branch label (condition.shift k) (shiftList k thenBody) none
  | .branch label condition thenBody (some elseBody) =>
    .branch label (condition.shift k) (shiftList k thenBody) (some (shiftList k elseBody))
  | .whileLoop label condition body => .whileLoop label (condition.shift k) (shiftList k body)
  | .loop label body => .loop label (shiftList k body)
  | .breakTo label => .breakTo label
  | .continueTo label => .continueTo label
  | .function name params returns body => .function name params returns (shiftList k body)

/-- `Expr.shift` on every expression of a list. -/
def shiftList (k : Nat) : List Expr → List Expr
  | [] => []
  | e :: es => e.shift k :: shiftList k es

end

/-- The second offset is behind the first by `k`. -/
def Likeness.shifting (k : Nat) : Likeness where
  text q o q' o' := q' = q ∧ o' = o + k
  offset o o' := o' = o + k
  anchor o o' := o' = o.map (· + k)

/-- What is alike in this way is moved. -/
theorem Expr.Alike.shift_eq {k : Nat} {e e' : Expr} (h : e.Alike (.shifting k) e') :
    e' = e.shift k := by
  induction e using Expr.parts_induction generalizing e' with
  | step e ih =>
    have all : ∀ {es es' : List Expr}, List.Forall₂ (Alike (.shifting k)) es es' →
        (∀ x ∈ es, x ∈ e.parts) → es' = shiftList k es := by
      intro es es' h hp
      induction h with
      | nil => rfl
      | cons hx _ rest =>
        rw [shiftList, ih _ (hp _ (by simp)) hx, rest fun y hy => hp y (List.mem_cons_of_mem _ hy)]
    cases h with
    | numeral | var | breakTo | continueTo => rfl
    | text h =>
      obtain ⟨rfl, rfl⟩ := h
      rfl
    | assign h => rw [shift, ih _ (by simp [parts]) h]
    | binary hl hr ho =>
      rw [shift, ih _ (by simp [parts]) hl, ih _ (by simp [parts]) hr, show _ = _ from ho]
    | call ha ho => rw [shift, all ha fun _ h => h, show _ = _ from ho]
    | ret h ho => rw [shift, ih _ (by simp [parts]) h, show _ = _ from ho]
    | branch hc hy =>
      rw [shift, ih _ (by simp [parts]) hc, all hy fun x h => by simp [parts, h]]
    | branchElse hc hy hn =>
      rw [shift, ih _ (by simp [parts]) hc, all hy fun x h => by simp [parts, h],
        all hn fun x h => by simp [parts, h]]
    | whileLoop hc hb =>
      rw [shift, ih _ (by simp [parts]) hc, all hb fun x h => by simp [parts, h]]
    | loop hb => rw [shift, all hb fun _ h => h]
    | function hb => rw [shift, all hb fun _ h => h]

theorem map_shift_eq {k : Nat} {es es' : List Expr}
    (h : List.Forall₂ (Expr.Alike (.shifting k)) es es') : es' = es.map (Expr.shift k) := by
  induction h with
  | nil => rfl
  | cons he _ ih => rw [List.map_cons, he.shift_eq, ih]

theorem Token.alike_shift (k : Nat) (t : Token) : t.Alike (.shifting k) (t.shift k) := by
  obtain ⟨l, o⟩ := t
  by_cases hl : ∃ q, l = .text q
  · obtain ⟨q, rfl⟩ := hl
    exact .text rfl ⟨rfl, rfl⟩
  · exact .other (fun q hq => hl ⟨q, hq⟩) rfl

/-- **Tokens that are moved are read into a program that is moved.** -/
theorem Read.program_shift (k : Nat) {ts : List Token} {es : Program} (h : program ts = .ok es) :
    program (ts.map (Token.shift k)) = .ok (es.map (Expr.shift k)) := by
  have moved : AllAlike (.shifting k) ts (ts.map (Token.shift k)) := by
    rw [AllAlike, List.forall₂_map_right_iff, List.forall₂_same]
    exact fun t _ => t.alike_shift k
  have agree := program_alike (L := .shifting k) (by rintro _ _ rfl; rfl) moved
  rw [h] at agree
  generalize hp : program (ts.map (Token.shift k)) = r at agree
  cases agree with
  | ok hes => rw [map_shift_eq hes]

/-! ## Sources -/

/-- **Programs compose by lines.**  If two sources are read as programs, then so are they with a
line end between them: as the statements of the first, and then those of the second, moved behind
the line end. -/
theorem ofSource_append_newline {a b : List Char} {es fs : Program}
    (ha : Program.ofSource a = .ok es) (hb : Program.ofSource b = .ok fs) :
    Program.ofSource (a ++ '\n' :: b) = .ok (es ++ fs.map (Expr.shift (a.length + 1))) := by
  obtain ⟨ts, hts, hes⟩ := bind_eq_ok.mp ha
  obtain ⟨us, hus, hfs⟩ := bind_eq_ok.mp hb
  obtain ⟨words, rfl, hcut⟩ := tokens_of_tokenize hts
  exact bind_eq_ok.mpr ⟨_, tokenize_append_newline hts hus,
    Read.program_append_newline hcut.words hes (Read.program_shift _ hfs) a.length⟩

/-! The first source ends with a conditional, after which an `else` could follow, and with a
comment.  In the second one offsets stand inside a body and inside a text. -/

def firstLines : List Char := "if(x)\x7bb16@f\x7d # \"".toList

def secondLines : List Char := "\nfn f()\x7bret g(\"\x7bx\x7d\\n\")+1\x7d".toList

def firstProgram : Program := [.branch none (.var "x") [.numeral ⟨16, ['f']⟩] none]

/-- The second program, with its offsets moved by `k`. -/
def secondProgram (k : Nat) : Program :=
  [.function "f" [] none [.ret (.binary .add
    (.call "g" [.text ⟨['\x7b', 'x', '\x7d', '\n'], [1, 2, 3, 4]⟩ (14 + k)] (12 + k))
    (.numeral ⟨10, ['1']⟩) (some (22 + k))) (8 + k)]]

theorem secondLines_moved :
    (Program.ofSource firstLines = .ok firstProgram ∧
      Program.ofSource secondLines = .ok (secondProgram 0)) ∧
    Program.ofSource (firstLines ++ '\n' :: secondLines) =
      .ok (firstProgram ++ secondProgram 17) := by
  have first : Program.ofSource firstLines = .ok firstProgram := by with_unfolding_all rfl
  have second : Program.ofSource secondLines = .ok (secondProgram 0) := by with_unfolding_all rfl
  exact ⟨⟨first, second⟩, ofSource_append_newline first second⟩

end Radix
