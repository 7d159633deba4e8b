import Radix.Proofs.Expr.Cut
import Radix.Proofs.Expr.Parts

/-!
# Proofs/Expr/Print — programs written as lexemes

`Expr.print` writes an expression with as few parentheses as the tiers allow, the statements of a
block on lines of their own, and `printProgram` a whole program.  What is written begins with a
lexeme that begins nothing but an expression or a statement (`print_opens`), so a reader that skips
lines, or looks for an `else`, does not mistake it.
-/

namespace Radix

/-! ## Where expressions stand -/

namespace Expr

/-- Can the expression stand only as a statement? -/
def isStatement : Expr → Bool
  | .assign _ _ | .function _ _ _ _ => true
  | _ => false

/-- The direct parts that do not stand as statements. -/
def operands : Expr → List Expr
  | .assign _ value | .ret value _ => [value]
  | .binary _ left right _ => [left, right]
  | .call _ args _ => args
  | .branch _ condition _ _ | .whileLoop _ condition _ => [condition]
  | _ => []

/-- Assignments and declarations stand only as statements: nowhere in the expression is one an
operand, an argument or a condition. -/
def Regular (e : Expr) : Prop := e.Everywhere fun y => ∀ x ∈ y.operands, x.isStatement = false

instance (e : Expr) : Decidable e.Regular := inferInstanceAs (Decidable (e.Everywhere _))

end Expr

/-! ## Writing -/

/-- A numeral in its shortest form: bare in base 10. -/
def Numeral.lexeme (x : Numeral) : Lexeme :=
  if x.base = 10 then .number x.digits else .based x.base x.digits

/-- The label of a construct or a jump. -/
def printLabel : Option String → List Lexeme
  | none => []
  | some s => [.mark .at, .name s]

def parenthesized (ls : List Lexeme) : List Lexeme :=
  .mark .openParen :: (ls ++ [.mark .closeParen])

def braced (ls : List Lexeme) : List Lexeme := .mark .openBrace :: (ls ++ [.mark .closeBrace])

/-- In parentheses, if they are needed. -/
def enclosed (needed : Bool) (ls : List Lexeme) : List Lexeme :=
  if needed then parenthesized ls else ls

/-- The parameters of a function, without the parentheses. -/
def printParams : List Param → List Lexeme
  | [] => []
  | [p] => [.name p.tag, .name p.name]
  | p :: q :: ps => .name p.tag :: .name p.name :: .mark .comma :: printParams (q :: ps)

/-- The tag of a function's result. -/
def printTag : Option String → List Lexeme
  | none => []
  | some tag => [.name tag]

/-- Does the other branch consist of one more conditional? -/
def isElseIf : List Expr → Bool
  | [.branch _ _ _ _] => true
  | _ => false

mutual

/-- The lexemes of an expression.  If `chained`, a conditional that alone makes up the other branch
of one is written right after its `else`, and otherwise in braces. -/
def Expr.print (chained : Bool) : Expr → List Lexeme
  | .numeral x => [x.lexeme]
  | .text quoted _ => [.text quoted]
  | .var name => [.name name]
  | .assign name value => .name name :: .mark .assign :: value.print chained
  | .binary op left right _ =>
    enclosed (left.needsParens op.level) (left.print chained) ++
      .operator op :: enclosed (right.needsParens (op.level + 1)) (right.print chained)
  | .call name args _ => .name name :: parenthesized (printList chained (.mark .comma) args)
  | .ret value _ => .keyword .retWord :: value.print chained
  | .branch label condition yes no =>
    .keyword .ifWord :: (printLabel label ++ (parenthesized (condition.print chained) ++
      (braced (printList chained .newline yes) ++ printElse chained no)))
  | .whileLoop label condition body =>
    .keyword .whileWord :: (printLabel label ++ (parenthesized (condition.print chained) ++
      braced (printList chained .newline body)))
  | .loop label body =>
    .keyword .loopWord :: (printLabel label ++ braced (printList chained .newline body))
  | .breakTo label => .keyword .breakWord :: printLabel label
  | .continueTo label => .keyword .continueWord :: printLabel label
  | .function name params returns body =>
    .keyword .fnWord :: .name name :: (parenthesized (printParams params) ++
      (printTag returns ++ braced (printList chained .newline body)))

/-- The other branch of a conditional, if it has one. -/
def printElse (chained : Bool) : Option (List Expr) → List Lexeme
  | none => []
  | some no =>
    .keyword .elseWord :: if chained && isElseIf no then printList chained .newline no
      else braced (printList chained .newline no)

/-- The expressions one after the other, with a lexeme between them. -/
def printList (chained : Bool) (separator : Lexeme) : List Expr → List Lexeme
  | [] => []
  | [e] => e.print chained
  | e :: x :: es => e.print chained ++ separator :: printList chained separator (x :: es)

end

/-- The lexemes of a program: its statements on lines of their own, and the end. -/
def printProgram (chained : Bool) (es : Program) : List Lexeme :=
  printList chained .newline es ++ [.stop]

/-! ## How what is written begins -/

/-- Can an expression or a statement begin with the lexeme? -/
def Lexeme.opens : Lexeme → Bool
  | .number _ | .based _ _ | .text _ | .name _ | .mark .openParen => true
  | .keyword k => k ≠ .elseWord
  | _ => false

/-- **What is written begins an expression or a statement.** -/
theorem print_opens (chained : Bool) (e : Expr) :
    ∃ l ls, e.print chained = l :: ls ∧ l.opens = true := by
  match e with
  | .numeral x =>
    refine ⟨x.lexeme, [], by rw [Expr.print], ?_⟩
    unfold Numeral.lexeme
    split <;> rfl
  | .binary op l r offset =>
    rw [Expr.print]
    match l.needsParens op.level with
    | true => exact ⟨_, _, rfl, rfl⟩
    | false =>
      obtain ⟨m, ms, hm, ho⟩ := print_opens chained l
      exact ⟨m, _, by rw [enclosed, if_neg (by simp), hm]; rfl, ho⟩
  | .text _ _ | .var _ | .assign _ _ | .call _ _ _ | .ret _ _ | .branch _ _ _ _
  | .whileLoop _ _ _ | .loop _ _ | .breakTo _ | .continueTo _ | .function _ _ _ _ =>
    exact ⟨_, _, by rw [Expr.print], rfl⟩

theorem printList_opens (chained : Bool) (separator : Lexeme) {es : List Expr} (h : es ≠ []) :
    ∃ l ls, printList chained separator es = l :: ls ∧ l.opens = true := by
  match es, h with
  | [e], _ => rw [printList]; exact print_opens chained e
  | e :: x :: es, _ =>
    obtain ⟨l, ls, hl, ho⟩ := print_opens chained e
    exact ⟨l, _, by rw [printList, hl]; rfl, ho⟩

theorem printParams_opens {ps : List Param} (h : ps ≠ []) :
    ∃ l ls, printParams ps = l :: ls ∧ l.opens = true := by
  match ps, h with
  | [_], _ => exact ⟨_, _, rfl, rfl⟩
  | _ :: _ :: _, _ => exact ⟨_, _, rfl, rfl⟩

end Radix
