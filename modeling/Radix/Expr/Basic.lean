import Radix.Numeral.Basic
import Radix.Token.Basic

/-!
# Expr/Basic — programs as trees

A program is a list of expressions.  Control constructs, assignments and function declarations are
expressions as well.  Texts, operators, calls and returns remember the offset of their token; an
operator may have none, and then its failures are not reported on the spot.
-/

namespace Radix

/-- A parameter of a function: the tag as written, and the name. -/
structure Param where
  tag : String
  name : String
  deriving Repr, DecidableEq

/-- An expression. -/
inductive Expr where
  | numeral (x : Numeral)
  /-- A text, whose interpolations are read when it is evaluated. -/
  | text (quoted : QuotedText) (offset : Nat)
  | var (name : String)
  | assign (name : String) (value : Expr)
  | binary (op : Operator) (left right : Expr) (offset : Option Nat)
  | call (name : String) (args : List Expr) (offset : Nat)
  | ret (value : Expr) (offset : Nat)
  | branch (label : Option String) (condition : Expr) (thenBody : List Expr)
      (elseBody : Option (List Expr))
  | whileLoop (label : Option String) (condition : Expr) (body : List Expr)
  | loop (label : Option String) (body : List Expr)
  | breakTo (label : Option String)
  | continueTo (label : Option String)
  | function (name : String) (params : List Param) (returns : Option String) (body : List Expr)
  deriving Repr, Inhabited

/-- A program: its statements in order. -/
abbrev Program := List Expr

/-! ## Operators without offsets -/

mutual

/-- The expression with the offset of every operator removed, in every part of it but not inside
texts. -/
def Expr.unanchored : Expr → Expr
  | .numeral x => .numeral x
  | .text quoted offset => .text quoted offset
  | .var name => .var name
  | .assign name value => .assign name value.unanchored
  | .binary op left right _ => .binary op left.unanchored right.unanchored none
  | .call name args offset => .call name (unanchoredList args) offset
  | .ret value offset => .ret value.unanchored offset
  | .branch label condition thenBody none =>
    .branch label condition.unanchored (unanchoredList thenBody) none
  | .branch label condition thenBody (some elseBody) =>
    .branch label condition.unanchored (unanchoredList thenBody) (some (unanchoredList elseBody))
  | .whileLoop label condition body =>
    .whileLoop label condition.unanchored (unanchoredList body)
  | .loop label body => .loop label (unanchoredList body)
  | .breakTo label => .breakTo label
  | .continueTo label => .continueTo label
  | .function name params returns body => .function name params returns (unanchoredList body)

/-- `Expr.unanchored` on every expression of a list. -/
def unanchoredList : List Expr → List Expr
  | [] => []
  | e :: es => e.unanchored :: unanchoredList es

end

theorem unanchoredList_eq_map (es : List Expr) : unanchoredList es = es.map Expr.unanchored := by
  induction es with
  | nil => rfl
  | cons e es ih => simp [unanchoredList, ih]

end Radix
