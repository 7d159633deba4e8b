import Radix.Expr.Basic
import Radix.Tag

/-!
# Function — named functions, native and declared

A function has parameters with tags and a body, which is a list of statements or one of the native
functions.  The tag of its result is only shown, never checked.
-/

namespace Radix

/-- The native functions. -/
inductive Native where
  | out | input | len | str | number | sqrt | rebase | funcs | wait
  deriving Repr, DecidableEq

/-- What a call runs. -/
inductive Body where
  | native (n : Native)
  | program (statements : List Expr)

/-- A function. -/
structure Function where
  name : String
  params : List (Tag × String)
  returns : Option String
  body : Body

namespace Function

/-- Is the function native? -/
def isNative (f : Function) : Bool :=
  match f.body with
  | .native _ => true
  | .program _ => false

/-- The head of the declaration that a function could come from. -/
def signature (f : Function) : String :=
  let params := ", ".intercalate (f.params.map fun (tag, name) => tag.word ++ " " ++ name)
  "fn " ++ f.name ++ "(" ++ params ++ ")" ++ (match f.returns with
    | some tag => " " ++ tag
    | none => "")

end Function

namespace Native

/-- All native functions, each once. -/
def all : List Native := [.out, .input, .len, .str, .number, .sqrt, .rebase, .funcs, .wait]

def name : Native → String
  | .out => "out"
  | .input => "in"
  | .len => "len"
  | .str => "str"
  | .number => "number"
  | .sqrt => "sqrt"
  | .rebase => "rebase"
  | .funcs => "funcs"
  | .wait => "wait"

def params : Native → List (Tag × String)
  | .out => [(.text, "text")]
  | .input => []
  | .len => [(.text, "text")]
  | .str => [(.anyBase, "val")]
  | .number => [(.text, "raw")]
  | .sqrt => [(.anyBase, "val")]
  | .rebase => [(.anyBase, "val"), (.anyBase, "base")]
  | .funcs => []
  | .wait => [(.anyBase, "seconds")]

/-- The tag of the result, as it is shown. -/
def returns : Native → Option String
  | .out | .funcs | .wait => none
  | .input | .str => some "str"
  | .len | .number => some "b10"
  | .sqrt | .rebase => some "b_"

/-- The native function as an entry of a function table. -/
def toFunction (n : Native) : Function where
  name := n.name
  params := n.params
  returns := n.returns
  body := .native n

/-- The native function of a name. -/
def ofName? (s : String) : Option Native := all.find? (·.name = s)

end Native

end Radix
