import Radix.Eval.Control
import Radix.Eval.Native
import Radix.Template

/-!
# Eval/Basic — evaluating expressions

`Eval.step` says how an expression is evaluated in terms of an evaluator `ev` for the expressions it
is made of.  `Expr.eval` ties the knot: with `n + 1` units of fuel the parts are evaluated with `n`,
and a loop may take `n` turns.  Without fuel nothing is decided, and what is decided with some fuel
is decided with more.
-/

namespace Radix

namespace Eval

/-! ## Sequences -/

/-- Evaluates expressions from left to right. -/
def all (ev : Expr → Run Value) : List Expr → Run (List Value)
  | [] => pure []
  | e :: es => do
    let v ← ev e
    let vs ← all ev es
    return v :: vs

/-- Runs statements in order; their values are dropped. -/
def block (ev : Expr → Run Value) : List Expr → Run Unit
  | [] => pure ()
  | e :: es => do
    let _ ← ev e
    block ev es

/-- Shows the parts of a text one after the other. -/
def shown (ev : Expr → Run Value) : List Template.Part → Run String
  | [] => pure ""
  | .chars cs :: ps => do
    let s ← shown ev ps
    return String.ofList cs ++ s
  | .expr e :: ps => do
    let v ← ev e
    let s ← shown ev ps
    return v.toText ++ s

/-! ## Constructs -/

/-- Does a value count as true? -/
def truth (v : Value) : Run Bool := Run.lift (ofNumeral v.truth)

/-- Evaluates a text: it is split into its parts, which are shown in order. -/
def text (ev : Expr → Run Value) (quoted : QuotedText) (offset : Nat) : Run Value :=
  match Template.parts quoted offset with
  | .ok ps => do
    let s ← shown ev ps
    return .text s
  | .error e => Run.fail (.read e)

/-- Evaluates an operator.  The logical ones evaluate the right operand only if the left one does
not decide. -/
def operation (ev : Expr → Run Value) (op : Operator) (left right : Expr) : Run Value := do
  let a ← ev left
  match op with
  | .and =>
    if ← truth a then
      let b ← ev right
      return .ofBool (← truth b)
    else return .ofBool false
  | .or =>
    if ← truth a then return .ofBool true
    else
      let b ← ev right
      return .ofBool (← truth b)
  | op =>
    let b ← ev right
    Run.lift (op.apply a b)

/-- Evaluates a conditional. -/
def conditional (ev : Expr → Run Value) (label : Option String) (condition : Expr)
    (thenBody : List Expr) (elseBody : Option (List Expr)) : Run Value := do
  let v ← ev condition
  if ← truth v then Run.branch label (block ev thenBody)
  else Run.branch label (block ev (elseBody.getD []))

/-- One turn of a loop with a condition. -/
def turn (ev : Expr → Run Value) (label : Option String) (condition : Expr) (body : List Expr) :
    Run Bool := do
  let v ← ev condition
  if ← truth v then Run.pass label (block ev body)
  else return false

/-! ## Functions -/

/-- The parameters of a declaration, with their tags understood. -/
def paramTags : List Param → Except RunError (List (Tag × String))
  | [] => .ok []
  | p :: ps =>
    match Tag.ofWord? p.tag with
    | none => .error (.unknownTag p.tag)
    | some tag => (paramTags ps).map ((tag, p.name) :: ·)

/-- Declares a function. -/
def declare (name : String) (params : List Param) (returns : Option String) (body : List Expr) :
    Run Value := do
  let params ← Run.lift (paramTags params)
  Run.modifyFrame (·.declare { name, params, returns, body := .program body })
  return .unit

/-- The first value, counted from `position`, that its parameter does not admit. -/
def checkTags (name : String) (offset position : Nat) :
    List (Tag × String) → List Value → Except RunError Unit
  | (tag, _) :: ps, v :: vs =>
    if tag.accepts v then checkTags name offset (position + 1) ps vs
    else .error (.argumentType name position tag v.kind offset)
  | _, _ => .ok ()

/-- Checks the number of arguments, and then their tags. -/
def checkArguments (f : Function) (values : List Value) (offset : Nat) : Except RunError Unit :=
  if values.length = f.params.length then checkTags f.name offset 1 f.params values
  else .error (.argumentCount f.name f.params.length values.length offset)

/-- Runs a native function. -/
def native (n : Native) (values : List Value) : Run Value := fun s =>
  match n.run values s.frame s.console with
  | (.ok v, console) => .done v { s with console }
  | (.error e, console) => .exit (.failed e) { s with console }

/-- Runs the body of a declared function on its arguments, unless calls are nested too deep. -/
def apply (ev : Expr → Run Value) (f : Function) (body : List Expr) (values : List Value)
    (offset : Nat) : Run Value := do
  let frame ← Run.frame
  if maxDepth ≤ frame.depth then Run.fail (.depthExceeded f.name offset)
  else Run.within (frame.enter (f.params.map (·.2)) values) (block ev body)

/-- Evaluates a call: the arguments from left to right, then the function is looked up, the
arguments are checked, and it runs. -/
def call (ev : Expr → Run Value) (name : String) (args : List Expr) (offset : Nat) :
    Run Value := do
  let values ← all ev args
  let frame ← Run.frame
  match frame.functions.get? name with
  | none => Run.fail (.unknownFunction name offset)
  | some f =>
    Run.lift (checkArguments f values offset)
    match f.body with
    | .native n => native n values
    | .program body => apply ev f body values offset

/-! ## Expressions -/

/-- Evaluates a variable. -/
def lookup (name : String) : Run Value := do
  let frame ← Run.frame
  match frame.vars.get? name with
  | some v => return v
  | none => Run.fail (.unknownVariable name)

/-- Evaluates an assignment. -/
def assign (ev : Expr → Run Value) (name : String) (value : Expr) : Run Value := do
  let v ← ev value
  Run.modifyFrame (·.bind name v)
  return .unit

/-- Evaluates a return: outside of calls it is just its value. -/
def ret (ev : Expr → Run Value) (value : Expr) : Run Value := do
  let v ← ev value
  let frame ← Run.frame
  if 0 < frame.depth then Run.leave (.ret v) else return v

/-- Evaluates an expression by an evaluator for its parts; loops take at most `turns` turns. -/
def step (turns : Nat) (ev : Expr → Run Value) : Expr → Run Value
  | .numeral x => pure (.numeral x)
  | .text quoted offset => text ev quoted offset
  | .var name => lookup name
  | .assign name value => assign ev name value
  | .binary op left right offset => Run.recover offset (operation ev op left right)
  | .call name args offset => call ev name args offset
  | .ret value _ => ret ev value
  | .branch label condition thenBody elseBody =>
    conditional ev label condition thenBody elseBody
  | .whileLoop label condition body => Run.iterate (turn ev label condition body) turns
  | .loop label body => Run.iterate (Run.pass label (block ev body)) turns
  | .breakTo label => Run.leave (.breakTo label)
  | .continueTo label => Run.leave (.continueTo label)
  | .function name params returns body => declare name params returns body

end Eval

/-- Evaluates an expression with the given fuel. -/
def Expr.eval : Nat → Expr → Run Value
  | 0, _ => Run.starve
  | n + 1, e => Eval.step n (Expr.eval n) e

@[simp] theorem Expr.eval_zero (e : Expr) : e.eval 0 = Run.starve := rfl

theorem Expr.eval_succ (n : Nat) (e : Expr) : e.eval (n + 1) = Eval.step n (Expr.eval n) e := rfl

/-- Runs statements in order with the given fuel. -/
def runBlock (fuel : Nat) (es : List Expr) : Run Unit := Eval.block (Expr.eval fuel) es

/-- Evaluates a statement that stands in no construct.  There is no result if fuel runs out. -/
def runStatement (fuel : Nat) (e : Expr) (s : State) : Option (Except RunError Value × State) :=
  (e.eval fuel s).outermost

end Radix
