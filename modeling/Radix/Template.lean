import Radix.Expr.Read
import Radix.Token.Scan

/-!
# Template — the expressions inside a text

A quoted text holds expressions between braces.  `parts` separates them from the characters around
them: an escaped brace is the brace itself, any other opening brace starts an expression that goes
up to the next closing brace.  The tokens of such an expression stand where their characters stand
in the source, so that faults in it are found at the right place.
-/

namespace Radix.Template

/-- A part of a text: characters, or an expression whose value is shown. -/
inductive Part where
  | chars (cs : List Char)
  | expr (e : Expr)
  deriving Repr

/-- The parts with one more character in front. -/
def prepend (c : Char) : List Part → List Part
  | .chars cs :: parts => .chars (c :: cs) :: parts
  | parts => .chars [c] :: parts

/-- Is the character a brace? -/
def isBrace (c : Char) : Bool := c = '\x7b' || c = '\x7d'

/-- Reads the expression `inner`, which is written in the text after the opening brace at index
`i`. -/
def interpolation (quoted : QuotedText) (offset i : Nat) (inner : List Char) :
    Except ReadError Expr := do
  let table := (List.range' (i + 1) (inner.length + 1)).map (offset + quoted.place ·)
  let tokens ← (scanAt table inner).result
  let es ← Read.program tokens
  match es with
  | [e] => return e
  | es => throw ⟨.interpolationCount es.length, offset + quoted.place i⟩

/-- The parts of the characters of a text from index `i` on. -/
def partsFrom (quoted : QuotedText) (offset i : Nat) : List Char → Except ReadError (List Part)
  | [] => return []
  | '\x7b' :: cs =>
    let inner := cs.takeWhile (· ≠ '\x7d')
    if inner.length < cs.length then do
      let e ← interpolation quoted offset i inner
      let ps ← partsFrom quoted offset (i + inner.length + 2) (cs.drop (inner.length + 1))
      return .expr e :: ps
    else throw ⟨.unclosedInterpolation, offset + quoted.place i⟩
  | '\\' :: c :: cs =>
    if isBrace c then do
      let ps ← partsFrom quoted offset (i + 2) cs
      return prepend c ps
    else do
      let ps ← partsFrom quoted offset (i + 1) (c :: cs)
      return prepend '\\' ps
  | c :: cs => do
    let ps ← partsFrom quoted offset (i + 1) cs
    return prepend c ps
termination_by cs => cs.length
decreasing_by all_goals simp only [List.length_drop, List.length_cons]; omega

/-- The parts of a text whose opening quote has the given offset. -/
def parts (quoted : QuotedText) (offset : Nat) : Except ReadError (List Part) :=
  partsFrom quoted offset 0 quoted.chars

end Radix.Template
