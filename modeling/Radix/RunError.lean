import Radix.ReadError
import Radix.Tag

/-!
# RunError — why an evaluation fails

The causes of failures during evaluation, with their labels and wordings.  Failures of calls and of
texts know where they happened; the others do not.
-/

namespace Radix

/-- The deepest nesting of calls. -/
def maxDepth : Nat := 1000

/-- Why a console did not do what it was asked. -/
inductive ConsoleError where
  /-- No line is left to read. -/
  | noInput
  /-- Nothing can be written any more. -/
  | closed
  deriving Repr, DecidableEq

def ConsoleError.message : ConsoleError → String
  | .noInput => "no input left"
  | .closed => "console closed"

/-- The two ways of leaving the body of a construct early. -/
inductive Jump where
  | breakTo
  | continueTo
  deriving Repr, DecidableEq

/-- The keyword of a jump. -/
def Jump.keyword : Jump → Keyword
  | .breakTo => .breakWord
  | .continueTo => .continueWord

/-- Why an evaluation fails. -/
inductive RunError where
  | unknownVariable (name : String)
  | unknownFunction (name : String) (offset : Nat)
  | argumentCount (name : String) (expected found offset : Nat)
  /-- The argument at the position, counted from 1, is not admitted by the parameter's tag. -/
  | argumentType (name : String) (position : Nat) (expected : Tag) (found : Kind) (offset : Nat)
  | unknownTag (word : String)
  /-- The operator has no meaning on operands of these kinds. -/
  | operands (op : Operator) (left right : Kind)
  /-- A native function was given a value of the wrong kind, or none. -/
  | nativeArgument (expected : Tag) (found : Option Kind)
  | numeral (e : NumeralError)
  /-- A jump left the program without meeting the construct it is for. -/
  | unmatchedJump (jump : Jump) (label : Option String)
  | depthExceeded (name : String) (offset : Nat)
  /-- A text could not be read. -/
  | read (e : ReadError)
  | console (e : ConsoleError)
  deriving Repr, DecidableEq

namespace RunError

/-- Where the failure happened, if it is known. -/
def offset : RunError → Option Nat
  | .unknownFunction _ offset
  | .argumentCount _ _ _ offset
  | .argumentType _ _ _ _ offset
  | .depthExceeded _ offset => some offset
  | .read e => some e.offset
  | _ => none

def kind : RunError → ErrorKind
  | .unknownVariable _ | .unknownFunction .. => .name
  | .argumentCount .. => .arity
  | .argumentType .. | .unknownTag _ | .operands .. | .nativeArgument .. => .type
  | .numeral _ => .value
  | .unmatchedJump .. => .jump
  | .depthExceeded .. => .depth
  | .read e => e.kind
  | .console _ => .console

def message : RunError → String
  | .unknownVariable name => s!"Undefined variable '{name}'"
  | .unknownFunction name _ => s!"Unknown function '{name}'"
  | .argumentCount name expected found _ =>
    s!"'{name}' expects {expected} argument(s), got {found}"
  | .argumentType name position expected found _ =>
    s!"Argument {position} of '{name}' must be " ++ expected.word ++ ", got " ++ found.name
  | .unknownTag word => s!"Unknown type tag '{word}'"
  | .operands op left right =>
    "Unsupported operation: '" ++ op.symbol ++ "' between " ++ left.name ++ " and " ++ right.name
  | .nativeArgument expected found =>
    "Unsupported operation: expected " ++ expected.word ++ ", got "
      ++ (found.map Kind.name).getD "nothing"
  | .numeral e => e.message
  | .unmatchedJump jump (some label) =>
    "'" ++ jump.keyword.spelling ++ s!" @{label}' has no enclosing construct labeled '{label}'"
  | .unmatchedJump jump none => "'" ++ jump.keyword.spelling ++ "' outside of a loop"
  | .depthExceeded name _ =>
    s!"Call depth limit exceeded calling '{name}' (max: {maxDepth})"
  | .read e => e.message
  | .console e => "I/O failure: " ++ e.message

/-- Is the failure the one that operators let pass? -/
def isDepthExceeded : RunError → Bool
  | .depthExceeded .. => true
  | _ => false

end RunError

end Radix
