import Radix.Numeral.Basic
import Radix.Token.Basic

/-!
# ReadError — why a source text is no program

Every fault of a source text has one cause and one offset.  The cause alone decides the kind of the
error and its wording.
-/

namespace Radix

/-- The label under which a failure is reported. -/
inductive ErrorKind where
  | lexical | grammar | value | name | arity | type | jump | depth | console
  deriving Repr, DecidableEq

/-- The label as it is shown. -/
def ErrorKind.label : ErrorKind → String
  | .lexical => "LexError"
  | .grammar => "SyntaxError"
  | .value => "ValueError"
  | .name => "NameError"
  | .arity => "ArityError"
  | .type => "TypeError"
  | .jump => "ControlFlowError"
  | .depth => "RecursionError"
  | .console => "IoError"

/-- What could have stood where an unexpected lexeme was found. -/
inductive Expectation where
  | expression
  /-- Anything at all. -/
  | token
  /-- The end of a statement. -/
  | terminator
  | mark (m : Mark)
  /-- The parenthesis that opens the condition of the construct. -/
  | conditionStart (k : Keyword)
  | conditionEnd
  | parametersStart
  | listNext
  | functionName
  | parameterTag
  | parameterName
  | labelName
  deriving Repr, DecidableEq

/-- How messages name what was expected. -/
def Expectation.describe : Expectation → String
  | .expression => "an expression"
  | .token => "a token"
  | .terminator => "';' or a newline"
  | .mark m => "'" ++ m.spelling ++ "'"
  | .conditionStart k => "'(' after '" ++ k.spelling ++ "'"
  | .conditionEnd => "')' after condition"
  | .parametersStart => "'(' after function name"
  | .listNext => "',' or ')'"
  | .functionName => "a function name after 'fn'"
  | .parameterTag => "a parameter type tag"
  | .parameterName => "a parameter name"
  | .labelName => "a label name after '@'"

/-- What is wrong with a source text. -/
inductive ReadFault where
  /-- No token starts with the character. -/
  | strayCharacter (c : Char)
  /-- A text is not closed by a quote. -/
  | unclosedText
  /-- The payload of a based numeral is not closed by a parenthesis. -/
  | unclosedPayload
  | unexpected (found : Lexeme) (expected : Expectation)
  | invalidNumeral (cause : NumeralError)
  /-- A brace in a text opens an expression that is not closed. -/
  | unclosedInterpolation
  /-- The braces in a text do not hold exactly one expression. -/
  | interpolationCount (count : Nat)
  deriving Repr, DecidableEq

namespace ReadFault

def kind : ReadFault → ErrorKind
  | .strayCharacter _ | .unclosedText | .unclosedPayload => .lexical
  | .unexpected .. | .unclosedInterpolation | .interpolationCount _ => .grammar
  | .invalidNumeral _ => .value

def message : ReadFault → String
  | .strayCharacter c => "Unexpected character: " ++ Text.quoteChar c
  | .unclosedText => "Unterminated text literal"
  | .unclosedPayload => "Unclosed base literal, expected ')'"
  | .unexpected found expected =>
    "Unexpected " ++ found.describe ++ ", expected " ++ expected.describe
  | .invalidNumeral cause => "Invalid literal: " ++ cause.message
  | .unclosedInterpolation => "Unclosed '\x7b' in text"
  | .interpolationCount count =>
    "Expected one expression inside '\x7b\x7d', found " ++ toString count

end ReadFault

/-- A fault of a source text and where it stands. -/
structure ReadError where
  fault : ReadFault
  offset : Nat
  deriving Repr, DecidableEq

namespace ReadError

def kind (e : ReadError) : ErrorKind := e.fault.kind

def message (e : ReadError) : String := e.fault.message

end ReadError

end Radix
