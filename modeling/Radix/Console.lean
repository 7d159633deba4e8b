import Radix.Diagnostic

/-!
# Console — what a program reads and writes

A console is plain state: the lines still to be read, the text written so far, and the diagnostics
reported so far.  Output and diagnostics only grow, and lines are taken from the front.
-/

namespace Radix

/-- Where lines come from. -/
inductive Feed where
  /-- Lines served as they are; reading past them is an error. -/
  | script (lines : List String)
  /-- The lines of a stream with their line ends, which reading sheds; at the end every further line
  is empty. -/
  | stream (lines : List String)
  deriving Repr, DecidableEq

/-- The state of a console. -/
structure Console where
  feed : Feed
  /-- How many more texts can be written, if there is a limit. -/
  writesLeft : Option Nat := none
  output : String := ""
  diagnostics : List Diagnostic := []
  /-- The seconds that programs asked to wait. -/
  waited : Nat := 0
  deriving Repr, DecidableEq

/-- A line without the line ends behind it. -/
def shedLineEnd (line : String) : String :=
  String.ofList (Text.dropEnd (fun c => c = '\n' || c = '\r') line.toList)

namespace Console

/-- Reads a line. -/
def readLine (c : Console) : Except ConsoleError String × Console :=
  match c.feed with
  | .script [] => (.error .noInput, c)
  | .script (l :: ls) => (.ok l, { c with feed := .script ls })
  | .stream [] => (.ok "", c)
  | .stream (l :: ls) => (.ok (shedLineEnd l), { c with feed := .stream ls })

/-- Writes a text. -/
def write (c : Console) (s : String) : Except ConsoleError Unit × Console :=
  match c.writesLeft with
  | none => (.ok (), { c with output := c.output ++ s })
  | some 0 => (.error .closed, c)
  | some (n + 1) => (.ok (), { c with output := c.output ++ s, writesLeft := some n })

/-- Reports a diagnostic. -/
def report (c : Console) (d : Diagnostic) : Console :=
  { c with diagnostics := c.diagnostics ++ [d] }

/-- Notes that the program asked to wait. -/
def wait (c : Console) (seconds : Nat) : Console := { c with waited := c.waited + seconds }

end Console

end Radix
