import Radix.RunError
import Radix.Source

/-!
# Diagnostic — reports with a line and a caret

A diagnostic is a label and a message with the name of a source.  When it has a place it is shown
with the line and a caret below the column.
-/

namespace Radix

/-- A report of a failure. -/
structure Diagnostic where
  label : String
  message : String
  filename : String
  position : Option Position
  deriving Repr, DecidableEq

namespace Diagnostic

/-- A report at an offset of a source. -/
def placed (source : List Char) (offset : Nat) (label message filename : String) : Diagnostic :=
  { label, message, filename, position := Position.ofOffset? source offset }

/-- A report without a place. -/
def unplaced (label message filename : String) : Diagnostic :=
  { label, message, filename, position := none }

/-- The report of a failure, at its offset if it has one. -/
def ofFailure (source : List Char) (offset : Option Nat) (kind : ErrorKind)
    (message filename : String) : Diagnostic :=
  match offset with
  | some offset => placed source offset kind.label message filename
  | none => unplaced kind.label message filename

/-- The terminal sequence that starts text in a color. -/
def colorStart (code : Nat) : String := s!"\x1b[{code}m"

/-- A text in a color, or as it is. -/
def paint (color : Bool) (code : Nat) (s : String) : String :=
  if color then colorStart code ++ s ++ colorStart 0 else s

/-- How a report is shown, with or without color. -/
def render (color : Bool) (d : Diagnostic) : String :=
  let place := match d.position with
    | none => ""
    | some p =>
      let caret := String.ofList (List.replicate (p.column - 1) ' ' ++ ['^'])
      d.filename ++ ":" ++ toString p.line ++ ":" ++ toString p.column ++ "\n"
        ++ paint color 93 p.lineText ++ "\n" ++ paint color 93 caret ++ "\n"
  place ++ paint color 91 ("[" ++ d.label ++ "]: " ++ d.message)

end Diagnostic

end Radix
