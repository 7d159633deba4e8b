import Radix.Text.Blank

/-!
# Source — places in a source text

A source unit is a text with the names under which it is reported.  `Position.ofOffset?` turns an
offset into a line and a column, both counted from 1.
-/

namespace Radix

/-- A source text, the name that operators report, and the name that aborting failures report. -/
structure SourceUnit where
  text : List Char
  filename : String
  origin : String
  deriving Repr, DecidableEq

/-- A place in a source, and the line it is on. -/
structure Position where
  line : Nat
  column : Nat
  lineText : String
  deriving Repr, DecidableEq

/-- The lines of a text, without their line ends.  There is always one. -/
def lines : List Char → List (List Char)
  | [] => [[]]
  | c :: cs =>
    if c = '\n' then [] :: lines cs
    else match lines cs with
      | l :: ls => (c :: l) :: ls
      | [] => [[c]]

namespace Position

/-- The place of the offset, counted from the start of the first of the lines, whose number is
`number`.  An offset directly behind a line is still on it. -/
def inLines? (offset number : Nat) : List (List Char) → Option Position
  | [] => none
  | l :: ls =>
    if offset ≤ l.length then
      some { line := number, column := offset + 1,
             lineText := String.ofList (Text.dropEnd (· = '\r') l) }
    else inLines? (offset - (l.length + 1)) (number + 1) ls

/-- The place of an offset in a text, if it is not behind its end. -/
def ofOffset? (source : List Char) (offset : Nat) : Option Position :=
  inLines? offset 1 (lines source)

end Position

end Radix
