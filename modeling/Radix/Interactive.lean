import Radix.Session

/-!
# Interactive — reading statements line by line

Lines are collected until every brace is closed and then run as one source.  `openBraces` counts the
braces outside texts and comments.  The program that runs reads its own lines from the same stream.
-/

namespace Radix

/-! ## Open braces -/

/-- What has been seen of a source so far: how many braces are open, and where the scan stands. -/
structure BraceScan where
  depth : Int := 0
  inText : Bool := false
  inComment : Bool := false
  escaped : Bool := false
  deriving Repr, DecidableEq

/-- The scan after one more character. -/
def BraceScan.next (b : BraceScan) (c : Char) : BraceScan :=
  if b.inComment then (if c = '\n' then { b with inComment := false } else b)
  else if b.escaped then { b with escaped := false }
  else if c = '\\' && b.inText then { b with escaped := true }
  else if c = '"' then { b with inText := !b.inText }
  else if b.inText then b
  else if c = '#' then { b with inComment := true }
  else if c = '\x7b' then { b with depth := b.depth + 1 }
  else if c = '\x7d' then { b with depth := b.depth - 1 }
  else b

/-- The number of braces opened in a source less that of braces closed. -/
def openBraces (source : List Char) : Int := (source.foldl BraceScan.next {}).depth

/-! ## Lines -/

/-- The lines of a stream, with their line ends. -/
def rawLines : List Char → List (List Char)
  | [] => []
  | c :: cs =>
    if c = '\n' then ['\n'] :: rawLines cs
    else match rawLines cs with
      | l :: ls => (c :: l) :: ls
      | [] => [[c]]

/-- A line without the line end behind it. -/
def chompLine (line : List Char) : List Char :=
  match line.reverse with
  | '\n' :: '\r' :: cs => cs.reverse
  | '\n' :: cs => cs.reverse
  | _ => line

/-- Takes the next line of a console's stream. -/
def Console.nextLine (c : Console) : Option (List Char × Console) :=
  match c.feed with
  | .stream (l :: ls) => some (chompLine l.toList, { c with feed := .stream ls })
  | _ => none

/-! ## The loop -/

/-- Does the line end the interaction? -/
def isFarewell (line : List Char) : Bool :=
  let s := String.ofList (Text.trim line)
  s = "exit" || s = "quit"

/-- Reads and runs at most `turns` lines, on top of the lines in `buffer`. -/
def converse (fuel : Nat) : Nat → List Char → Console → Option Console
  | 0, _, c => some c
  | turns + 1, buffer, c =>
    match c.nextLine with
    | none => some c
    | some (line, c) =>
      if buffer.isEmpty && isFarewell line then some c
      else if buffer.isEmpty && (Text.trim line).isEmpty then converse fuel turns [] c
      else
        let buffer := buffer ++ line ++ ['\n']
        if openBraces buffer > 0 then converse fuel turns buffer c
        else match runUnit fuel buffer .interactive c with
          | none => none
          | some (_, c) => converse fuel turns [] c

/-- Reads and runs lines to the end of the stream or to a farewell. -/
def interact (fuel : Nat) (stdin : List Char) (c : Console) : Option Console :=
  let ls := rawLines stdin
  converse fuel (ls.length + 1) [] { c with feed := .stream (ls.map String.ofList) }

end Radix
