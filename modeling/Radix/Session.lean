import Radix.Eval.Basic

/-!
# Session — running a source

A source is read whole and then run statement by statement in a fresh frame.  The first fault or
failure ends the run and is reported; in interactive use the value of every statement is echoed.
The result is the last value other than unit.
-/

namespace Radix

/-- How a source is run. -/
structure Options where
  /-- The name that operators report. -/
  filename : String
  /-- The name that aborting failures report. -/
  origin : String
  /-- Are the values of statements written? -/
  echo : Bool
  deriving Repr, DecidableEq

namespace Options

/-- A source without a file. -/
def inline : Options := { filename := "<input>", origin := "<input>", echo := false }

/-- A source typed in interactive use. -/
def interactive : Options := { filename := "<input>", origin := "<repl>", echo := true }

/-- The contents of a file. -/
def file (name : String) : Options := { filename := name, origin := name, echo := false }

end Options

/-- Fuel for programs in use: more than a machine can burn. -/
def ampleFuel : Nat := 4611686018427387904

/-- Why a run ends early. -/
inductive Failure where
  | read (e : ReadError)
  | run (e : RunError)
  /-- The echo of a value could not be written. -/
  | echo (e : ConsoleError)
  deriving Repr, DecidableEq

/-- Reads a source. -/
def Program.ofSource (source : List Char) : Except ReadError Program := do
  let tokens ← tokenize source
  Read.program tokens

/-- What is echoed after a statement: a line end after a call of `out`, and the value, if it is not
unit, after any other. -/
def echo? (e : Expr) (v : Value) : Option String :=
  match e, v with
  | .call name _ _, v =>
    if name = "out" then some "\n"
    else if v = .unit then none
    else some (v.toText ++ "\n")
  | _, v => if v = .unit then none else some (v.toText ++ "\n")

/-- Writes the echo of a statement, if there is one to be written. -/
def writeEcho (options : Options) (e : Expr) (v : Value) (c : Console) :
    Except ConsoleError Unit × Console :=
  match (if options.echo then echo? e v else none) with
  | some s => c.write s
  | none => (.ok (), c)

/-- Runs statements in order, on top of the result so far. -/
def runStatements (fuel : Nat) (options : Options) :
    List Expr → Option Value → State → Option (Except Failure (Option Value) × Console)
  | [], result, s => some (.ok result, s.console)
  | e :: es, result, s =>
    match runStatement fuel e s with
    | none => none
    | some (.error failure, s) =>
      let diagnostic := .ofFailure s.frame.source.text failure.offset failure.kind failure.message
        options.origin
      some (.error (.run failure), s.console.report diagnostic)
    | some (.ok v, s) =>
      match writeEcho options e v s.console with
      | (.error failure, console) => some (.error (.echo failure), console)
      | (.ok (), console) =>
        runStatements fuel options es (if v = .unit then result else some v) { s with console }

/-- Runs a source on a console.  There is no result if fuel runs out. -/
def runUnit (fuel : Nat) (source : List Char) (options : Options) (console : Console) :
    Option (Except Failure (Option Value) × Console) :=
  match Program.ofSource source with
  | .error fault =>
    let diagnostic := .placed source fault.offset fault.kind.label fault.message options.origin
    some (.error (.read fault), console.report diagnostic)
  | .ok program =>
    let unit := { text := source, filename := options.filename, origin := options.origin }
    runStatements fuel options program none { frame := .initial unit, console }

end Radix
