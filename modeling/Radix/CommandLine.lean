import Radix.Interactive

/-!
# CommandLine — options, exit codes and what is written where

The command line names a file to run, or gives the source itself, or starts an interactive session.
`parse` understands the arguments and `execute` does what they ask for; both are pure, so the outer
layer only gathers what the program can see and writes what it answers.
-/

namespace Radix.CommandLine

/-! ## Arguments -/

/-- What the arguments ask for. -/
structure Invocation where
  file : Option String := none
  eval : Option String := none
  printResult : Bool := false
  noColor : Bool := false
  noBanner : Bool := false
  deriving Repr, DecidableEq

/-- Why the arguments lead to no run. -/
inductive Stop where
  | help
  | version
  /-- The arguments are not understood. -/
  | misuse
  deriving Repr, DecidableEq

namespace Invocation

/-- Sets the file, once. -/
def setFile (i : Invocation) (path : String) : Except Stop Invocation :=
  if i.file.isSome || path.isEmpty then .error .misuse else .ok { i with file := some path }

/-- Sets the source, once. -/
def setEval (i : Invocation) (source : String) : Except Stop Invocation :=
  if i.eval.isSome then .error .misuse else .ok { i with eval := some source }

/-- Asks for the result, once. -/
def setPrintResult (i : Invocation) : Except Stop Invocation :=
  if i.printResult then .error .misuse else .ok { i with printResult := true }

/-- Asks for no color, once. -/
def setNoColor (i : Invocation) : Except Stop Invocation :=
  if i.noColor then .error .misuse else .ok { i with noColor := true }

/-- Asks for no banner, once. -/
def setNoBanner (i : Invocation) : Except Stop Invocation :=
  if i.noBanner then .error .misuse else .ok { i with noBanner := true }

end Invocation

/-- What an argument leaves to be done. -/
inductive Progress where
  | ready (i : Invocation)
  /-- The next argument is the source. -/
  | wantsSource (i : Invocation)

/-- The name of a long option, and the value written behind it. -/
def splitValue (cs : List Char) : String × Option String :=
  let name := cs.takeWhile (· ≠ '=')
  (String.ofList name,
    if name.length < cs.length then some (String.ofList (cs.drop (name.length + 1))) else none)

/-- A long option, without its dashes. -/
def long (i : Invocation) (cs : List Char) : Except Stop Progress :=
  match splitValue cs with
  | ("eval", some source) => .ready <$> i.setEval source
  | ("eval", none) => .ok (.wantsSource i)
  | ("print-result", none) => .ready <$> i.setPrintResult
  | ("no-color", none) => .ready <$> i.setNoColor
  | ("no-banner", none) => .ready <$> i.setNoBanner
  | ("help", none) => .error .help
  | ("version", none) => .error .version
  | _ => .error .misuse

/-- A cluster of short options, without its dash. -/
def short (i : Invocation) : List Char → Except Stop Progress
  | [] => .ok (.ready i)
  | 'p' :: cs => do
    let i ← i.setPrintResult
    short i cs
  | ['e'] => .ok (.wantsSource i)
  | 'e' :: '=' :: cs => .ready <$> i.setEval (String.ofList cs)
  | 'e' :: cs => .ready <$> i.setEval (String.ofList cs)
  | 'h' :: _ => .error .help
  | 'V' :: _ => .error .version
  | _ => .error .misuse

/-- Does the argument look like an option? -/
def isOption (arg : String) : Bool :=
  match arg.toList with
  | '-' :: _ :: _ => true
  | _ => false

/-- Understands the arguments after a `--`: none of them is an option. -/
def operands (i : Invocation) : List String → Except Stop Invocation
  | [] => .ok i
  | arg :: args => do
    let i ← i.setFile arg
    operands i args

/-- Understands one argument, which is no source and no `--`. -/
def argument (i : Invocation) (arg : String) : Except Stop Progress :=
  match arg.toList with
  | '-' :: '-' :: cs => long i cs
  | '-' :: c :: cs => short i (c :: cs)
  | _ => .ready <$> i.setFile arg

/-- Understands arguments from left to right, where `waiting` says that a source must come next. -/
def arguments (i : Invocation) (waiting : Bool) : List String → Except Stop Invocation
  | [] => if waiting then .error .misuse else .ok i
  | arg :: args =>
    if waiting then
      if isOption arg then .error .misuse
      else do
        let i ← i.setEval arg
        arguments i false args
    else if arg = "--" then operands i args
    else do
      match ← argument i arg with
      | .ready i => arguments i false args
      | .wantsSource i => arguments i true args

/-- Understands a whole command line; a source and a file exclude each other. -/
def parse (args : List String) : Except Stop Invocation := do
  let i ← arguments {} false args
  if i.eval.isSome && i.file.isSome then throw .misuse
  return i

/-! ## Answers -/

/-- What a run answers: the exit code, both texts, and the seconds it waited. -/
structure Response where
  code : Nat
  stdout : String := ""
  stderr : String := ""
  waited : Nat := 0
  deriving Repr, DecidableEq

/-- What a run can see around it. -/
structure Surroundings where
  /-- The contents of a readable file. -/
  contents : String → Option (List Char)
  stdin : List Char
  /-- When the program started, as the banner shows it. -/
  started : String
  color : Bool

/-- The name and version that the program shows. -/
def programName : String := "mbase 0.1.0"

/-- What an interactive session starts with. -/
def banner (started : String) : String :=
  programName ++ " (started " ++ started ++ ")\nType 'exit' or 'quit' to leave.\n"

/-- What explains the command line. -/
def usage : String :=
  "\n".intercalate
    ["mbase is a small scripting language whose numbers are integers written in any base " ++
       "from 2 to 64",
     "",
     "Usage: mbase [OPTIONS] [FILE]",
     "",
     "Arguments:",
     "  [FILE]  Program file to run. Starts the REPL when neither a file nor `--eval` is given",
     "",
     "Options:",
     "  -e, --eval <EVAL>   Runs the given source instead of a file",
     "  -p, --print-result  Prints the last top-level value that is not unit",
     "      --no-color      Disables colored diagnostics",
     "      --no-banner     Starts the REPL without the banner",
     "  -h, --help          Print help",
     "  -V, --version       Print version",
     ""]

/-- What is written when the arguments are not understood. -/
def misuseNote : String := "error: invalid arguments\n\nFor more information, try '--help'.\n"

/-- The answer to arguments that lead to no run. -/
def Stop.response : Stop → Response
  | .help => { code := 0, stdout := usage }
  | .version => { code := 0, stdout := programName ++ "\n" }
  | .misuse => { code := 2, stderr := misuseNote }

/-- The console of a run that has written nothing yet. -/
def Surroundings.console (around : Surroundings) : Console :=
  { feed := .stream ((rawLines around.stdin).map String.ofList) }

/-- The diagnostics of a console as they are written, each on lines of its own. -/
def reports (color : Bool) (c : Console) : String :=
  String.join (c.diagnostics.map fun d => d.render color ++ "\n")

/-- Runs a source to its end, and shows its result if that is asked for. -/
def batch (fuel : Nat) (printResult : Bool) (source : List Char) (options : Options)
    (around : Surroundings) : Option Response :=
  match runUnit fuel source options around.console with
  | none => none
  | some (outcome, c) =>
    let shown := match outcome with
      | .ok (some v) => if printResult then v.toText ++ "\n" else ""
      | _ => ""
    some {
      code := if outcome matches .ok _ then 0 else 1
      stdout := c.output ++ shown
      stderr := reports around.color c
      waited := c.waited }

/-- Does what the arguments ask for.  There is no answer if fuel runs out. -/
def execute (fuel : Nat) (i : Invocation) (around : Surroundings) : Option Response :=
  match i.eval, i.file with
  | some source, _ => batch fuel i.printResult source.toList .inline around
  | none, some path =>
    match around.contents path with
    | none => some {
        code := 1
        stderr := s!"Failed to read the input file '{path}'. Perhaps this file does not exist?\n" }
    | some source => batch fuel i.printResult source (.file path) around
  | none, none =>
    let start := if i.noBanner then "" else banner around.started
    match interact fuel around.stdin { around.console with output := start } with
    | none => none
    | some c => some {
        code := 0
        stdout := c.output
        stderr := reports around.color c
        waited := c.waited }

/-- Runs a command line. -/
def run (fuel : Nat) (args : List String) (around : Surroundings) : Option Response :=
  match parse args with
  | .error stop => some stop.response
  | .ok i => execute fuel i around

/-- The text of a file, if its bytes are one. -/
def decodeFile (bytes : ByteArray) : Option (List Char) :=
  (String.fromUTF8? bytes).map String.toList

end Radix.CommandLine
