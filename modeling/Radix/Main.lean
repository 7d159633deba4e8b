import Radix.CommandLine
import Std.Time

/-!
# Main — the command line program

Gathers what the program can see, runs it, and writes its answer.
-/

namespace Radix

/-- Reads a stream to its end; bytes that are no text count as nothing. -/
def readStdin : IO (List Char) := do
  let stream ← IO.getStdin
  try
    let text ← stream.readToEnd
    return text.toList
  catch _ => return []

/-- The text of a file, if it can be read and is one. -/
def readText (path : String) : IO (Option (List Char)) := do
  try
    let bytes ← IO.FS.readBinFile path
    return CommandLine.decodeFile bytes
  catch _ => return none

/-- Is color wanted, as far as the terminal is concerned? -/
def terminalColor : IO Bool := do
  let stdout ← IO.getStdout
  let terminal ← stdout.isTty
  let kind ← IO.getEnv "TERM"
  return terminal && kind != some "dumb"

/-- Writes an answer, and waits as long as the run asked for. -/
def answer (response : CommandLine.Response) : IO UInt32 := do
  IO.print response.stdout
  (← IO.getStdout).flush
  IO.eprint response.stderr
  for _ in [0:response.waited] do
    IO.sleep 1000
  return response.code.toUInt32

/-- Runs the command line program. -/
def runMain (args : List String) : IO UInt32 := do
  match CommandLine.parse args with
  | .error stop => answer stop.response
  | .ok invocation =>
    let now ← Std.Time.PlainDateTime.now
    let color ← terminalColor
    let source ← match invocation.file with
      | some path => readText path
      | none => pure none
    let stdin ← readStdin
    let around : CommandLine.Surroundings := {
      contents := fun _ => source
      stdin
      started := now.format "uuuu-MM-dd HH:mm:ss"
      color := color && !invocation.noColor }
    match CommandLine.execute ampleFuel invocation around with
    | some response => answer response
    | none => return 1

end Radix

def main (args : List String) : IO UInt32 := Radix.runMain args
