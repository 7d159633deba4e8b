import Radix.Eval.State
import Radix.Operation

/-!
# Eval/Native — what the native functions do

A native function sees the names in its caller's frame and may use the console; it never changes the
frame.  Each one checks its own arguments, so that it can be run on any values.
-/

namespace Radix.Native

/-- The text at an index of the arguments. -/
def textArg (args : List Value) (i : Nat) : Except RunError String :=
  match args[i]? with
  | some (.text s) => .ok s
  | found => .error (.nativeArgument .text (found.map Value.kind))

/-- The numeral at an index of the arguments. -/
def numeralArg (args : List Value) (i : Nat) : Except RunError Numeral :=
  match args[i]? with
  | some (.numeral x) => .ok x
  | found => .error (.nativeArgument .anyBase (found.map Value.kind))

/-- The number of characters of a text. -/
def lengthOf (args : List Value) : Except RunError Value := do
  let s ← textArg args 0
  ofNumeral ((Numeral.ofNat 10 s.length).map .numeral)

/-- A numeral as a text. -/
def spelled (args : List Value) : Except RunError Value := do
  let x ← numeralArg args 0
  return .text (toString x)

/-- The decimal numeral written in a text, blanks around it apart. -/
def numberOf (args : List Value) : Except RunError Value := do
  let s ← textArg args 0
  ofNumeral ((Numeral.ofDigits 10 (Text.trim s.toList)).map .numeral)

/-- The square root of a numeral, rounded down, in its base. -/
def rootOf (args : List Value) : Except RunError Value := do
  let x ← numeralArg args 0
  ofNumeral (x.sqrt.map .numeral)

/-- A numeral in another base. -/
def rebased (args : List Value) : Except RunError Value := do
  let x ← numeralArg args 0
  let y ← numeralArg args 1
  ofNumeral do
    let n ← y.toNat
    let base ← checkBase n
    let z ← x.rebase base
    return .numeral z

/-- The seconds to wait. -/
def secondsOf (args : List Value) : Except RunError Nat := do
  let x ← numeralArg args 0
  ofNumeral do
    let n ← x.toNat
    checkWord n

/-- The functions of a table in the order of their names. -/
def sorted (functions : Table Function) : List Function :=
  functions.values.mergeSort fun f g => f.name ≤ g.name

/-- The line that lists the functions of a table. -/
def listing (functions : Table Function) : String :=
  "Available functions: " ++ ", ".intercalate ((sorted functions).map Function.signature) ++ "\n"

/-- Writes a text; there is no other result. -/
def writing (s : String) (c : Console) : Except RunError Value × Console :=
  match c.write s with
  | (.ok (), c) => (.ok .unit, c)
  | (.error e, c) => (.error (.console e), c)

/-- Runs a native function on its arguments. -/
def run (n : Native) (args : List Value) (f : Frame) (c : Console) :
    Except RunError Value × Console :=
  match n with
  | .out =>
    match textArg args 0 with
    | .ok s => writing s c
    | .error e => (.error e, c)
  | .input =>
    match c.readLine with
    | (.ok s, c) => (.ok (.text s), c)
    | (.error e, c) => (.error (.console e), c)
  | .len => (lengthOf args, c)
  | .str => (spelled args, c)
  | .number => (numberOf args, c)
  | .sqrt => (rootOf args, c)
  | .rebase => (rebased args, c)
  | .funcs => writing (listing f.functions) c
  | .wait =>
    match secondsOf args with
    | .ok n => (.ok .unit, c.wait n)
    | .error e => (.error e, c)

end Radix.Native
