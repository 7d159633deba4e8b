import Radix.Eval.Run

/-!
# Eval/Control — who catches which exit

Exits pass through every construct except these.  An operator with an offset reports a failure and
goes on with unit, unless calls are nested too deep.  A labelled conditional ends at a break to its
label.  A loop goes on at a continue, and ends at a break, if that has no label or its own.  A call
turns a return into its result.  What each of them makes of the way its part ends is a function on
outcomes; a part that is out of fuel leaves the construct out of fuel.
-/

namespace Radix

/-- Is a jump to `target` for the loop with the given label? -/
def isFor (label target : Option String) : Bool := target = none || target = label

namespace Outcome

/-- What an operator makes of a failure: it is reported, at its own offset or at the operator's, and
unit takes the place of the result.  An operator without an offset, and nesting that is too deep,
let the failure pass. -/
def recover (offset : Option Nat) : Outcome Value → Outcome Value
  | .exit (.failed e) s =>
    match offset with
    | some offset =>
      if e.isDepthExceeded then .exit (.failed e) s
      else .done .unit (s.report e (e.offset.getD offset))
    | none => .exit (.failed e) s
  | outcome => outcome

/-- What the conditional with the given label makes of the end of its branch. -/
def branch (label : Option String) : Outcome Unit → Outcome Value
  | .done () s => .done .unit s
  | .exit (.breakTo (some target)) s =>
    if label = some target then .done .unit s else .exit (.breakTo (some target)) s
  | .exit e s => .exit e s
  | .outOfFuel => .outOfFuel

/-- What the loop with the given label makes of the end of its body: whether it goes on. -/
def pass (label : Option String) : Outcome Unit → Outcome Bool
  | .done () s => .done true s
  | .exit (.continueTo target) s =>
    if isFor label target then .done true s else .exit (.continueTo target) s
  | .exit (.breakTo target) s =>
    if isFor label target then .done false s else .exit (.breakTo target) s
  | .exit e s => .exit e s
  | .outOfFuel => .outOfFuel

/-- What a call makes of the end of the function's body: the caller goes on in its own frame, with
the console as the body left it. -/
def returnTo (caller : Frame) : Outcome Unit → Outcome Value
  | .done () s => .done .unit { s with frame := caller }
  | .exit (.ret v) s => .done v { s with frame := caller }
  | .exit e s => .exit e { s with frame := caller }
  | .outOfFuel => .outOfFuel

/-- How a statement ends that stands in no construct: a return gives its value, and any other jump
is a failure. -/
def outermost : Outcome Value → Option (Except RunError Value × State)
  | .done v s => some (.ok v, s)
  | .exit (.ret v) s => some (.ok v, s)
  | .exit (.failed e) s => some (.error e, s)
  | .exit (.breakTo label) s => some (.error (.unmatchedJump .breakTo label), s)
  | .exit (.continueTo label) s => some (.error (.unmatchedJump .continueTo label), s)
  | .outOfFuel => none

end Outcome

namespace Run

/-- Evaluates an operator that stands at an offset. -/
def recover (offset : Option Nat) (x : Run Value) : Run Value := fun s => (x s).recover offset

/-- Runs a branch of the conditional with the given label. -/
def branch (label : Option String) (x : Run Unit) : Run Value := fun s => (x s).branch label

/-- Runs the body of the loop with the given label once, and says whether it goes on. -/
def pass (label : Option String) (x : Run Unit) : Run Bool := fun s => (x s).pass label

/-- Runs the body of a function in the frame `inner`. -/
def within (inner : Frame) (x : Run Unit) : Run Value := fun s =>
  (x { s with frame := inner }).returnTo s.frame

/-- Repeats a computation as long as it says to go on, as often as there is fuel. -/
def iterate (x : Run Bool) : Nat → Run Value
  | 0 => starve
  | n + 1 => fun s =>
    match x s with
    | .done true s => iterate x n s
    | .done false s => .done .unit s
    | .exit e s => .exit e s
    | .outOfFuel => .outOfFuel

end Run

end Radix
