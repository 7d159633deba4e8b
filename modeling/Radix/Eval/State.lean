import Radix.Console
import Radix.Function
import Radix.Table

/-!
# Eval/State — what an evaluation works on

The frame holds the variables and functions in sight, how deep calls are nested, and the source unit
that is running.  A call works on a copy of its caller's frame, which is dropped when the call ends;
the console is shared by all.
-/

namespace Radix

/-- The names in sight of an evaluation. -/
structure Frame where
  vars : Table Value
  functions : Table Function
  depth : Nat
  source : SourceUnit

/-- The state of an evaluation. -/
structure State where
  frame : Frame
  console : Console

namespace Frame

/-- The frame in which a source unit starts: no variables, and the native functions. -/
def initial (source : SourceUnit) : Frame where
  vars := ∅
  functions := Table.ofList (Native.all.map fun n => (n.name, n.toFunction))
  depth := 0
  source := source

/-- The frame with a variable bound. -/
def bind (f : Frame) (name : String) (value : Value) : Frame :=
  { f with vars := f.vars.insert name value }

/-- The frame with a function declared under its name. -/
def declare (f : Frame) (fn : Function) : Frame :=
  { f with functions := f.functions.insert fn.name fn }

/-- The frame without the variable and the function of the name. -/
def unbind (f : Frame) (name : String) : Frame :=
  { f with vars := f.vars.erase name, functions := f.functions.erase name }

/-- The frame in which a function's body runs: one call deeper, with the parameters bound in
order. -/
def enter (f : Frame) (params : List String) (values : List Value) : Frame :=
  (params.zip values).foldl (fun f p => f.bind p.1 p.2) { f with depth := f.depth + 1 }

/-- At the start only the native functions are in sight. -/
theorem native_of_get?_initial {source : SourceUnit} {name : String} {f : Function}
    (h : (initial source).functions.get? name = some f) :
    ∃ n : Native, name = n.name ∧ f = n.toFunction := by
  obtain ⟨n, -, hn⟩ := List.mem_map.mp (Table.mem_of_get?_ofList h)
  exact ⟨n, (Prod.mk.inj hn).1.symm, (Prod.mk.inj hn).2.symm⟩

/-- At the start no program is in sight. -/
theorem body_of_get?_initial {source : SourceUnit} {name : String} {f : Function} {es : Program}
    (h : (initial source).functions.get? name = some f) : f.body ≠ .program es := by
  obtain ⟨n, -, rfl⟩ := native_of_get?_initial h
  exact nofun

/-- A function in sight after a declaration is the declared one, or was there before. -/
theorem eq_or_get?_of_declare {f : Frame} {fn g : Function} {name : String}
    (h : (f.declare fn).functions.get? name = some g) :
    g = fn ∨ f.functions.get? name = some g := by
  rw [declare, Table.get?_insert] at h
  split at h
  · exact .inl (Option.some.inj h).symm
  · exact .inr h

end Frame

namespace State

/-- Reports a failure at an offset of the running source. -/
def report (s : State) (e : RunError) (offset : Nat) : State :=
  let unit := s.frame.source
  let diagnostic := .placed unit.text offset e.kind.label e.message unit.filename
  { s with console := s.console.report diagnostic }

end State

end Radix
