import Radix.Proofs.Eval.Failure
import Radix.Proofs.Eval.Visit

/-!
# Proofs/Placement — well-placed jumps find their construct

A jump is well placed when a construct that it can be for stands around it.  What stands around an
expression is a list of constructs: a body or a branch adds its own, a condition does not, a
function starts from nothing, and the expressions in a text stand where the text stands.

Jumps are exits like any other, so the argument is what an evaluation keeps (`placement_lawful`):
an exit from an expression is a jump for something around it, hence none leaves a function's body or
a statement that stands alone.
-/

namespace Radix

/-- A construct that a jump can be for. -/
inductive Construct where
  | branch (label : Option String)
  | loop (label : Option String)
  deriving Repr, DecidableEq

/-- Is one of the constructs around for the jump?  Jumps without a label need a loop, a labelled
continue a loop with its label, and a labelled break a loop or a conditional with its label. -/
def Admits (around : List Construct) : Jump → Option String → Prop
  | _, none => ∃ label, .loop label ∈ around
  | .continueTo, some target => .loop (some target) ∈ around
  | .breakTo, some target => .loop (some target) ∈ around ∨ .branch (some target) ∈ around

/-- Every jump of the expression has a construct that it is for, in the expression or around it. -/
inductive Expr.WellPlaced : List Construct → Expr → Prop
  | numeral {around x} : WellPlaced around (.numeral x)
  | text {around quoted offset} :
    (∀ ps e, Template.parts quoted offset = .ok ps → Template.Part.expr e ∈ ps →
      WellPlaced around e) → WellPlaced around (.text quoted offset)
  | var {around name} : WellPlaced around (.var name)
  | assign {around name e} : WellPlaced around e → WellPlaced around (.assign name e)
  | binary {around op l r offset} : WellPlaced around l → WellPlaced around r →
    WellPlaced around (.binary op l r offset)
  | call {around name args offset} : (∀ e ∈ args, WellPlaced around e) →
    WellPlaced around (.call name args offset)
  | ret {around e offset} : WellPlaced around e → WellPlaced around (.ret e offset)
  | branch {around label e yes no} : WellPlaced around e →
    (∀ x ∈ yes, WellPlaced (.branch label :: around) x) →
    (∀ x ∈ no.getD [], WellPlaced (.branch label :: around) x) →
    WellPlaced around (.branch label e yes no)
  | whileLoop {around label e body} : WellPlaced around e →
    (∀ x ∈ body, WellPlaced (.loop label :: around) x) →
    WellPlaced around (.whileLoop label e body)
  | loop {around label body} : (∀ x ∈ body, WellPlaced (.loop label :: around) x) →
    WellPlaced around (.loop label body)
  | breakTo {around label} : Admits around .breakTo label → WellPlaced around (.breakTo label)
  | continueTo {around label} : Admits around .continueTo label →
    WellPlaced around (.continueTo label)
  | function {around name params returns body} : (∀ e ∈ body, WellPlaced [] e) →
    WellPlaced around (.function name params returns body)

/-- The bodies of the declared functions in sight are well placed, each taken alone. -/
def Frame.WellPlaced (f : Frame) : Prop :=
  ∀ name fn body, f.functions.get? name = some fn → fn.body = .program body →
    ∀ e ∈ body, e.WellPlaced []

/-! ## Leaving a construct -/

theorem admits_of_branch {around : List Construct} {label target : Option String} {j : Jump}
    (h : Admits (.branch label :: around) j target)
    (hj : j = .breakTo → target.isSome → label ≠ target) : Admits around j target := by
  match j, target with
  | .breakTo, none => simpa [Admits] using h
  | .continueTo, none => simpa [Admits] using h
  | .continueTo, some t => simpa [Admits] using h
  | .breakTo, some t =>
    have hl : label ≠ some t := hj rfl rfl
    simpa [Admits, hl.symm] using h

theorem admits_of_loop {around : List Construct} {label target : Option String} {j : Jump}
    (h : Admits (.loop label :: around) j target) (hf : isFor label target = false) :
    Admits around j target := by
  obtain ⟨t, rfl, hl⟩ : ∃ t, target = some t ∧ label ≠ some t := by
    match target with
    | none => simp [isFor] at hf
    | some t => exact ⟨t, rfl, fun hl => by simp [isFor, hl] at hf⟩
  match j with
  | .breakTo => simpa [Admits, hl.symm] using h
  | .continueTo => simpa [Admits, hl.symm] using h

theorem not_admits_nil {j : Jump} {target : Option String} : ¬ Admits [] j target := by
  match j, target with
  | .breakTo, none | .continueTo, none | .breakTo, some _ | .continueTo, some _ => simp [Admits]

theorem Frame.WellPlaced.declare {f : Frame} (hf : f.WellPlaced) {fn : Function}
    (h : ∀ body, fn.body = .program body → ∀ e ∈ body, e.WellPlaced []) :
    (f.declare fn).WellPlaced := by
  intro name g body hg hb
  rcases Frame.eq_or_get?_of_declare hg with rfl | hg
  · exact h body hb
  · exact hf name g body hg hb

theorem Frame.initial_wellPlaced (source : SourceUnit) : (Frame.initial source).WellPlaced := by
  intro name fn body hf hb
  exact absurd hb (Frame.body_of_get?_initial hf)

/-! ## The discipline of jumps -/

/-- Expressions are well placed in what stands around them, and no failure is an unmatched jump. -/
def placement : Discipline (List Construct) where
  top := []
  inBranch around label := .branch label :: around
  inLoop around label := .loop label :: around
  expr around e := e.WellPlaced around
  value _ := True
  state s := s.frame.WellPlaced
  failure e := ∀ jump label, e ≠ .unmatchedJump jump label
  jump := Admits

theorem placement_lawful : placement.Lawful where
  text | .text h, hp, hm => h _ _ hp hm
  assign | .assign h => h
  binary | .binary hl hr => ⟨hl, hr⟩
  call | .call h => h
  ret | .ret h => h
  branch | .branch hc hy hn => ⟨hc, hy, hn⟩
  whileLoop | .whileLoop hc hb => ⟨hc, hb⟩
  loop | .loop hb => hb
  body hs hf hb := hs _ _ _ hf hb
  bind hs _ := hs
  deeper hs := hs
  leave hs _ := hs
  declare
    | .function hb, _, hs => hs.declare fun body he => by
      obtain rfl := Body.program.inj he
      exact hb
  console hs _ _ := hs
  report _ _ hs := hs
  unread _ _ := by simp [placement]
  unknownVariable := by simp [placement]
  refused _ _ h := by
    rcases Operator.apply_error h with ⟨cause, rfl⟩ | rfl <;> simp [placement]
  untrue _ _ := by simp [placement]
  unknownFunction _ := by simp [placement]
  arguments _ h := by
    rcases Eval.checkArguments_error h with rfl | ⟨i, tag, kind, rfl⟩ <;> simp [placement]
  tooDeep _ := by simp [placement]
  nativeFailure _ _ h := by
    rcases Native.failure_of_run h with _ | _ | _ <;> simp [placement]
  unknownTag h := by
    obtain ⟨word, rfl⟩ := Eval.paramTags_error h
    simp [placement]
  breakTo | .breakTo h => h
  continueTo | .continueTo h => h
  leaveBranch := admits_of_branch
  leaveLoop := admits_of_loop
  leaveCall h := absurd h not_admits_nil

/-- A body that is well placed alone ends in no jump. -/
theorem runBlock_ne_jump {n : Nat} {body : List Expr} {s : State} (hs : s.frame.WellPlaced)
    (hb : ∀ e ∈ body, e.WellPlaced []) (label : Option String) (t : State) :
    runBlock n body s ≠ .exit (.breakTo label) t ∧
      runBlock n body s ≠ .exit (.continueTo label) t := by
  have hm : (runBlock n body s).Meets (fun _ t => placement.state t) (placement.Leaves []) :=
    Discipline.block_keeps (Discipline.eval_keeps placement_lawful n) hb hs
  constructor
  · intro h
    rw [h] at hm
    exact not_admits_nil hm.1
  · intro h
    rw [h] at hm
    exact not_admits_nil hm.1

/-- **Well-placed jumps find their construct.**  If the functions in sight and a statement are well
placed and the statement ends, then no jump is left unmatched, no function that is called on the way
hands a jump to its caller, and the functions then in sight are well placed. -/
theorem jumps_find_their_construct {fuel : Nat} {e : Expr} {s t : State}
    {r : Except RunError Value} (hs : s.frame.WellPlaced) (he : e.WellPlaced [])
    (h : runStatement fuel e s = some (r, t)) :
    (∀ jump label, r ≠ .error (.unmatchedJump jump label)) ∧
    (∀ m name args offset u body w, e.Visits fuel s (m + 1) (.call name args offset) u →
      Eval.Enters (Expr.eval m) name args offset u body w → ∀ label x,
        runBlock m body w ≠ .exit (.breakTo label) x ∧
          runBlock m body w ≠ .exit (.continueTo label) x) ∧
    t.frame.WellPlaced := by
  have calls : ∀ m name args offset u body w,
      e.Visits fuel s (m + 1) (.call name args offset) u →
      Eval.Enters (Expr.eval m) name args offset u body w → ∀ label x,
        runBlock m body w ≠ .exit (.breakTo label) x ∧
          runBlock m body w ≠ .exit (.continueTo label) x := by
    intro m name args offset u body w hv hn label x
    obtain ⟨around, hc, hu⟩ := Discipline.visits_keep placement_lawful hv he hs
    obtain ⟨hb, hw⟩ := Discipline.enters_keep placement_lawful
      (Discipline.eval_keeps placement_lawful m) hn hc hu
    exact runBlock_ne_jump hw hb label x
  obtain ⟨ht, -, failures⟩ := Discipline.runStatement_keeps placement_lawful he hs h
  refine ⟨fun jump label hr => ?_, calls, ht⟩
  rcases failures _ hr with hf | ⟨_, _, -, hj⟩
  · exact hf jump label rfl
  · exact not_admits_nil hj

/-! ## A jump of every kind -/

/-- A function that leaves two loops by one break. -/
def leaveBoth : Function where
  name := "leave"
  params := []
  returns := none
  body := .program [.loop (some "outer") [.loop none [.breakTo (some "outer")]]]

/-- A state in which the function is declared. -/
def declaredState : State where
  frame := (Frame.initial ⟨[], "", ""⟩).declare leaveBoth
  console := { feed := .script [] }

/-- A loop whose body calls the function, breaks out of a conditional by its label, and ends the
loop by a break that stands inside a text. -/
def jumpingLoop : Expr :=
  .whileLoop (some "turns") (.numeral ⟨10, ['1']⟩)
    [.call "leave" [] 0,
     .branch (some "skip") (.numeral ⟨10, ['1']⟩) [.breakTo (some "skip")] none,
     .text (.plain ['\x7b', 'b', 'r', 'e', 'a', 'k', '\x7d']) 0]

theorem declaredState_wellPlaced : declaredState.frame.WellPlaced := by
  refine (Frame.initial_wellPlaced _).declare fun body hb => ?_
  obtain rfl := Body.program.inj hb
  simp only [List.mem_singleton, forall_eq]
  refine .loop fun x hx => ?_
  obtain rfl := List.mem_singleton.mp hx
  refine .loop fun x hx => ?_
  obtain rfl := List.mem_singleton.mp hx
  exact .breakTo (.inl (by simp))

theorem jumpingLoop_wellPlaced : jumpingLoop.WellPlaced [] := by
  refine .whileLoop .numeral fun x hx => ?_
  simp only [List.mem_cons, List.not_mem_nil, or_false] at hx
  rcases hx with rfl | rfl | rfl
  · exact .call (by simp)
  · refine .branch .numeral (fun x hx => ?_) (by simp)
    obtain rfl := List.mem_singleton.mp hx
    exact .breakTo (.inr (by simp))
  · refine .text fun ps e hp hm => ?_
    have hq : Template.parts (.plain ['\x7b', 'b', 'r', 'e', 'a', 'k', '\x7d']) 0
        = .ok [.expr (.breakTo none)] := by with_unfolding_all rfl
    obtain rfl := Except.ok.inj (hq.symm.trans hp)
    obtain rfl := Template.Part.expr.inj (List.mem_singleton.mp hm)
    exact .breakTo ⟨some "turns", by simp⟩

theorem jumpingLoop_finds_its_constructs :
    declaredState.frame.WellPlaced ∧ jumpingLoop.WellPlaced [] ∧
    runStatement 9 jumpingLoop declaredState = some (.ok .unit, declaredState) ∧
    (∀ m name args offset u body w,
      jumpingLoop.Visits 9 declaredState (m + 1) (.call name args offset) u →
      Eval.Enters (Expr.eval m) name args offset u body w → ∀ label x,
        runBlock m body w ≠ .exit (.breakTo label) x ∧
          runBlock m body w ≠ .exit (.continueTo label) x) := by
  have ends : runStatement 9 jumpingLoop declaredState = some (.ok .unit, declaredState) := by
    with_unfolding_all rfl
  exact ⟨declaredState_wellPlaced, jumpingLoop_wellPlaced, ends,
    (jumps_find_their_construct declaredState_wellPlaced jumpingLoop_wellPlaced ends).2.1⟩

end Radix
