import Radix.Proofs.DepthLimit
import Radix.Proofs.Lines
import Radix.Proofs.Scope

/-!
# Proofs/CallDepth — how deep calls are nested does not matter until it is too deep

The depth of a frame is looked at in two places: a `ret` asks whether there is a call at all, and a
call whether there are too many.  So two evaluations that start at different depths, neither of them
outside of any call, stay together until the deeper one is stopped (`Lockstep.shallower`), and if it
never is, they do the same.
-/

namespace Radix

/-! ## What is exactly alike is the same -/

theorem Likeness.exact_eq_shifting : Likeness.exact = .shifting 0 := by
  simp [exact, shifting, eq_comm]

theorem Expr.Alike.eq {e e' : Expr} (h : e.Alike .exact e') : e = e' := by
  have self := e.alike_exact
  rw [Likeness.exact_eq_shifting] at h self
  exact self.shift_eq.trans h.shift_eq.symm

theorem Function.Alike.eq {f f' : Function} (h : f.Alike .exact f') : f = f' := by
  obtain ⟨name, params, returns, body⟩ := f
  obtain ⟨name', params', returns', body'⟩ := f'
  obtain ⟨rfl, rfl, rfl, hb⟩ := h
  cases hb with
  | native n => rfl
  | program hes =>
    have same := hes.imp fun _ _ => Expr.Alike.eq
    rw [List.forall₂_eq_eq_eq] at same
    rw [same]

theorem Table.Alike.eq {t t' : Table Function} (h : t.Alike (Function.Alike .exact) t') :
    t = t' := by
  have same : List.Forall₂ (· = ·) t.entries t'.entries :=
    h.imp fun _ _ hp => Prod.ext hp.1 hp.2.eq
  rw [List.forall₂_eq_eq_eq] at same
  obtain ⟨es⟩ := t
  exact congrArg Table.mk same

/-! ## The same state at another depth -/

/-- The state with calls nested `d` deep. -/
def State.atDepth (d : Nat) (s : State) : State := { s with frame := { s.frame with depth := d } }

/-- The outcome with calls nested `d` deep at its end. -/
def Outcome.atDepth {α : Type} (d : Nat) : Outcome α → Outcome α
  | .done a s => .done a (s.atDepth d)
  | .exit x s => .exit x (s.atDepth d)
  | .outOfFuel => .outOfFuel

theorem Outcome.atDepth_ne_outOfFuel {α : Type} {o : Outcome α} (h : o ≠ .outOfFuel) (d : Nat) :
    o.atDepth d ≠ .outOfFuel := by
  cases o with
  | done | exit => simp [atDepth]
  | outOfFuel => exact absurd rfl h

/-- The nesting was too deep. -/
def Outcome.TooDeep {α : Type} (o : Outcome α) : Prop :=
  ∃ name offset s, o = .exit (.failed (.depthExceeded name offset)) s

/-! ## The two runs -/

namespace Astray

/-- Calls were nested too deep. -/
def tooDeep : Astray where
  console _ := False
  failure e _ := e.isDepthExceeded = true
  report _ h := h
  native _ _ _ h := h
  reported _ h hd := absurd h (by simp [hd])

/-- Whatever a run does. -/
def anyhow : Astray where
  console _ := True
  failure _ _ := True
  report _ h := h
  native _ _ _ h := h
  reported _ h _ := h

theorem tooDeep_of_off {α : Type} {o : Outcome α} (h : tooDeep.Off o) (ends : o ≠ .outOfFuel) :
    o.TooDeep := by
  cases o with
  | done a s => exact h.elim
  | exit x s =>
    rcases h with h | ⟨e, rfl, he⟩
    · exact h.elim
    · obtain ⟨name, offset, rfl⟩ := RunError.isDepthExceeded_eq_true he
      exact ⟨name, offset, s, rfl⟩
  | outOfFuel => exact absurd rfl ends

end Astray

namespace Lockstep

/-- The two runs are the same, except that calls are nested less deep in the second; they part when
the first is stopped for that. -/
def shallower : Lockstep where
  like := .exact
  depth d d' := 0 < d' ∧ d' ≤ d
  source u u' := u = u'
  console c c' := c = c'
  failure e e' := e = e'
  left := .tooDeep
  right := .anyhow

theorem shallower_recover (o : Option Nat) (e : RunError) {s s' : State}
    (hs : shallower.States s s') :
    shallower.Together (Outcome.recover o (.exit (.failed e) s))
      (Outcome.recover o (.exit (.failed e) s')) := by
  have passed : shallower.Together (.exit (.failed e) s : Outcome Value) (.exit (.failed e) s') :=
    .inl (.exit (.failed rfl) hs)
  cases o with
  | none => exact passed
  | some o =>
    rw [Outcome.recover_some, Outcome.recover_some]
    split
    · exact passed
    · have hc : s.console = s'.console := hs.console
      have hu : s.frame.source = s'.frame.source := hs.frame.source
      exact .inl (.done ⟨hs.frame, by rw [State.report, State.report, hc, hu]; rfl⟩)

theorem shallower_lawful : shallower.Lawful where
  deeper h := ⟨Nat.succ_pos _, Nat.succ_le_succ h.2⟩
  called h := ⟨fun _ => h.1, fun _ => Nat.lt_of_lt_of_le h.1 h.2⟩
  limit h hd := Nat.le_trans hd h.2
  outrun _ _ _ _ _ _ _ := ⟨rfl, trivial⟩
  write t h := by
    obtain rfl := h
    exact ⟨rfl, rfl⟩
  readLine h := by
    obtain rfl := h
    exact ⟨rfl, rfl⟩
  wait n h := congrArg (fun c : Console => c.wait n) h
  same _ := rfl
  unknownFunction _ h := by rw [show _ = _ from h]; rfl
  argumentCount _ _ _ h := by rw [show _ = _ from h]; rfl
  argumentType _ _ _ _ h := by rw [show _ = _ from h]; rfl
  depthExceeded _ h := by rw [show _ = _ from h]; rfl
  parts h hp := by
    obtain ⟨rfl, rfl⟩ := h
    exact ⟨_, hp, List.forall₂_same.mpr fun p _ => p.alike_exact⟩
  unread h he := by
    obtain ⟨rfl, rfl⟩ := h
    exact ⟨_, he, rfl⟩
  recover ho he hs := by
    obtain rfl := ho
    obtain rfl := he
    exact shallower_recover _ _ hs

variable {s s' : State}

theorem States.eq_atDepth (h : shallower.States s s') : s' = s.atDepth s'.frame.depth := by
  obtain ⟨⟨vars, functions, depth, source⟩, console⟩ := s
  obtain ⟨⟨vars', functions', depth', source'⟩, console'⟩ := s'
  obtain ⟨⟨rfl, hf, -, rfl⟩, rfl⟩ := h
  obtain rfl : functions = functions' := hf.eq
  rfl

theorem Exits.eq_of_shallower {x x' : Exit} (h : shallower.Exits x x') : x = x' := by
  cases h with
  | failed he => exact congrArg Exit.failed he
  | ret | breakTo | continueTo => rfl

theorem Matches.eq_atDepth {α : Type} {d : Nat} {o o' : Outcome α} (h : shallower.Matches o o')
    (hd : o'.Meets (fun _ t => t.frame.depth = d) fun _ t => t.frame.depth = d) :
    o' = o.atDepth d := by
  cases h with
  | done hs => exact congrArg (Outcome.done _) (hd ▸ hs.eq_atDepth)
  | exit hx hs =>
    rw [← hx.eq_of_shallower]
    exact congrArg (Outcome.exit _) (hd ▸ hs.eq_atDepth)
  | outOfFuel => rfl

end Lockstep

/-- **How deep calls are nested does not change what code does.**  An evaluation inside of a call
that ends, and not because calls are nested too deep, ends in the same way where they are nested
less deep: with the same result or failure, and in the same state but for the depth. -/
theorem Expr.eval_atDepth {n d : Nat} {e : Expr} {s : State} (inside : 1 ≤ d)
    (less : d ≤ s.frame.depth) (ends : e.eval n s ≠ .outOfFuel) (fine : ¬ (e.eval n s).TooDeep) :
    ∀ k, n ≤ k → e.eval k (s.atDepth d) = (e.eval n s).atDepth d := by
  have hs : Lockstep.shallower.States s (s.atDepth d) :=
    ⟨⟨rfl, Table.alike_exact _, ⟨inside, less⟩, rfl⟩, rfl⟩
  have depth : (e.eval n (s.atDepth d)).Meets (fun _ t => t.frame.depth = d)
      fun _ t => t.frame.depth = d :=
    (e.framed_of_eval n (s.atDepth d)).mono (fun _ _ h => h.frame.depth) fun _ _ h => h.frame.depth
  have same : e.eval n (s.atDepth d) = (e.eval n s).atDepth d := by
    rcases (Lockstep.eval_pairs Lockstep.shallower_lawful n).together e.alike_exact hs with
      h | ⟨h, -⟩
    · exact h.eq_atDepth depth
    · exact absurd (Astray.tooDeep_of_off h ends) fine
  have ended : e.eval n (s.atDepth d) ≠ .outOfFuel := same ▸ Outcome.atDepth_ne_outOfFuel ends d
  exact fun k hk => (e.eval_extends hk _ ended).trans same

/-! A function calls another, whose operator reports a failure; then it writes a line that it reads
and returns a number.  The calls are nested as deep as they may be. -/

def innerFunction : Function where
  name := "g"
  params := []
  returns := none
  body := .program [.binary .add (.var "y") (.var "y") (some 4)]

def outerFunction : Function where
  name := "f"
  params := []
  returns := none
  body := .program [.call "g" [] 9, .call "out" [.call "in" [] 17] 13,
    .ret (.numeral ⟨10, ['7']⟩) 23]

def deepState : State where
  frame :=
    { vars := ∅
      functions := Table.ofList ((Native.all.map fun n => (n.name, n.toFunction)) ++
        [("f", outerFunction), ("g", innerFunction)])
      depth := 998
      source := { text := "y+y".toList, filename := "", origin := "" } }
  console := { feed := .script ["7"] }

/-- Where the call ends. -/
def deepEnd : State where
  frame := deepState.frame
  console := { (deepState.report (.unknownVariable "y") 4).console with
    feed := .script []
    output := "7" }

theorem deepCall_done :
    (Expr.call "f" [] 0).eval 5 deepState = .done (.numeral ⟨10, ['7']⟩) deepEnd :=
  rfl

/-- One level deeper the call would be stopped; inside of a single call it ends as it does here. -/
theorem deepCall_atDepth :
    ((Expr.call "f" [] 0).eval 5 (deepState.atDepth 999)).TooDeep ∧
      ∀ k, 5 ≤ k → (Expr.call "f" [] 0).eval k (deepState.atDepth 1) =
        .done (.numeral ⟨10, ['7']⟩) (deepEnd.atDepth 1) := by
  have same := Expr.eval_atDepth (n := 5) (d := 1) (e := .call "f" [] 0) (s := deepState)
    (by decide) (by decide) (by simp [deepCall_done]) (by simp [deepCall_done, Outcome.TooDeep])
  rw [deepCall_done] at same
  exact ⟨⟨"g", 9, _, rfl⟩, same⟩

end Radix
