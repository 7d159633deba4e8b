import Radix.Proofs.Eval.Discipline
import Radix.Proofs.Eval.Stays
import Radix.Proofs.Expr.Alike

/-!
# Proofs/Eval/Lockstep — two evaluations side by side

Two evaluations of expressions that are alike go through the same constructs in the same order.
`Lockstep` says what the two have in common on the way and what it means that one of them has gone
astray; from then on nothing is said about it, except that it stays astray.

* `Lockstep.Lawful` lists what has to be checked, once for each thing that may differ and with no
  evaluator in sight.
* `Lockstep.eval_pairs`: then the two evaluations end in the same way, or both have gone astray.
-/

namespace Radix

/-! ## Functions and their tables -/

/-- The bodies are the same native function, or statements that are alike. -/
inductive Body.Alike (L : Likeness) : Body → Body → Prop
  | native (n) : Alike L (.native n) (.native n)
  | program {es es'} : List.Forall₂ (Expr.Alike L) es es' → Alike L (.program es) (.program es')

/-- The functions have the same head, and bodies that are alike. -/
structure Function.Alike (L : Likeness) (f f' : Function) : Prop where
  name : f.name = f'.name
  params : f.params = f'.params
  returns : f.returns = f'.returns
  body : f.body.Alike L f'.body

namespace Table

variable {α β : Type} {R : α → β → Prop} {t : Table α} {t' : Table β}

/-- The tables have the same names in the same order, and what they hold is related. -/
def Alike (R : α → β → Prop) (t : Table α) (t' : Table β) : Prop :=
  List.Forall₂ (fun p p' => p.1 = p'.1 ∧ R p.2 p'.2) t.entries t'.entries

theorem Alike.get? (h : t.Alike R t') (name : String) :
    Option.Rel R (t.get? name) (t'.get? name) := by
  obtain ⟨es⟩ := t
  obtain ⟨es'⟩ := t'
  replace h : List.Forall₂ (fun p p' => p.1 = p'.1 ∧ R p.2 p'.2) es es' := h
  unfold Table.get?
  induction h with
  | nil => exact .none
  | @cons p p' es es' hp _ ih =>
    obtain ⟨k, v⟩ := p
    obtain ⟨k', v'⟩ := p'
    obtain ⟨rfl, hv⟩ : k = k' ∧ R v v' := hp
    rw [List.lookup_cons, List.lookup_cons]
    cases name == k with
    | true => exact .some hv
    | false => exact ih

theorem Alike.insert (h : t.Alike R t') (name : String) {v : α} {v' : β} (hv : R v v') :
    (t.insert name v).Alike R (t'.insert name v') := by
  obtain ⟨es⟩ := t
  obtain ⟨es'⟩ := t'
  replace h : List.Forall₂ (fun p p' => p.1 = p'.1 ∧ R p.2 p'.2) es es' := h
  unfold Alike Table.insert
  induction h with
  | nil => exact .cons ⟨rfl, hv⟩ .nil
  | @cons p p' es es' hp hes ih =>
    unfold insertEntry
    by_cases hk : p.1 = name
    · rw [if_pos hk, if_pos (hp.1 ▸ hk)]
      exact .cons ⟨rfl, hv⟩ hes
    · rw [if_neg hk, if_neg (hp.1 ▸ hk)]
      exact .cons hp ih

theorem Alike.map_values {γ : Type} {f : α → γ} {g : β → γ} (h : t.Alike R t')
    (hfg : ∀ v v', R v v' → f v = g v') : t.values.map f = t'.values.map g := by
  obtain ⟨es⟩ := t
  obtain ⟨es'⟩ := t'
  replace h : List.Forall₂ (fun p p' => p.1 = p'.1 ∧ R p.2 p'.2) es es' := h
  unfold values
  induction h with
  | nil => rfl
  | cons hp _ ih => simpa [hfg _ _ hp.2] using ih

end Table

theorem Function.alike_exact (f : Function) : f.Alike .exact f := by
  obtain ⟨name, params, returns, body⟩ := f
  refine ⟨rfl, rfl, rfl, ?_⟩
  cases body with
  | native n => exact .native n
  | program es => exact .program (List.forall₂_same.mpr fun e _ => e.alike_exact)

theorem Table.alike_exact (t : Table Function) : t.Alike (Function.Alike .exact) t :=
  List.forall₂_same.mpr fun p _ => ⟨rfl, p.2.alike_exact⟩

/-- The signatures in a listing depend on names and signatures only. -/
theorem Native.map_sorted (t : Table Function) :
    (sorted t).map Function.signature = ((t.values.map fun f => (f.name, f.signature)).mergeSort
      fun a b => decide (a.1 ≤ b.1)).map Prod.snd := by
  rw [← List.map_mergeSort (r := fun f g : Function => decide (f.name ≤ g.name)), List.map_map]
  · rfl
  · exact fun _ _ _ _ => rfl

theorem Function.Alike.signature {L : Likeness} {f f' : Function} (h : f.Alike L f') :
    f.signature = f'.signature := by
  obtain ⟨name, params, returns, body⟩ := f
  obtain ⟨name', params', returns', body'⟩ := f'
  obtain ⟨rfl, rfl, rfl, -⟩ := h
  rfl

/-- Functions that are alike are listed alike. -/
theorem Native.listing_alike {L : Likeness} {t t' : Table Function}
    (h : t.Alike (Function.Alike L) t') : listing t = listing t' := by
  have keys : t.values.map (fun f => (f.name, f.signature)) =
      t'.values.map (fun f => (f.name, f.signature)) :=
    h.map_values fun f f' hf => Prod.ext hf.name hf.signature
  have signatures : (sorted t).map Function.signature = (sorted t').map Function.signature := by
    rw [map_sorted, map_sorted, keys]
  exact congrArg (fun ls => "Available functions: " ++ ", ".intercalate ls ++ "\n") signatures

/-! ## Going astray -/

/-- When a run has gone astray, as far as its console shows it, or the failure that leaves it. -/
structure Astray where
  console : Console → Prop
  failure : RunError → Console → Prop
  /-- It stays astray, whatever is reported or a native function does. -/
  report {c : Console} (d : Diagnostic) : console c → console (c.report d)
  native {c : Console} (n : Native) (vs : List Value) (f : Frame) :
    console c → console (n.run vs f c).2
  /-- It does so when an operator reports the failure. -/
  reported {e : RunError} {c : Console} (d : Diagnostic) :
    failure e c → e.isDepthExceeded = false → console (c.report d)

namespace Astray

variable {α β : Type} (A : Astray)

/-- However the computation ends, it has gone astray. -/
def Off : Outcome α → Prop :=
  Outcome.Meets (fun _ s => A.console s.console)
    fun x s => A.console s.console ∨ ∃ e, x = .failed e ∧ A.failure e s.console

/-- The computation does not come back. -/
def Keeps (x : Run α) : Prop := ∀ s, A.console s.console → A.Off (x s)

variable {A} {s : State}

theorem off_bind {x : Run α} {f : α → Run β} (hx : A.Off (x s)) (hf : ∀ a, A.Keeps (f a)) :
    A.Off ((x >>= f) s) :=
  Run.meets_bind hx fun a t ht => hf a t ht

theorem off_recover {o : Outcome Value} (h : A.Off o) (offset : Option Nat) :
    A.Off (o.recover offset) := by
  refine Outcome.Meets.recover h fun e t k _ hd hx => ?_
  rcases hx with hx | ⟨e', he, hx⟩
  · exact A.report _ hx
  · obtain rfl := Exit.failed.inj he
    exact A.reported _ hx hd

theorem off_branch {o : Outcome Unit} (h : A.Off o) (label : Option String) :
    A.Off (o.branch label) := by
  refine Outcome.Meets.branch h (fun target t _ hx => ?_) fun x t _ hx => hx
  rcases hx with hx | ⟨e, he, -⟩
  · exact hx
  · exact absurd he (by simp)

theorem off_pass {o : Outcome Unit} (h : A.Off o) (label : Option String) :
    A.Off (o.pass label) := by
  have caught : ∀ {x : Exit} {t : State}, (∀ e, x ≠ .failed e) →
      (A.console t.console ∨ ∃ e, x = .failed e ∧ A.failure e t.console) →
      A.console t.console := by
    rintro x t hx (ht | ⟨e, he, -⟩)
    · exact ht
    · exact absurd he (hx e)
  exact Outcome.Meets.pass h (fun _ _ _ => caught (by simp)) (fun _ _ _ => caught (by simp))
    fun _ _ _ hx => hx

theorem off_returnTo {o : Outcome Unit} (h : A.Off o) (caller : Frame) :
    A.Off (o.returnTo caller) := by
  refine Outcome.Meets.returnTo h (fun v t hx => ?_) fun x t _ hx => hx
  rcases hx with hx | ⟨e, he, -⟩
  · exact hx
  · exact absurd he (by simp)

theorem keeps_leave (x : Exit) : A.Keeps (Run.leave x : Run α) := fun _ hs => .inl hs

theorem keeps_lift (x : Except RunError α) : A.Keeps (Run.lift x) := fun _ hs =>
  Run.meets_lift (fun _ _ => hs) fun _ _ => .inl hs

theorem keeps_bind {x : Run α} {f : α → Run β} (hx : A.Keeps x) (hf : ∀ a, A.Keeps (f a)) :
    A.Keeps (x >>= f) := fun s hs => off_bind (hx s hs) hf

theorem keeps_iterate {x : Run Bool} (hx : A.Keeps x) (n : Nat) : A.Keeps (Run.iterate x n) := by
  intro s hs
  refine Run.meets_iterate (I := fun t => A.console t.console) (fun t ht => ?_) n hs
  refine Outcome.Meets.mono (hx t ht) (fun more u hu => ?_) fun _ _ h => h
  cases more <;> exact hu

/-- A loop does not come back from a turn that went astray. -/
theorem off_iterate {x : Run Bool} (hx : A.Keeps x) (n : Nat) (h : A.Off (x s)) :
    A.Off (Run.iterate x (n + 1) s) := by
  rw [Run.iterate_succ]
  generalize x s = o at h ⊢
  match o, h with
  | .done true t, h => exact keeps_iterate hx n t h
  | .done false _, h => exact h
  | .exit _ _, h => exact h
  | .outOfFuel, _ => trivial

theorem keeps_native (n : Native) (vs : List Value) : A.Keeps (Eval.native n vs) := by
  intro s hs
  have hc := A.native n vs s.frame hs
  unfold Eval.native
  match hr : n.run vs s.frame s.console with
  | (.ok v, console) =>
    rw [hr] at hc
    exact hc
  | (.error e, console) =>
    rw [hr] at hc
    exact .inl hc

theorem keeps_block {ev : Expr → Run Value} (h : ∀ e, A.Keeps (ev e)) (es : List Expr) :
    A.Keeps (Eval.block ev es) := by
  induction es with
  | nil => exact fun _ hs => hs
  | cons e es ih => exact keeps_bind (h e) fun _ => ih

/-- A call of a function does not come back either, whatever the function. -/
theorem keeps_apply {ev : Expr → Run Value} (h : ∀ e, A.Keeps (ev e)) (f : Function)
    (body : List Expr) (vs : List Value) (offset : Nat) :
    A.Keeps (Eval.apply ev f body vs offset) := by
  intro s hs
  refine off_bind (x := Run.frame) hs fun g => ?_
  split
  · exact keeps_leave _
  · exact fun t ht => off_returnTo
      (keeps_block h body { t with frame := g.enter (f.params.map (·.2)) vs } ht) t.frame

theorem keeps_frame {k : Frame → Run α} (h : ∀ f, A.Keeps (k f)) : A.Keeps (Run.frame >>= k) :=
  fun s hs => h s.frame s hs

theorem keeps_lookup (name : String) : A.Keeps (Eval.lookup name) := by
  refine keeps_frame fun f => ?_
  split
  · exact fun _ hs => hs
  · exact keeps_leave _

theorem keeps_invoke {ev : Expr → Run Value} (h : ∀ e, A.Keeps (ev e)) (name : String)
    (offset : Nat) (vs : List Value) : A.Keeps (Eval.invoke ev name offset vs) := by
  refine keeps_frame fun g => ?_
  split
  · exact keeps_leave _
  · refine keeps_bind (keeps_lift _) fun _ => ?_
    split
    · exact keeps_native _ vs
    · exact keeps_apply h _ _ vs offset

/-- Evaluation as a discipline that is kept by staying astray. -/
def discipline (A : Astray) : Discipline Unit where
  top := ()
  inBranch _ _ := ()
  inLoop _ _ := ()
  expr _ _ := True
  value _ := True
  state s := A.console s.console
  failure _ := True
  jump _ _ _ := True

theorem discipline_lawful (A : Astray) : A.discipline.Lawful where
  text _ _ _ := trivial
  assign _ := trivial
  binary _ := ⟨trivial, trivial⟩
  call _ _ _ := trivial
  ret _ := trivial
  branch _ := ⟨trivial, fun _ _ => trivial, fun _ _ => trivial⟩
  whileLoop _ := ⟨trivial, fun _ _ => trivial⟩
  loop _ _ _ := trivial
  body _ _ _ _ _ := trivial
  bind hs _ := hs
  deeper hs := hs
  leave _ ht := ht
  declare _ _ hs := hs
  console {n vs s r console} hs _ hr := by
    have hc := A.native n vs s.frame hs
    rwa [hr] at hc
  report _ _ hs := A.report _ hs

/-- **An evaluation that has gone astray stays astray.** -/
theorem eval_keeps (A : Astray) (n : Nat) (e : Expr) : A.Keeps (e.eval n) := fun s hs =>
  (A.discipline.eval_keeps A.discipline_lawful n () e s trivial hs).mono (fun _ _ h => h.2)
    fun _ _ h => .inl h.2

end Astray

/-! ## Two runs -/

/-- What an operator with an offset makes of a failure. -/
theorem Outcome.recover_some (o : Nat) (e : RunError) (s : State) :
    recover (some o) (.exit (.failed e) s) =
      if e.isDepthExceeded then .exit (.failed e) s
      else .done .unit (s.report e (e.offset.getD o)) :=
  rfl

/-- The parts of texts are alike. -/
inductive Template.Part.Alike (L : Likeness) : Template.Part → Template.Part → Prop
  | chars (cs) : Alike L (.chars cs) (.chars cs)
  | expr {e e'} : e.Alike L e' → Alike L (.expr e) (.expr e')

theorem Template.Part.alike_exact (p : Template.Part) : p.Alike .exact p := by
  cases p with
  | chars cs => exact .chars cs
  | expr e => exact .expr e.alike_exact

/-- What two runs have in common, and when they have parted. -/
structure Lockstep where
  like : Likeness
  depth : Nat → Nat → Prop
  source : SourceUnit → SourceUnit → Prop
  console : Console → Console → Prop
  failure : RunError → RunError → Prop
  left : Astray
  right : Astray

namespace Lockstep

variable {α β : Type} (L : Lockstep)

/-- The frames are the same but for what may differ. -/
structure Frames (f f' : Frame) : Prop where
  vars : f.vars = f'.vars
  functions : f.functions.Alike (Function.Alike L.like) f'.functions
  depth : L.depth f.depth f'.depth
  source : L.source f.source f'.source

/-- So are the states. -/
structure States (s s' : State) : Prop where
  frame : L.Frames s.frame s'.frame
  console : L.console s.console s'.console

/-- The computations leave in the same way. -/
inductive Exits : Exit → Exit → Prop
  | failed {e e'} : L.failure e e' → Exits (.failed e) (.failed e')
  | ret (v) : Exits (.ret v) (.ret v)
  | breakTo (label) : Exits (.breakTo label) (.breakTo label)
  | continueTo (label) : Exits (.continueTo label) (.continueTo label)

/-- The computations end in the same way. -/
inductive Matches : Outcome α → Outcome α → Prop
  | done {a s s'} : L.States s s' → Matches (.done a s) (.done a s')
  | exit {x x' s s'} : L.Exits x x' → L.States s s' → Matches (.exit x s) (.exit x' s')
  | outOfFuel : Matches .outOfFuel .outOfFuel

/-- The computations end in the same way, or both have gone astray. -/
def Together (o o' : Outcome α) : Prop := L.Matches o o' ∨ L.left.Off o ∧ L.right.Off o'

/-- The computations stay together when they start together, and astray when they start astray. -/
structure Paired (x y : Run α) : Prop where
  together {s s'} : L.States s s' → L.Together (x s) (y s')
  left : L.left.Keeps x
  right : L.right.Keeps y

/-- The evaluators do so on expressions that are alike. -/
structure Pairs (ev ev' : Expr → Run Value) : Prop where
  together {e e'} : e.Alike L.like e' → ∀ {s s'}, L.States s s' → L.Together (ev e s) (ev' e' s')
  left (e) : L.left.Keeps (ev e)
  right (e) : L.right.Keeps (ev' e)

/-- What may differ makes no difference. -/
structure Lawful : Prop where
  deeper {d d'} : L.depth d d' → L.depth (d + 1) (d' + 1)
  called {d d'} : L.depth d d' → (0 < d ↔ 0 < d')
  /-- The left run reaches the limit first, and that is where the two may part. -/
  limit {d d'} : L.depth d d' → maxDepth ≤ d' → maxDepth ≤ d
  outrun {d d'} : L.depth d d' → maxDepth ≤ d → d' < maxDepth → ∀ name offset c c',
    L.left.failure (.depthExceeded name offset) c ∧ L.right.console c'
  write {c c'} (t : String) : L.console c c' →
    (c.write t).1 = (c'.write t).1 ∧ L.console (c.write t).2 (c'.write t).2
  readLine {c c'} : L.console c c' →
    c.readLine.1 = c'.readLine.1 ∧ L.console c.readLine.2 c'.readLine.2
  wait {c c'} (n : Nat) : L.console c c' → L.console (c.wait n) (c'.wait n)
  same (e) : L.failure e e
  unknownFunction {o o'} (name) : L.like.offset o o' →
    L.failure (.unknownFunction name o) (.unknownFunction name o')
  argumentCount {o o'} (name m n) : L.like.offset o o' →
    L.failure (.argumentCount name m n o) (.argumentCount name m n o')
  argumentType {o o'} (name i tag kind) : L.like.offset o o' →
    L.failure (.argumentType name i tag kind o) (.argumentType name i tag kind o')
  depthExceeded {o o'} (name) : L.like.offset o o' →
    L.failure (.depthExceeded name o) (.depthExceeded name o')
  parts {q o q' o' ps} : L.like.text q o q' o' → Template.parts q o = .ok ps →
    ∃ ps', Template.parts q' o' = .ok ps' ∧ List.Forall₂ (Template.Part.Alike L.like) ps ps'
  unread {q o q' o' e} : L.like.text q o q' o' → Template.parts q o = .error e →
    ∃ e', Template.parts q' o' = .error e' ∧ L.failure (.read e) (.read e')
  /-- An operator reports on both sides or on neither, or else the two part there. -/
  recover {o o' e e' s s'} : L.like.anchor o o' → L.failure e e' → L.States s s' →
    L.Together (Outcome.recover o (.exit (.failed e) s))
      (Outcome.recover o' (.exit (.failed e') s'))

variable {L}

/-! ### Sequences and catchers -/

theorem paired_pure (a : α) : L.Paired (pure a) (pure a) where
  together hs := .inl (.done hs)
  left _ hs := hs
  right _ hs := hs

theorem paired_leave {x x' : Exit} (h : L.Exits x x') :
    L.Paired (Run.leave x : Run α) (Run.leave x') where
  together hs := .inl (.exit h hs)
  left := Astray.keeps_leave _
  right := Astray.keeps_leave _

theorem Paired.bind {x y : Run α} {f g : α → Run β} (h : L.Paired x y)
    (hf : ∀ a, L.Paired (f a) (g a)) : L.Paired (x >>= f) (y >>= g) where
  together {s s'} hs := by
    rcases h.together hs with hm | ⟨hl, hr⟩
    · rw [Run.bind_apply, Run.bind_apply]
      generalize x s = o, y s' = o' at hm ⊢
      cases hm with
      | done ht => exact (hf _).together ht
      | exit hx ht => exact .inl (.exit hx ht)
      | outOfFuel => exact .inl .outOfFuel
    · exact .inr ⟨Astray.off_bind hl fun a => (hf a).left, Astray.off_bind hr fun a => (hf a).right⟩
  left := Astray.keeps_bind h.left fun a => (hf a).left
  right := Astray.keeps_bind h.right fun a => (hf a).right

theorem Paired.recover (W : L.Lawful) {x y : Run Value} {o o' : Option Nat} (h : L.Paired x y)
    (ho : L.like.anchor o o') : L.Paired (Run.recover o x) (Run.recover o' y) where
  together {s s'} hs := by
    rw [Run.recover, Run.recover]
    rcases h.together hs with hm | ⟨hl, hr⟩
    · generalize x s = a, y s' = b at hm ⊢
      cases hm with
      | done ht => exact .inl (.done ht)
      | exit hx ht =>
        cases hx with
        | failed he => exact W.recover ho he ht
        | ret v => exact .inl (.exit (.ret v) ht)
        | breakTo l => exact .inl (.exit (.breakTo l) ht)
        | continueTo l => exact .inl (.exit (.continueTo l) ht)
      | outOfFuel => exact .inl .outOfFuel
    · exact .inr ⟨Astray.off_recover hl o, Astray.off_recover hr o'⟩
  left s hs := Astray.off_recover (h.left s hs) o
  right s hs := Astray.off_recover (h.right s hs) o'

theorem Paired.branch {x y : Run Unit} (h : L.Paired x y) (label : Option String) :
    L.Paired (Run.branch label x) (Run.branch label y) where
  together {s s'} hs := by
    rw [Run.branch, Run.branch]
    rcases h.together hs with hm | ⟨hl, hr⟩
    · generalize x s = a, y s' = b at hm ⊢
      cases hm with
      | done ht => exact .inl (.done ht)
      | exit hx ht =>
        cases hx with
        | failed he => exact .inl (.exit (.failed he) ht)
        | ret v => exact .inl (.exit (.ret v) ht)
        | breakTo target =>
          match target with
          | none => exact .inl (.exit (.breakTo none) ht)
          | some target =>
            rw [Outcome.branch, Outcome.branch]
            split
            · exact .inl (.done ht)
            · exact .inl (.exit (.breakTo _) ht)
        | continueTo l => exact .inl (.exit (.continueTo l) ht)
      | outOfFuel => exact .inl .outOfFuel
    · exact .inr ⟨Astray.off_branch hl label, Astray.off_branch hr label⟩
  left s hs := Astray.off_branch (h.left s hs) label
  right s hs := Astray.off_branch (h.right s hs) label

theorem Paired.pass {x y : Run Unit} (h : L.Paired x y) (label : Option String) :
    L.Paired (Run.pass label x) (Run.pass label y) where
  together {s s'} hs := by
    rw [Run.pass, Run.pass]
    rcases h.together hs with hm | ⟨hl, hr⟩
    · generalize x s = a, y s' = b at hm ⊢
      cases hm with
      | done ht => exact .inl (.done ht)
      | exit hx ht =>
        cases hx with
        | failed he => exact .inl (.exit (.failed he) ht)
        | ret v => exact .inl (.exit (.ret v) ht)
        | breakTo l =>
          rw [Outcome.pass, Outcome.pass]
          split
          · exact .inl (.done ht)
          · exact .inl (.exit (.breakTo l) ht)
        | continueTo l =>
          rw [Outcome.pass, Outcome.pass]
          split
          · exact .inl (.done ht)
          · exact .inl (.exit (.continueTo l) ht)
      | outOfFuel => exact .inl .outOfFuel
    · exact .inr ⟨Astray.off_pass hl label, Astray.off_pass hr label⟩
  left s hs := Astray.off_pass (h.left s hs) label
  right s hs := Astray.off_pass (h.right s hs) label

/-- Both callers go on in their own frames. -/
theorem together_returnTo {o o' : Outcome Unit} (h : L.Together o o') {f f' : Frame}
    (hf : L.Frames f f') : L.Together (o.returnTo f) (o'.returnTo f') := by
  rcases h with hm | ⟨hl, hr⟩
  · cases hm with
    | done ht => exact .inl (.done ⟨hf, ht.console⟩)
    | exit hx ht =>
      cases hx with
      | failed he => exact .inl (.exit (.failed he) ⟨hf, ht.console⟩)
      | ret v => exact .inl (.done ⟨hf, ht.console⟩)
      | breakTo l => exact .inl (.exit (.breakTo l) ⟨hf, ht.console⟩)
      | continueTo l => exact .inl (.exit (.continueTo l) ⟨hf, ht.console⟩)
    | outOfFuel => exact .inl .outOfFuel
  · exact .inr ⟨Astray.off_returnTo hl f, Astray.off_returnTo hr f'⟩

/-- **Loops stay together if their turns do.** -/
theorem Paired.iterate {x y : Run Bool} (h : L.Paired x y) (n : Nat) :
    L.Paired (Run.iterate x n) (Run.iterate y n) where
  together {s s'} hs := by
    induction n generalizing s s' with
    | zero => exact .inl .outOfFuel
    | succ n ih =>
      rcases h.together hs with hm | ⟨hl, hr⟩
      · rw [Run.iterate_succ, Run.iterate_succ]
        generalize x s = a, y s' = b at hm ⊢
        cases hm with
        | @done more _ _ ht =>
          match more with
          | true => exact ih ht
          | false => exact .inl (.done ht)
        | exit hx ht => exact .inl (.exit hx ht)
        | outOfFuel => exact .inl .outOfFuel
      · exact .inr ⟨Astray.off_iterate h.left n hl, Astray.off_iterate h.right n hr⟩
  left := Astray.keeps_iterate h.left n
  right := Astray.keeps_iterate h.right n

/-! ### Constructs -/

section Constructs

variable {ev ev' : Expr → Run Value}

theorem Pairs.paired (h : L.Pairs ev ev') {e e' : Expr} (he : e.Alike L.like e') :
    L.Paired (ev e) (ev' e') :=
  ⟨h.together he, h.left e, h.right e'⟩

theorem paired_all (h : L.Pairs ev ev') {es es' : List Expr}
    (hes : List.Forall₂ (Expr.Alike L.like) es es') :
    L.Paired (Eval.all ev es) (Eval.all ev' es') := by
  induction hes with
  | nil => exact paired_pure []
  | cons he _ ih => exact (h.paired he).bind fun v => ih.bind fun vs => paired_pure (v :: vs)

theorem paired_block (h : L.Pairs ev ev') {es es' : List Expr}
    (hes : List.Forall₂ (Expr.Alike L.like) es es') :
    L.Paired (Eval.block ev es) (Eval.block ev' es') := by
  induction hes with
  | nil => exact paired_pure ()
  | cons he _ ih => exact (h.paired he).bind fun _ => ih

theorem paired_shown (h : L.Pairs ev ev') {ps ps' : List Template.Part}
    (hps : List.Forall₂ (Template.Part.Alike L.like) ps ps') :
    L.Paired (Eval.shown ev ps) (Eval.shown ev' ps') := by
  induction hps with
  | nil => exact paired_pure ""
  | cons hp _ ih =>
    cases hp with
    | chars cs => exact ih.bind fun s => paired_pure (String.ofList cs ++ s)
    | expr he =>
      exact (h.paired he).bind fun v => ih.bind fun s => paired_pure (v.toText ++ s)

variable (W : L.Lawful)

include W

theorem paired_lift (x : Except RunError α) : L.Paired (Run.lift x) (Run.lift x) := by
  match x with
  | .ok a => exact paired_pure a
  | .error e => exact paired_leave (.failed (W.same e))

theorem paired_text (h : L.Pairs ev ev') {q q' : QuotedText} {o o' : Nat}
    (hq : L.like.text q o q' o') : L.Paired (Eval.text ev q o) (Eval.text ev' q' o') := by
  unfold Eval.text
  match hp : Template.parts q o with
  | .ok ps =>
    obtain ⟨ps', hp', hps⟩ := W.parts hq hp
    rw [hp']
    exact (paired_shown h hps).bind fun s => paired_pure (Value.text s)
  | .error e =>
    obtain ⟨e', hp', he⟩ := W.unread hq hp
    rw [hp']
    exact paired_leave (.failed he)

theorem paired_truth (v : Value) : L.Paired (Eval.truth v) (Eval.truth v) := paired_lift W _

theorem paired_operation (h : L.Pairs ev ev') (op : Operator) {l l' r r' : Expr}
    (hl : l.Alike L.like l') (hr : r.Alike L.like r') :
    L.Paired (Eval.operation ev op l r) (Eval.operation ev' op l' r') := by
  have decided : L.Paired (do let b ← ev r; return Value.ofBool (← Eval.truth b))
      (do let b ← ev' r'; return Value.ofBool (← Eval.truth b)) :=
    (h.paired hr).bind fun b => (paired_truth W b).bind fun t => paired_pure (Value.ofBool t)
  refine (h.paired hl).bind fun a => ?_
  cases op with
  | and =>
    refine (paired_truth W a).bind fun b => ?_
    cases b with
    | true => exact decided
    | false => exact paired_pure _
  | or =>
    refine (paired_truth W a).bind fun b => ?_
    cases b with
    | true => exact paired_pure _
    | false => exact decided
  | _ => exact (h.paired hr).bind fun b => paired_lift W _

theorem paired_conditional (h : L.Pairs ev ev') (label : Option String) {c c' : Expr}
    {yes yes' : List Expr} {no no' : Option (List Expr)} (hc : c.Alike L.like c')
    (hy : List.Forall₂ (Expr.Alike L.like) yes yes')
    (hn : List.Forall₂ (Expr.Alike L.like) (no.getD []) (no'.getD [])) :
    L.Paired (Eval.conditional ev label c yes no) (Eval.conditional ev' label c' yes' no') := by
  refine (h.paired hc).bind fun v => (paired_truth W v).bind fun b => ?_
  cases b with
  | true => exact (paired_block h hy).branch label
  | false => exact (paired_block h hn).branch label

theorem paired_turn (h : L.Pairs ev ev') (label : Option String) {c c' : Expr}
    {body body' : List Expr} (hc : c.Alike L.like c')
    (hb : List.Forall₂ (Expr.Alike L.like) body body') :
    L.Paired (Eval.turn ev label c body) (Eval.turn ev' label c' body') := by
  refine (h.paired hc).bind fun v => (paired_truth W v).bind fun b => ?_
  cases b with
  | true => exact (paired_block h hb).pass label
  | false => exact paired_pure false

/-! ### Names and functions -/

omit W in
/-- A computation that looks at its frame first. -/
theorem paired_frame {k k' : Frame → Run α}
    (h : ∀ {s s'}, L.States s s' → L.Together (k s.frame s) (k' s'.frame s'))
    (hl : ∀ f, L.left.Keeps (k f)) (hr : ∀ f, L.right.Keeps (k' f)) :
    L.Paired (Run.frame >>= k) (Run.frame >>= k') where
  together hs := h hs
  left s hs := hl s.frame s hs
  right s hs := hr s.frame s hs

theorem paired_lookup (name : String) : L.Paired (Eval.lookup name) (Eval.lookup name) where
  together {s s'} hs := by
    simp only [Eval.lookup, Run.bind_apply, Run.frame_apply, ← hs.frame.vars]
    cases s.frame.vars.get? name with
    | some v => exact .inl (.done hs)
    | none => exact .inl (.exit (.failed (W.same _)) hs)
  left := Astray.keeps_lookup name
  right := Astray.keeps_lookup name

omit W in
theorem Frames.bind {f f' : Frame} (h : L.Frames f f') (name : String) (v : Value) :
    L.Frames (f.bind name v) (f'.bind name v) where
  vars := congrArg (·.insert name v) h.vars
  functions := h.functions
  depth := h.depth
  source := h.source

theorem Frames.enter {f f' : Frame} (h : L.Frames f f') (params : List String)
    (values : List Value) : L.Frames (f.enter params values) (f'.enter params values) := by
  have bound : ∀ (ps : List (String × Value)) {g g' : Frame}, L.Frames g g' →
      L.Frames (ps.foldl (fun g p => g.bind p.1 p.2) g)
        (ps.foldl (fun g p => g.bind p.1 p.2) g') := by
    intro ps
    induction ps with
    | nil => exact fun h => h
    | cons p ps ih => exact fun h => ih (h.bind p.1 p.2)
  exact bound _ ⟨h.vars, h.functions, W.deeper h.depth, h.source⟩

omit W in
theorem paired_assign (h : L.Pairs ev ev') (name : String) {e e' : Expr}
    (he : e.Alike L.like e') : L.Paired (Eval.assign ev name e) (Eval.assign ev' name e') := by
  refine (h.paired he).bind fun v => ?_
  exact ⟨fun hs => .inl (.done ⟨hs.frame.bind name v, hs.console⟩), fun _ hs => hs, fun _ hs => hs⟩

theorem paired_ret (h : L.Pairs ev ev') {e e' : Expr} (he : e.Alike L.like e') :
    L.Paired (Eval.ret ev e) (Eval.ret ev' e') := by
  have keeps : ∀ (A : Astray) (v : Value) (f : Frame),
      A.Keeps (if 0 < f.depth then Run.leave (.ret v) else pure v) := by
    intro A v f
    split
    · exact Astray.keeps_leave _
    · exact fun _ hs => hs
  refine (h.paired he).bind fun v => paired_frame (fun {s s'} hs => ?_) (keeps L.left v)
    (keeps L.right v)
  have hd := W.called hs.frame.depth
  by_cases hp : 0 < s.frame.depth
  · rw [if_pos hp, if_pos (hd.mp hp)]
    exact .inl (.exit (.ret v) hs)
  · rw [if_neg hp, if_neg (mt hd.mpr hp)]
    exact .inl (.done hs)

theorem paired_declare (name : String) (params : List Param) (returns : Option String)
    {body body' : List Expr} (hb : List.Forall₂ (Expr.Alike L.like) body body') :
    L.Paired (Eval.declare name params returns body) (Eval.declare name params returns body') := by
  refine (paired_lift W _).bind fun tags => ?_
  refine ⟨fun hs => .inl (.done ⟨?_, hs.console⟩), fun _ hs => hs, fun _ hs => hs⟩
  exact ⟨hs.frame.vars, hs.frame.functions.insert name ⟨rfl, rfl, rfl, .program hb⟩,
    hs.frame.depth, hs.frame.source⟩

theorem writing_alike (t : String) {c c' : Console} (hc : L.console c c') :
    (Native.writing t c).1 = (Native.writing t c').1 ∧
      L.console (Native.writing t c).2 (Native.writing t c').2 := by
  obtain ⟨hr, hd⟩ := W.write t hc
  unfold Native.writing
  match hw : c.write t, hw' : c'.write t with
  | (.ok (), d), (.ok (), d') => exact ⟨rfl, by simpa [hw, hw'] using hd⟩
  | (.error e, d), (.error e', d') =>
    obtain rfl : e = e' := by simpa [hw, hw'] using hr
    exact ⟨rfl, by simpa [hw, hw'] using hd⟩
  | (.ok (), d), (.error e', d') => simp [hw, hw'] at hr
  | (.error e, d), (.ok (), d') => simp [hw, hw'] at hr

/-- A native function gives the same result to both. -/
theorem run_alike (n : Native) (vs : List Value) {f f' : Frame} {c c' : Console}
    (hf : L.Frames f f') (hc : L.console c c') :
    (n.run vs f c).1 = (n.run vs f' c').1 ∧ L.console (n.run vs f c).2 (n.run vs f' c').2 := by
  unfold Native.run
  match n with
  | .out =>
    match Native.textArg vs 0 with
    | .ok t => exact writing_alike W t hc
    | .error e => exact ⟨rfl, hc⟩
  | .input =>
    obtain ⟨hr, hd⟩ := W.readLine hc
    match hl : c.readLine, hl' : c'.readLine with
    | (.ok t, d), (.ok t', d') =>
      obtain rfl : t = t' := by simpa [hl, hl'] using hr
      exact ⟨rfl, by simpa [hl, hl'] using hd⟩
    | (.error e, d), (.error e', d') =>
      obtain rfl : e = e' := by simpa [hl, hl'] using hr
      exact ⟨rfl, by simpa [hl, hl'] using hd⟩
    | (.ok t, d), (.error e', d') => simp [hl, hl'] at hr
    | (.error e, d), (.ok t', d') => simp [hl, hl'] at hr
  | .funcs =>
    rw [Native.listing_alike hf.functions]
    exact writing_alike W _ hc
  | .wait =>
    match Native.secondsOf vs with
    | .ok n => exact ⟨rfl, W.wait n hc⟩
    | .error e => exact ⟨rfl, hc⟩
  | .len | .str | .number | .sqrt | .rebase => exact ⟨rfl, hc⟩

theorem paired_native (n : Native) (vs : List Value) :
    L.Paired (Eval.native n vs) (Eval.native n vs) where
  together {s s'} hs := by
    obtain ⟨hr, hc⟩ := run_alike W n vs hs.frame hs.console
    unfold Eval.native
    match hn : n.run vs s.frame s.console, hn' : n.run vs s'.frame s'.console with
    | (r, d), (r', d') =>
      rw [hn, hn'] at hr hc
      obtain rfl : r = r' := hr
      match r with
      | .ok v => exact .inl (.done ⟨hs.frame, hc⟩)
      | .error e => exact .inl (.exit (.failed (W.same e)) ⟨hs.frame, hc⟩)
  left := Astray.keeps_native n vs
  right := Astray.keeps_native n vs

/-- Arguments are checked alike, the offsets in the failures apart. -/
theorem checkArguments_alike {f f' : Function} (hf : f.Alike L.like f') (vs : List Value)
    {o o' : Nat} (ho : L.like.offset o o') :
    L.Paired (Run.lift (Eval.checkArguments f vs o)) (Run.lift (Eval.checkArguments f' vs o')) := by
  have tags : ∀ (ps : List (Tag × String)) (vs : List Value) (i : Nat),
      L.Paired (Run.lift (Eval.checkTags f.name o i ps vs))
        (Run.lift (Eval.checkTags f'.name o' i ps vs)) := by
    intro ps
    induction ps with
    | nil => exact fun _ _ => paired_pure ()
    | cons p ps ih =>
      intro vs i
      match vs with
      | [] => exact paired_pure ()
      | v :: vs =>
        rw [Eval.checkTags, Eval.checkTags]
        split
        · exact ih vs (i + 1)
        · rw [hf.name]
          exact paired_leave (.failed (W.argumentType _ _ _ _ ho))
  unfold Eval.checkArguments
  rw [← hf.params]
  split
  · exact tags _ _ _
  · rw [← hf.name]
    exact paired_leave (.failed (W.argumentCount _ _ _ ho))

theorem paired_apply (h : L.Pairs ev ev') {f f' : Function} (hf : f.Alike L.like f')
    {body body' : List Expr} (hb : List.Forall₂ (Expr.Alike L.like) body body') (vs : List Value)
    {o o' : Nat} (ho : L.like.offset o o') :
    L.Paired (Eval.apply ev f body vs o) (Eval.apply ev' f' body' vs o') where
  together {s s'} hs := by
    have hd := hs.frame.depth
    -- The run on the left may be too deep where the other is not yet.
    by_cases hpart : maxDepth ≤ s.frame.depth ∧ s'.frame.depth < maxDepth
    · obtain ⟨hleft, hright⟩ := W.outrun hd hpart.1 hpart.2 f.name o s.console s'.console
      refine .inr ⟨?_, Astray.keeps_apply h.right f' body' vs o' s' hright⟩
      show L.left.Off ((if maxDepth ≤ s.frame.depth then _ else _ : Run Value) s)
      rw [if_pos hpart.1]
      exact .inr ⟨_, rfl, hleft⟩
    · show L.Together ((if maxDepth ≤ s.frame.depth then _ else _ : Run Value) s)
        ((if maxDepth ≤ s'.frame.depth then _ else _ : Run Value) s')
      by_cases hdeep : maxDepth ≤ s.frame.depth
      · have hdeep' : maxDepth ≤ s'.frame.depth := Nat.le_of_not_lt fun hlt => hpart ⟨hdeep, hlt⟩
        rw [if_pos hdeep, if_pos hdeep', ← hf.name]
        exact .inl (.exit (.failed (W.depthExceeded _ ho)) hs)
      · rw [if_neg hdeep, if_neg (mt (W.limit hd) hdeep), ← hf.params]
        have hin : L.States { s with frame := s.frame.enter (f.params.map (·.2)) vs }
            { s' with frame := s'.frame.enter (f.params.map (·.2)) vs } :=
          ⟨hs.frame.enter W _ vs, hs.console⟩
        exact together_returnTo ((paired_block h hb).together hin) hs.frame
  left := Astray.keeps_apply h.left f body vs o
  right := Astray.keeps_apply h.right f' body' vs o'

/-- A call whose arguments have their values. -/
theorem paired_invoke (h : L.Pairs ev ev') (name : String) {o o' : Nat} (ho : L.like.offset o o')
    (vs : List Value) : L.Paired (Eval.invoke ev name o vs) (Eval.invoke ev' name o' vs) where
  together {s s'} hs := by
    simp only [Eval.invoke, Run.bind_apply, Run.frame_apply]
    have hget := hs.frame.functions.get? name
    generalize s.frame.functions.get? name = a, s'.frame.functions.get? name = b at hget ⊢
    cases hget with
    | none => exact .inl (.exit (.failed (W.unknownFunction name ho)) hs)
    | @some f f' hf =>
      refine Paired.together ((checkArguments_alike W hf vs ho).bind fun _ => ?_) hs
      have hbody := hf.body
      generalize hb : f.body = a, hb' : f'.body = b at hbody ⊢
      cases hbody with
      | native n => exact paired_native W n vs
      | program hes => exact paired_apply W h hf hes vs ho
  left := Astray.keeps_invoke h.left name o vs
  right := Astray.keeps_invoke h.right name o' vs

theorem paired_call (h : L.Pairs ev ev') (name : String) {args args' : List Expr}
    (ha : List.Forall₂ (Expr.Alike L.like) args args') {o o' : Nat} (ho : L.like.offset o o') :
    L.Paired (Eval.call ev name args o) (Eval.call ev' name args' o') := by
  rw [Eval.call_eq, Eval.call_eq]
  exact (paired_all h ha).bind fun vs => paired_invoke W h name ho vs

/-! ### Expressions -/

/-- **If evaluators go in lockstep on the parts of expressions, they do on the expressions.** -/
theorem step_paired (h : L.Pairs ev ev') (n : Nat) {e e' : Expr} (he : e.Alike L.like e') :
    L.Paired (Eval.step n ev e) (Eval.step n ev' e') := by
  cases he with
  | numeral x => exact paired_pure (Value.numeral x)
  | text hq => exact paired_text W h hq
  | var name => exact paired_lookup W name
  | assign he => exact paired_assign h _ he
  | binary hl hr ho => exact (paired_operation W h _ hl hr).recover W ho
  | call ha ho => exact paired_call W h _ ha ho
  | ret he _ => exact paired_ret W h he
  | branch hc hy => exact paired_conditional W h _ hc hy .nil
  | branchElse hc hy hn => exact paired_conditional W h _ hc hy hn
  | whileLoop hc hb => exact (paired_turn W h _ hc hb).iterate n
  | loop hb => exact ((paired_block h hb).pass _).iterate n
  | breakTo l => exact paired_leave (.breakTo l)
  | continueTo l => exact paired_leave (.continueTo l)
  | function hb => exact paired_declare W _ _ _ hb

/-- **Expressions that are alike are evaluated in lockstep**, with any fuel. -/
theorem eval_pairs (n : Nat) : L.Pairs (Expr.eval n) (Expr.eval n) := by
  induction n with
  | zero => exact ⟨fun _ _ _ _ => .inl .outOfFuel, L.left.eval_keeps 0, L.right.eval_keeps 0⟩
  | succ n ih =>
    exact ⟨fun he => (step_paired W ih n he).together, L.left.eval_keeps _, L.right.eval_keeps _⟩

end Constructs

end Lockstep

end Radix
