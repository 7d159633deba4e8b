import Radix.Expr.Chain

/-!
# Proofs/Expr/Parts — what stands directly inside an expression

Expressions hold lists of expressions, so facts about them are proved for the direct parts first:
`Expr.parts_induction` is the induction for that, and `Expr.Everywhere P` says that `P` holds of an
expression and of everything inside it.  The expressions inside a text are not among its parts: they
come up only when the text is evaluated.
-/

namespace Radix

namespace Expr

/-- The expressions that stand directly inside. -/
def parts : Expr → List Expr
  | .numeral _ | .text _ _ | .var _ | .breakTo _ | .continueTo _ => []
  | .assign _ value => [value]
  | .binary _ left right _ => [left, right]
  | .call _ args _ => args
  | .ret value _ => [value]
  | .branch _ condition yes no => condition :: (yes ++ no.getD [])
  | .whileLoop _ condition body => condition :: body
  | .loop _ body => body
  | .function _ _ _ body => body

theorem sizeOf_lt_of_mem_parts {x e : Expr} (h : x ∈ e.parts) : sizeOf x < sizeOf e := by
  have listed : ∀ es : List Expr, x ∈ es → sizeOf x < sizeOf es := fun _ => List.sizeOf_lt_of_mem
  match e with
  | .numeral _ | .text _ _ | .var _ | .breakTo _ | .continueTo _ => simp [parts] at h
  | .assign _ value | .ret value _ =>
    obtain rfl : x = value := List.mem_singleton.mp h
    simp only [assign.sizeOf_spec, ret.sizeOf_spec]
    omega
  | .binary _ l r _ =>
    simp only [parts, List.mem_cons, List.not_mem_nil, or_false] at h
    rcases h with rfl | rfl <;> simp only [binary.sizeOf_spec] <;> omega
  | .call _ es _ | .loop _ es | .function _ _ _ es =>
    have := listed es h
    simp only [call.sizeOf_spec, loop.sizeOf_spec, function.sizeOf_spec]
    omega
  | .branch _ c yes no =>
    simp only [branch.sizeOf_spec]
    rcases List.mem_cons.mp h with rfl | h
    · omega
    rcases List.mem_append.mp h with h | h
    · have := listed yes h
      omega
    · match no, h with
      | some es, h =>
        have := listed es h
        simp only [Option.some.sizeOf_spec]
        omega
  | .whileLoop _ c body =>
    simp only [whileLoop.sizeOf_spec]
    rcases List.mem_cons.mp h with rfl | h
    · omega
    · have := listed body h
      omega

/-- What holds of an expression whenever it holds of its parts, holds of every expression. -/
@[elab_as_elim]
theorem parts_induction {motive : Expr → Prop}
    (step : ∀ e, (∀ x ∈ e.parts, motive x) → motive e) (e : Expr) : motive e := by
  induction hn : sizeOf e using Nat.strongRecOn generalizing e with
  | ind n ih =>
    subst hn
    exact step e fun x hx => ih _ (sizeOf_lt_of_mem_parts hx) x rfl

/-- The property holds of the expression and of everything inside it. -/
inductive Everywhere (P : Expr → Prop) : Expr → Prop
  | intro {e} : P e → (∀ x ∈ e.parts, Everywhere P x) → Everywhere P e

variable {P Q : Expr → Prop}

theorem Everywhere.self {e : Expr} : e.Everywhere P → P e
  | .intro h _ => h

theorem Everywhere.part {e x : Expr} : e.Everywhere P → x ∈ e.parts → x.Everywhere P
  | .intro _ h, hx => h x hx

theorem Everywhere.mono (hPQ : ∀ e, P e → Q e) {e : Expr} (h : e.Everywhere P) :
    e.Everywhere Q := by
  induction h with
  | intro he _ ih => exact .intro (hPQ _ he) ih

section Constructors

variable {name : String} {label : Option String} {e l r : Expr} {es body : List Expr}

theorem Everywhere.assign (h : (Expr.assign name e).Everywhere P) : e.Everywhere P :=
  h.part (by simp [parts])

theorem Everywhere.binary {op : Operator} {o : Option Nat}
    (h : (Expr.binary op l r o).Everywhere P) : l.Everywhere P ∧ r.Everywhere P :=
  ⟨h.part (by simp [parts]), h.part (by simp [parts])⟩

theorem Everywhere.ret {o : Nat} (h : (Expr.ret e o).Everywhere P) : e.Everywhere P :=
  h.part (by simp [parts])

theorem Everywhere.branch {no : Option (List Expr)} (h : (Expr.branch label e es no).Everywhere P) :
    e.Everywhere P ∧ (∀ x ∈ es, x.Everywhere P) ∧ ∀ x ∈ no.getD [], x.Everywhere P :=
  ⟨h.part (by simp [parts]), fun _ hx => h.part (by simp [parts, hx]),
    fun _ hx => h.part (by simp [parts, hx])⟩

theorem Everywhere.whileLoop (h : (Expr.whileLoop label e body).Everywhere P) :
    e.Everywhere P ∧ ∀ x ∈ body, x.Everywhere P :=
  ⟨h.part (by simp [parts]), fun _ hx => h.part (by simp [parts, hx])⟩

end Constructors

/-- The property holds of every text that stands in the expression, and of its offset. -/
def Texts (P : QuotedText → Nat → Prop) (e : Expr) : Prop :=
  e.Everywhere fun y => ∀ q o, y = .text q o → P q o

/-- `Everywhere` as a test. -/
def everywhere (p : Expr → Bool) (e : Expr) : Bool :=
  p e && e.parts.attach.all fun x => x.val.everywhere p
termination_by sizeOf e
decreasing_by exact sizeOf_lt_of_mem_parts x.property

theorem everywhere_iff {p : Expr → Bool} {e : Expr} :
    e.everywhere p = true ↔ e.Everywhere (p · = true) := by
  induction e using parts_induction with
  | step e ih =>
    rw [everywhere, Bool.and_eq_true, List.all_eq_true]
    constructor
    · intro ⟨he, hparts⟩
      exact .intro he fun x hx => (ih x hx).mp (hparts ⟨x, hx⟩ (List.mem_attach _ _))
    · intro h
      exact ⟨h.self, fun x _ => (ih x x.property).mpr (h.part x.property)⟩

instance [DecidablePred P] (e : Expr) : Decidable (e.Everywhere P) :=
  decidable_of_iff (e.everywhere (P ·) = true) <|
    everywhere_iff.trans ⟨.mono fun _ => of_decide_eq_true, .mono fun _ => decide_eq_true⟩

end Expr

/-! ## Chains -/

section Chains

/-! What holds of an operand as it stands and of the operator before it, holds in the chain. -/

variable {Q : Expr → Prop} {V : Operator → Nat → Prop}
  (binary : ∀ op l r o, V op o → Q l → Q r → Q (.binary op l r (some o)))

include binary

theorem joinTier_closed (tier : Tier) {first : Expr} {ls : List Link} (hf : Q first)
    (hl : ∀ l ∈ ls, V l.op l.offset ∧ Q l.operand) :
    Q (joinTier tier first ls).1 ∧
      ∀ l ∈ (joinTier tier first ls).2, V l.op l.offset ∧ Q l.operand := by
  induction ls generalizing first with
  | nil => exact ⟨hf, by simp [joinTier]⟩
  | cons m ls ih =>
    obtain ⟨hop, hm⟩ := hl m (by simp)
    have rest : ∀ l ∈ ls, V l.op l.offset ∧ Q l.operand := fun l h => hl l (by simp [h])
    unfold joinTier
    split
    · exact ih (binary _ _ _ _ hop hf hm) rest
    · obtain ⟨h₁, h₂⟩ := ih hm rest
      refine ⟨hf, fun l h => ?_⟩
      rcases List.mem_cons.mp h with rfl | h
      · exact ⟨hop, h₁⟩
      · exact h₂ l h

/-- What operators keep, and every operand has, the assembled chain has. -/
theorem assemble_closed {first : Expr} {ls : List Link} (hf : Q first)
    (hl : ∀ l ∈ ls, V l.op l.offset ∧ Q l.operand) : Q (assemble first ls) := by
  have folded : ∀ (tiers : List Tier) (chain : Expr × List Link), Q chain.1 →
      (∀ l ∈ chain.2, V l.op l.offset ∧ Q l.operand) →
      Q (tiers.foldl (fun chain tier => joinTier tier chain.1 chain.2) chain).1 := by
    intro tiers
    induction tiers with
    | nil => exact fun _ h _ => h
    | cons tier tiers ih =>
      intro chain h₁ h₂
      obtain ⟨h₁, h₂⟩ := joinTier_closed binary tier h₁ h₂
      exact ih _ h₁ h₂
  exact folded _ _ hf hl

end Chains

end Radix
