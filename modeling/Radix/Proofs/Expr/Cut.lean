import Radix.Proofs.Expr.Placeless

/-!
# Proofs/Expr/Cut — an expression is the grouping of its own chain

An operand of an operator needs parentheses where the operator would otherwise take it apart:
`Expr.needsParens`.  `Expr.cut k` takes an expression apart at the operators below level `k` that
stand in it outside parentheses.  Joining the tier of level `k` undoes the last of these cuts
(`joinTier_cut`), and so the five tiers together put the expression back (`assemble_cut`).
-/

namespace Radix

/-- The levels of the tiers, the loosest first. -/
def Tier.level : Tier → Nat
  | .logical => 0
  | .equality => 1
  | .comparison => 2
  | .additive => 3
  | .multiplicative => 4

/-- How tightly an operator binds. -/
def Operator.level (op : Operator) : Nat := op.tier.level

theorem Tier.level_inj {s t : Tier} (h : s.level = t.level) : s = t := by
  revert h
  cases s <;> cases t <;> decide

theorem Operator.level_lt (op : Operator) : op.level < 5 := by
  cases op <;> decide

/-- Does an operand need parentheses next to an operator that binds operators of the level `least`
and above?  A return always does, since it takes everything that follows. -/
def Expr.needsParens (least : Nat) : Expr → Bool
  | .ret _ _ => true
  | .binary op _ _ _ => op.level < least
  | _ => false

/-- The expression taken apart at the operators below level `k`. -/
def Expr.cut (k : Nat) : Expr → Expr × List Link
  | .binary op l r offset =>
    if op.level < k then
      let left := if l.needsParens op.level then (l, []) else l.cut k
      let right := if r.needsParens (op.level + 1) then (r, []) else r.cut k
      (left.1, left.2 ++ ⟨op, offset.getD 0, right.1⟩ :: right.2)
    else (.binary op l r offset, [])
  | e => (e, [])

/-- An operand taken apart, unless it is in parentheses. -/
def Expr.cutOperand (k least : Nat) (e : Expr) : Expr × List Link :=
  if e.needsParens least then (e, []) else e.cut k

theorem Expr.cut_binary {k : Nat} {op : Operator} (h : op.level < k) (l r : Expr)
    (offset : Option Nat) : (Expr.binary op l r offset).cut k =
      ((l.cutOperand k op.level).1, (l.cutOperand k op.level).2 ++
        ⟨op, offset.getD 0, (r.cutOperand k (op.level + 1)).1⟩ ::
          (r.cutOperand k (op.level + 1)).2) := by
  rw [cut, if_pos h]
  rfl

/-- Nothing is cut at tighter operators. -/
theorem Expr.cut_of_level {k : Nat} {e : Expr}
    (h : ∀ op l r offset, e = .binary op l r offset → k ≤ op.level) : e.cut k = (e, []) := by
  match e with
  | .binary op l r offset =>
    have := h op l r offset rfl
    rw [cut, if_neg (by omega)]
  | .numeral _ | .text _ _ | .var _ | .assign _ _ | .call _ _ _ | .ret _ _ | .branch _ _ _ _
  | .whileLoop _ _ _ | .loop _ _ | .breakTo _ | .continueTo _ | .function _ _ _ _ => rfl

/-- An operand that binds at least as tightly as `k` demands stays in one piece. -/
theorem Expr.cutOperand_of_le {k least : Nat} (h : k ≤ least) (e : Expr) :
    e.cutOperand k least = (e, []) := by
  unfold cutOperand
  split
  · rfl
  · next hp =>
    refine cut_of_level fun op l r offset he => ?_
    subst he
    simp only [needsParens, decide_eq_true_eq] at hp
    omega

/-! ## Joining a tier -/

/-- A chain that a tier joins completely goes on with its result. -/
theorem joinTier_append_of_joined {tier : Tier} {first first' : Expr} {ls : List Link}
    (h : joinTier tier first ls = (first', [])) (ms : List Link) :
    joinTier tier first (ls ++ ms) = joinTier tier first' ms := by
  induction ls generalizing first with
  | nil =>
    obtain rfl := (Prod.mk.inj h).1
    rfl
  | cons l ls ih =>
    by_cases hl : l.op.tier = tier
    · rw [joinTier_cons_eq hl] at h
      rw [List.cons_append, joinTier_cons_eq hl, ih h]
    · rw [joinTier_cons_ne hl] at h
      exact absurd (Prod.mk.inj h).2 (by simp)

/-- A tier joins on each side of an operator of another tier. -/
theorem joinTier_append_cons {tier : Tier} {l : Link} (hl : l.op.tier ≠ tier) (first : Expr)
    (ls ms : List Link) : joinTier tier first (ls ++ l :: ms) =
      ((joinTier tier first ls).1, (joinTier tier first ls).2 ++
        ⟨l.op, l.offset, (joinTier tier l.operand ms).1⟩ :: (joinTier tier l.operand ms).2) := by
  induction ls generalizing first with
  | nil => exact joinTier_cons_ne hl first ms
  | cons m ls ih =>
    by_cases hm : m.op.tier = tier
    · rw [List.cons_append, joinTier_cons_eq hm, ih, joinTier_cons_eq hm]
    · rw [List.cons_append, joinTier_cons_ne hm, ih, joinTier_cons_ne hm]
      rfl

/-- Joins a tier of a chain whose offsets are 0. -/
def joinPlaceless (tier : Tier) (chain : Expr × List Link) : Expr × List Link :=
  joinTier tier (placelessChain chain).1 (placelessChain chain).2

theorem joinPlaceless_cutOperand {tier : Tier} {e : Expr}
    (ih : joinPlaceless tier (e.cut (tier.level + 1)) = placelessChain (e.cut tier.level))
    (least : Nat) : joinPlaceless tier (e.cutOperand (tier.level + 1) least) =
      placelessChain (e.cutOperand tier.level least) := by
  unfold Expr.cutOperand
  split
  · rfl
  · exact ih

/-- **Joining a tier undoes the cuts at its level.** -/
theorem joinTier_cut (tier : Tier) (e : Expr) :
    joinPlaceless tier (e.cut (tier.level + 1)) = placelessChain (e.cut tier.level) := by
  match e with
  | .binary op l r offset =>
    have left := joinPlaceless_cutOperand (joinTier_cut tier l) op.level
    have right := joinPlaceless_cutOperand (joinTier_cut tier r) (op.level + 1)
    rcases Nat.lt_trichotomy op.level tier.level with h | h | h
    · -- The operator is looser: it stays, and both sides are joined.
      have hne : op.tier ≠ tier := fun he => absurd h (by rw [Operator.level, he]; omega)
      rw [Expr.cut_binary (by omega), Expr.cut_binary h]
      simp only [joinPlaceless, placelessChain, List.map_append, List.map_cons,
        Link.placeless] at left right ⊢
      rw [joinTier_append_cons (by exact hne), left, right]
    · -- The operator is of the tier: its sides are in one piece, and it takes them.
      have hop : op.tier = tier := Tier.level_inj h
      rw [Expr.cutOperand_of_le (k := tier.level) (by omega) l] at left
      rw [Expr.cut_binary (by omega), Expr.cutOperand_of_le (by omega) r,
        Expr.cut_of_level fun _ _ _ _ he => by obtain ⟨rfl, -⟩ := Expr.binary.inj he; omega]
      simp only [joinPlaceless, placelessChain, List.map_append, List.map_cons] at left ⊢
      rw [joinTier_append_of_joined left, joinTier_cons_eq hop]
      rfl
    · -- The operator is tighter: nothing was cut here.
      have whole : ∀ k ≤ op.level,
          (Expr.binary op l r offset).cut k = (.binary op l r offset, []) := fun k hk =>
        Expr.cut_of_level fun _ _ _ _ he => by
          obtain ⟨rfl, -⟩ := Expr.binary.inj he
          exact hk
      rw [whole _ (by omega), whole _ (by omega)]
      rfl
  | .numeral _ | .text _ _ | .var _ | .assign _ _ | .call _ _ _ | .ret _ _ | .branch _ _ _ _
  | .whileLoop _ _ _ | .loop _ _ | .breakTo _ | .continueTo _ | .function _ _ _ _ => rfl

/-- **The five tiers put an expression back that was taken apart at every operator.** -/
theorem assemble_cut (e : Expr) :
    (assemble (e.cut 5).1 (e.cut 5).2).placeless = e.placeless := by
  have whole : e.cut 0 = (e, []) := Expr.cut_of_level fun _ _ _ _ _ => Nat.zero_le _
  have h₄ : joinTier .multiplicative (placelessChain (e.cut 5)).1 (placelessChain (e.cut 5)).2 =
    placelessChain (e.cut 4) := joinTier_cut .multiplicative e
  have h₃ : joinTier .additive (placelessChain (e.cut 4)).1 (placelessChain (e.cut 4)).2 =
    placelessChain (e.cut 3) := joinTier_cut .additive e
  have h₂ : joinTier .comparison (placelessChain (e.cut 3)).1 (placelessChain (e.cut 3)).2 =
    placelessChain (e.cut 2) := joinTier_cut .comparison e
  have h₁ : joinTier .equality (placelessChain (e.cut 2)).1 (placelessChain (e.cut 2)).2 =
    placelessChain (e.cut 1) := joinTier_cut .equality e
  have h₀ : joinTier .logical (placelessChain (e.cut 1)).1 (placelessChain (e.cut 1)).2 =
    placelessChain (e.cut 0) := joinTier_cut .logical e
  rw [placeless_assemble]
  show (Tier.descending.foldl (fun chain tier => joinTier tier chain.1 chain.2)
    (placelessChain (e.cut 5))).1 = _
  simp only [Tier.descending, List.foldl_cons, List.foldl_nil, h₄, h₃, h₂, h₁, h₀, whole]
  rfl

end Radix
