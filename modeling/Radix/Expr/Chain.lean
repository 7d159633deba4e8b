import Radix.Expr.Basic

/-!
# Expr/Chain — grouping operands by how tightly their operators bind

Operands joined by operators are first read as a flat chain.  `assemble` groups it: tier by tier,
the tightest first, the operators of one tier take their neighbours from left to right.
-/

namespace Radix

/-- An operator of a chain with its offset, and the operand to its right. -/
structure Link where
  op : Operator
  offset : Nat
  operand : Expr

/-- The chain with the operators of one tier taken in: the operand in front, and the links that
remain. -/
def joinTier (tier : Tier) (first : Expr) : List Link → Expr × List Link
  | [] => (first, [])
  | l :: ls =>
    if l.op.tier = tier then
      joinTier tier (.binary l.op first l.operand (some l.offset)) ls
    else
      let (operand, rest) := joinTier tier l.operand ls
      (first, { l with operand } :: rest)

theorem joinTier_cons_eq {tier : Tier} {l : Link} (h : l.op.tier = tier) (first : Expr)
    (ls : List Link) : joinTier tier first (l :: ls) =
      joinTier tier (.binary l.op first l.operand (some l.offset)) ls := by
  rw [joinTier, if_pos h]

theorem joinTier_cons_ne {tier : Tier} {l : Link} (h : l.op.tier ≠ tier) (first : Expr)
    (ls : List Link) : joinTier tier first (l :: ls) =
      (first, ⟨l.op, l.offset, (joinTier tier l.operand ls).1⟩ ::
        (joinTier tier l.operand ls).2) := by
  rw [joinTier, if_neg h]

/-- The expression that a chain stands for. -/
def assemble (first : Expr) (links : List Link) : Expr :=
  (Tier.descending.foldl (fun chain tier => joinTier tier chain.1 chain.2) (first, links)).1

/-- No operator of the tier is left once it is taken in. -/
theorem joinTier_links (tier : Tier) (first : Expr) (links : List Link) :
    ∀ l ∈ (joinTier tier first links).2, l.op.tier ≠ tier ∧ ∃ m ∈ links, l.op = m.op := by
  induction links generalizing first with
  | nil => simp [joinTier]
  | cons m ls ih =>
    intro l hl
    by_cases h : m.op.tier = tier
    · simp only [joinTier, h, if_true] at hl
      obtain ⟨h₁, n, hn, h₂⟩ := ih _ l hl
      exact ⟨h₁, n, by simp [hn], h₂⟩
    · simp only [joinTier, h, if_false, List.mem_cons] at hl
      rcases hl with rfl | hl
      · exact ⟨h, m, by simp, rfl⟩
      · obtain ⟨h₁, n, hn, h₂⟩ := ih _ l hl
        exact ⟨h₁, n, by simp [hn], h₂⟩

end Radix
