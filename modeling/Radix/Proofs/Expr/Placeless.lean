import Radix.Expr.Chain

/-!
# Proofs/Expr/Placeless — expressions up to offsets

`Expr.placeless` sets every recorded offset to 0, so two expressions are the same up to offsets if
they agree once they are placeless.  Grouping a chain does not look at offsets
(`placeless_assemble`).
-/

namespace Radix

mutual

/-- The expression with every recorded offset set to 0.  The places inside a text are not touched:
they belong to the text. -/
def Expr.placeless : Expr → Expr
  | .numeral x => .numeral x
  | .text quoted _ => .text quoted 0
  | .var name => .var name
  | .assign name value => .assign name value.placeless
  | .binary op left right _ => .binary op left.placeless right.placeless (some 0)
  | .call name args _ => .call name (placelessList args) 0
  | .ret value _ => .ret value.placeless 0
  | .branch label condition thenBody none =>
    .branch label condition.placeless (placelessList thenBody) none
  | .branch label condition thenBody (some elseBody) =>
    .branch label condition.placeless (placelessList thenBody) (some (placelessList elseBody))
  | .whileLoop label condition body => .whileLoop label condition.placeless (placelessList body)
  | .loop label body => .loop label (placelessList body)
  | .breakTo label => .breakTo label
  | .continueTo label => .continueTo label
  | .function name params returns body => .function name params returns (placelessList body)

/-- `Expr.placeless` on every expression of a list. -/
def placelessList : List Expr → List Expr
  | [] => []
  | e :: es => e.placeless :: placelessList es

end

theorem placelessList_eq_map (es : List Expr) : placelessList es = es.map Expr.placeless := by
  induction es with
  | nil => rfl
  | cons e es ih => rw [placelessList, ih, List.map_cons]

namespace Expr

@[simp] theorem placeless_call (name : String) (args : List Expr) (offset : Nat) :
    (call name args offset).placeless = call name (args.map placeless) 0 := by
  rw [placeless, placelessList_eq_map]

@[simp] theorem placeless_branch (label : Option String) (c : Expr) (yes : List Expr)
    (no : Option (List Expr)) : (branch label c yes no).placeless =
      branch label c.placeless (yes.map placeless) (no.map (List.map placeless)) := by
  match no with
  | none => rw [placeless, placelessList_eq_map, Option.map_none]
  | some es => rw [placeless, placelessList_eq_map, placelessList_eq_map, Option.map_some]

@[simp] theorem placeless_whileLoop (label : Option String) (c : Expr) (body : List Expr) :
    (whileLoop label c body).placeless = whileLoop label c.placeless (body.map placeless) := by
  rw [placeless, placelessList_eq_map]

@[simp] theorem placeless_loop (label : Option String) (body : List Expr) :
    (loop label body).placeless = loop label (body.map placeless) := by
  rw [placeless, placelessList_eq_map]

@[simp] theorem placeless_function (name : String) (params : List Param) (returns : Option String)
    (body : List Expr) : (function name params returns body).placeless =
      function name params returns (body.map placeless) := by
  rw [placeless, placelessList_eq_map]

end Expr

/-! ## Chains -/

/-- The link with its offsets set to 0. -/
def Link.placeless (l : Link) : Link := ⟨l.op, 0, l.operand.placeless⟩

/-- The chain with its offsets set to 0. -/
def placelessChain (chain : Expr × List Link) : Expr × List Link :=
  (chain.1.placeless, chain.2.map Link.placeless)

theorem placeless_joinTier (tier : Tier) (first : Expr) (ls : List Link) :
    placelessChain (joinTier tier first ls) =
      joinTier tier first.placeless (ls.map Link.placeless) := by
  induction ls generalizing first with
  | nil => rfl
  | cons l ls ih =>
    rw [List.map_cons]
    by_cases h : l.op.tier = tier
    · have h' : l.placeless.op.tier = tier := h
      rw [joinTier_cons_eq h, ih, joinTier_cons_eq h']
      rfl
    · have h' : l.placeless.op.tier ≠ tier := h
      have hrest : joinTier tier l.placeless.operand (ls.map Link.placeless) =
          placelessChain (joinTier tier l.operand ls) := (ih l.operand).symm
      rw [joinTier_cons_ne h, joinTier_cons_ne h', hrest]
      rfl

/-- **Grouping does not look at offsets.** -/
theorem placeless_assemble (first : Expr) (ls : List Link) :
    (assemble first ls).placeless = assemble first.placeless (ls.map Link.placeless) := by
  have folded : ∀ (tiers : List Tier) (chain : Expr × List Link),
      placelessChain (tiers.foldl (fun chain tier => joinTier tier chain.1 chain.2) chain) =
        tiers.foldl (fun chain tier => joinTier tier chain.1 chain.2) (placelessChain chain) := by
    intro tiers
    induction tiers with
    | nil => exact fun _ => rfl
    | cons tier tiers ih =>
      intro chain
      rw [List.foldl_cons, ih, placeless_joinTier, List.foldl_cons]
      rfl
  exact congrArg Prod.fst (folded Tier.descending (first, ls))

end Radix
