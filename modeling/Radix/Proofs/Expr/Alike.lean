import Mathlib.Data.List.Forall2
import Radix.Proofs.Expr.Parts

/-!
# Proofs/Expr/Alike — expressions that differ in what they remember

Texts, calls, returns and operators remember where they were written.  Two expressions are alike if
they are the same but for that; a `Likeness` says how far what they remember may differ.
-/

namespace Radix

/-- How far two expressions may differ in what they remember of where they were written. -/
structure Likeness where
  /-- A text and its offset, and another text and its offset. -/
  text : QuotedText → Nat → QuotedText → Nat → Prop
  /-- The offsets of calls and returns. -/
  offset : Nat → Nat → Prop
  /-- The offsets of operators. -/
  anchor : Option Nat → Option Nat → Prop

/-- The expressions are the same, as far as the likeness says. -/
inductive Expr.Alike (L : Likeness) : Expr → Expr → Prop
  | numeral (x) : Alike L (.numeral x) (.numeral x)
  | text {q o q' o'} : L.text q o q' o' → Alike L (.text q o) (.text q' o')
  | var (name) : Alike L (.var name) (.var name)
  | assign {name e e'} : Alike L e e' → Alike L (.assign name e) (.assign name e')
  | binary {op l r o l' r' o'} : Alike L l l' → Alike L r r' → L.anchor o o' →
    Alike L (.binary op l r o) (.binary op l' r' o')
  | call {name args o args' o'} : List.Forall₂ (Alike L) args args' → L.offset o o' →
    Alike L (.call name args o) (.call name args' o')
  | ret {e o e' o'} : Alike L e e' → L.offset o o' → Alike L (.ret e o) (.ret e' o')
  | branch {label c yes c' yes'} : Alike L c c' → List.Forall₂ (Alike L) yes yes' →
    Alike L (.branch label c yes none) (.branch label c' yes' none)
  | branchElse {label c yes no c' yes' no'} : Alike L c c' → List.Forall₂ (Alike L) yes yes' →
    List.Forall₂ (Alike L) no no' →
    Alike L (.branch label c yes (some no)) (.branch label c' yes' (some no'))
  | whileLoop {label c body c' body'} : Alike L c c' → List.Forall₂ (Alike L) body body' →
    Alike L (.whileLoop label c body) (.whileLoop label c' body')
  | loop {label body body'} : List.Forall₂ (Alike L) body body' →
    Alike L (.loop label body) (.loop label body')
  | breakTo (label) : Alike L (.breakTo label) (.breakTo label)
  | continueTo (label) : Alike L (.continueTo label) (.continueTo label)
  | function {name params returns body body'} : List.Forall₂ (Alike L) body body' →
    Alike L (.function name params returns body) (.function name params returns body')

/-- What an expression remembers may be left as it is, if the likeness allows that. -/
theorem Expr.alike_self {L : Likeness} (text : ∀ q o, L.text q o q o) (offset : ∀ o, L.offset o o)
    (anchor : ∀ o, L.anchor o o) (e : Expr) : e.Alike L e := by
  induction e using Expr.parts_induction with
  | step e ih =>
    have all : ∀ es : List Expr, (∀ x ∈ es, x ∈ e.parts) → List.Forall₂ (Alike L) es es :=
      fun es h => List.forall₂_same.mpr fun x hx => ih x (h x hx)
    cases e with
    | numeral x => exact .numeral x
    | text q o => exact .text (text q o)
    | var name => exact .var name
    | assign name value => exact .assign (ih value (by simp [parts]))
    | binary op l r o =>
      exact .binary (ih l (by simp [parts])) (ih r (by simp [parts])) (anchor o)
    | call name args o => exact .call (all args fun _ h => h) (offset o)
    | ret value o => exact .ret (ih value (by simp [parts])) (offset o)
    | branch label c yes no =>
      have hc := ih c (by simp [parts])
      have hy := all yes fun x h => by simp [parts, h]
      cases no with
      | none => exact .branch hc hy
      | some no => exact .branchElse hc hy (all no fun x h => by simp [parts, h])
    | whileLoop label c body =>
      exact .whileLoop (ih c (by simp [parts])) (all body fun x h => by simp [parts, h])
    | loop label body => exact .loop (all body fun _ h => h)
    | breakTo label => exact .breakTo label
    | continueTo label => exact .continueTo label
    | function name params returns body => exact .function (all body fun _ h => h)

/-- Nothing differs. -/
def Likeness.exact : Likeness where
  text q o q' o' := q = q' ∧ o = o'
  offset o o' := o = o'
  anchor o o' := o = o'

theorem Expr.alike_exact (e : Expr) : e.Alike .exact e :=
  e.alike_self (L := .exact) (fun _ _ => ⟨rfl, rfl⟩) (fun _ => rfl) fun _ => rfl

/-! ## Chains -/

/-- The links are the same, as far as the likeness says. -/
structure Link.Alike (L : Likeness) (l l' : Link) : Prop where
  op : l.op = l'.op
  offset : L.offset l.offset l'.offset
  operand : l.operand.Alike L l'.operand

section Chains

variable {L : Likeness} (anchored : ∀ {o o'}, L.offset o o' → L.anchor (some o) (some o'))

include anchored

theorem joinTier_alike (tier : Tier) {first first' : Expr} {ls ls' : List Link}
    (hf : first.Alike L first') (hl : List.Forall₂ (Link.Alike L) ls ls') :
    (joinTier tier first ls).1.Alike L (joinTier tier first' ls').1 ∧
      List.Forall₂ (Link.Alike L) (joinTier tier first ls).2 (joinTier tier first' ls').2 := by
  induction hl generalizing first first' with
  | nil => exact ⟨hf, .nil⟩
  | @cons l l' ls ls' h _ ih =>
    by_cases ht : l.op.tier = tier
    · rw [joinTier_cons_eq ht, joinTier_cons_eq (h.op ▸ ht), ← h.op]
      exact ih (.binary hf h.operand (anchored h.offset))
    · rw [joinTier_cons_ne ht, joinTier_cons_ne (h.op ▸ ht)]
      obtain ⟨h₁, h₂⟩ := ih h.operand
      exact ⟨hf, .cons ⟨h.op, h.offset, h₁⟩ h₂⟩

/-- Chains that are alike are grouped alike. -/
theorem assemble_alike {first first' : Expr} {ls ls' : List Link} (hf : first.Alike L first')
    (hl : List.Forall₂ (Link.Alike L) ls ls') :
    (assemble first ls).Alike L (assemble first' ls') := by
  have folded : ∀ (tiers : List Tier) (c c' : Expr × List Link), c.1.Alike L c'.1 →
      List.Forall₂ (Link.Alike L) c.2 c'.2 →
      (tiers.foldl (fun chain tier => joinTier tier chain.1 chain.2) c).1.Alike L
        (tiers.foldl (fun chain tier => joinTier tier chain.1 chain.2) c').1 := by
    intro tiers
    induction tiers with
    | nil => exact fun _ _ h _ => h
    | cons tier tiers ih =>
      intro c c' h₁ h₂
      obtain ⟨h₁, h₂⟩ := joinTier_alike anchored tier h₁ h₂
      exact ih _ _ h₁ h₂
  exact folded _ _ _ hf hl

end Chains

end Radix
