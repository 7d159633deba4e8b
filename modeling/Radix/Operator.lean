/-!
# Operator — the binary operators and how tightly they bind

Fourteen operators on five tiers.  Operators of one tier group to the left, and those of a higher
tier bind tighter.
-/

namespace Radix

/-- The binary operators. -/
inductive Operator where
  | add | sub | mul | div
  | eq | strictEq | ne | strictNe
  | lt | le | gt | ge
  | and | or
  deriving Repr, DecidableEq

/-- How tightly an operator binds, from the loosest to the tightest. -/
inductive Tier where
  | logical | equality | comparison | additive | multiplicative
  deriving Repr, DecidableEq

/-- The tiers, the tightest first. -/
def Tier.descending : List Tier :=
  [.multiplicative, .additive, .comparison, .equality, .logical]

namespace Operator

/-- How an operator is written. -/
def symbol : Operator → String
  | .add => "+"
  | .sub => "-"
  | .mul => "*"
  | .div => "/"
  | .eq => "=="
  | .strictEq => "==="
  | .ne => "!="
  | .strictNe => "!=="
  | .lt => "<"
  | .le => "<="
  | .gt => ">"
  | .ge => ">="
  | .and => "&&"
  | .or => "||"

/-- The tier on which an operator stands. -/
def tier : Operator → Tier
  | .and | .or => .logical
  | .eq | .strictEq | .ne | .strictNe => .equality
  | .lt | .le | .gt | .ge => .comparison
  | .add | .sub => .additive
  | .mul | .div => .multiplicative

/-- All operators, each once. -/
def all : List Operator :=
  [.add, .sub, .mul, .div, .eq, .strictEq, .ne, .strictNe, .lt, .le, .gt, .ge, .and, .or]

theorem mem_all (op : Operator) : op ∈ all := by cases op <;> decide

/-- The operator that a symbol stands for. -/
def ofSymbol? (s : String) : Option Operator := all.find? (·.symbol = s)

end Operator

end Radix
