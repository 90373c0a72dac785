/-!
# Binding powers — how tightly an operator holds its operands

The powers form a chain from `lowest`, which every operator exceeds, up to calls.
-/

namespace LetLang

/-- The strength with which an operator binds. -/
inductive Power where
  | lowest
  | equality
  | relational
  | additive
  | multiplicative
  | unary
  | call
deriving DecidableEq, Repr, Inhabited

namespace Power

/-- Every power once, the weakest first. -/
def all : List Power :=
  [lowest, equality, relational, additive, multiplicative, unary, call]

theorem mem_all (p : Power) : p ∈ all := by
  cases p <;> decide

/-- The place of a power in the chain. -/
def rank : Power → Nat
  | lowest => 0
  | equality => 1
  | relational => 2
  | additive => 3
  | multiplicative => 4
  | unary => 5
  | call => 6

instance : LT Power := ⟨fun p q => p.rank < q.rank⟩

instance : LE Power := ⟨fun p q => p.rank ≤ q.rank⟩

theorem lt_iff_rank {p q : Power} : p < q ↔ p.rank < q.rank := Iff.rfl

theorem le_iff_rank {p q : Power} : p ≤ q ↔ p.rank ≤ q.rank := Iff.rfl

instance (p q : Power) : Decidable (p < q) :=
  decidable_of_iff (p.rank < q.rank) Iff.rfl

instance (p q : Power) : Decidable (p ≤ q) :=
  decidable_of_iff (p.rank ≤ q.rank) Iff.rfl

end Power

end LetLang
