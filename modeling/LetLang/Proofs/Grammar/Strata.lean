import Mathlib.Algebra.Group.Nat.Defs
import LetLang.Parser.Rules
import LetLang.Text.Decimal
import LetLang.Tree.Basic

/-!
# Strata — the grammar of expressions

Expressions come in seven strata, each one of which may stand wherever a looser one may.  Four of
them have operators between two operands, the left one of the same stratum and the right one of
the next tighter, so that chains lean to the left.  `Stratum.Derives` says which tokens make up an
expression of a stratum, which tree they have, and how many expressions are open at once in it:
an operand on the right, a group and an argument each open one inside the expression that holds
them, an operand on the left does not.
-/

namespace LetLang

open Token

/-! ## 1. Strata and their operators -/

/-- A layer of the grammar of expressions, the loosest first. -/
inductive Stratum where
  | equality
  | relational
  | additive
  | multiplicative
  | unary
  | call
  | primary
deriving DecidableEq, Repr

namespace Stratum

/-- The operators between two operands of a stratum. -/
def operators : Stratum → List Kind
  | equality => [.equals, .notEquals]
  | relational => [.less, .greater]
  | additive => [.plus, .dash]
  | multiplicative => [.star, .slash]
  | unary | call | primary => []

/-- The next tighter stratum. -/
def tighter : Stratum → Stratum
  | equality => relational
  | relational => additive
  | additive => multiplicative
  | multiplicative => unary
  | unary => call
  | call | primary => primary

/-! ## 2. Derivations -/

mutual

/-- The tokens of an expression of a stratum, its tree, and how many expressions are open at once
in it. -/
inductive Derives : Stratum → List Token → Expr → Nat → Prop
  | tighter {s : Stratum} {ts : List Token} {e : Expr} {n : Nat}
      (inner : Derives s.tighter ts e n) : Derives s ts e n
  | binary {s : Stratum} {operator : Token} {ls rs : List Token} {l r : Expr} {m n : Nat}
      (operator_kind : operator.kind ∈ s.operators) (left : Derives s ls l m)
      (right : Derives s.tighter rs r n) :
      Derives s (ls ++ operator :: rs) (.binary operator operator.literal l r) (max m (n + 1))
  | unary {operator : Token} {rs : List Token} {r : Expr} {n : Nat}
      (operator_kind : operator.kind = .not ∨ operator.kind = .dash)
      (right : Derives .unary rs r n) :
      Derives .unary (operator :: rs) (.unary operator operator.literal r) (n + 1)
  | emptyCall {opening closing : Token} {fs : List Token} {f : Expr} {n : Nat}
      (opening_kind : opening.kind = .openParen) (closing_kind : closing.kind = .closeParen)
      (function : Derives .call fs f n) :
      Derives .call (fs ++ [opening, closing]) (.call opening f []) n
  | call {opening closing : Token} {fs ts : List Token} {f : Expr} {es : List Expr} {m n : Nat}
      (opening_kind : opening.kind = .openParen) (closing_kind : closing.kind = .closeParen)
      (function : Derives .call fs f m) (arguments : Arguments ts es n) :
      Derives .call (fs ++ opening :: (ts ++ [closing])) (.call opening f es) (max m n)
  | identifier {t : Token} (kind : t.kind = .identifier) :
      Derives .primary [t] (.identifier (.ofToken t)) 1
  | integer {t : Token} {v : Int64} (kind : t.kind = .integer)
      (numeral : Text.Decimal.isNumeral t.literal = true)
      (fits : Text.Decimal.value t.literal.toList ≤ 2 ^ 63 - 1)
      (value : v.toInt = Text.Decimal.value t.literal.toList) :
      Derives .primary [t] (.integer t v) 1
  | true {t : Token} (kind : t.kind = .kwTrue) : Derives .primary [t] (.boolean t true) 1
  | false {t : Token} (kind : t.kind = .kwFalse) : Derives .primary [t] (.boolean t false) 1
  | group {opening closing : Token} {ts : List Token} {e : Expr} {n : Nat}
      (opening_kind : opening.kind = .openParen) (closing_kind : closing.kind = .closeParen)
      (inner : Derives .equality ts e n) :
      Derives .primary (opening :: (ts ++ [closing])) e (n + 1)

/-- The tokens of one or more arguments with commas between them, their trees, and how many
expressions are open at once in them, each argument being open in the call. -/
inductive Arguments : List Token → List Expr → Nat → Prop
  | one {ts : List Token} {e : Expr} {n : Nat} (argument : Derives .equality ts e n) :
      Arguments ts [e] (n + 1)
  | more {comma : Token} {ts us : List Token} {e : Expr} {es : List Expr} {m n : Nat}
      (argument : Derives .equality ts e m) (comma_kind : comma.kind = .comma)
      (others : Arguments us es n) :
      Arguments (ts ++ comma :: us) (e :: es) (max (m + 1) n)

end

theorem Derives.starts {s : Stratum} {ts : List Token} {e : Expr} {n : Nat} :
    Derives s ts e n →
      ∃ t rest rule, ts = t :: rest ∧ Rules.standard.start? t.kind = some rule
  | .tighter inner => inner.starts
  | .binary _ left _ => by
    obtain ⟨t, rest, rule, rfl, hstart⟩ := left.starts
    exact ⟨t, _, rule, List.cons_append, hstart⟩
  | .unary operator_kind _ => by
    rcases operator_kind with hkind | hkind <;> exact ⟨_, _, .unary, rfl, by rw [hkind]; rfl⟩
  | .emptyCall _ _ function => by
    obtain ⟨t, rest, rule, rfl, hstart⟩ := function.starts
    exact ⟨t, _, rule, List.cons_append, hstart⟩
  | .call _ _ function _ => by
    obtain ⟨t, rest, rule, rfl, hstart⟩ := function.starts
    exact ⟨t, _, rule, List.cons_append, hstart⟩
  | .identifier kind => ⟨_, _, .leaf, rfl, by rw [kind]; rfl⟩
  | .integer kind _ _ _ => ⟨_, _, .leaf, rfl, by rw [kind]; rfl⟩
  | .true kind => ⟨_, _, .leaf, rfl, by rw [kind]; rfl⟩
  | .false kind => ⟨_, _, .leaf, rfl, by rw [kind]; rfl⟩
  | .group opening_kind _ _ => ⟨_, _, .group, rfl, by rw [opening_kind]; rfl⟩

theorem Arguments.starts {ts : List Token} {es : List Expr} {n : Nat} :
    Arguments ts es n →
      ∃ t rest rule, ts = t :: rest ∧ Rules.standard.start? t.kind = some rule
  | .one argument => argument.starts
  | .more argument _ _ => by
    obtain ⟨t, rest, rule, rfl, hstart⟩ := argument.starts
    exact ⟨t, _, rule, List.cons_append, hstart⟩

theorem Derives.ne_nil {s : Stratum} {ts : List Token} {e : Expr} {n : Nat}
    (h : Derives s ts e n) : ts ≠ [] := by
  obtain ⟨t, rest, _, rfl, _⟩ := h.starts
  exact List.cons_ne_nil _ _

theorem Arguments.ne_nil {ts : List Token} {es : List Expr} {n : Nat}
    (h : Arguments ts es n) : ts ≠ [] := by
  obtain ⟨t, rest, _, rfl, _⟩ := h.starts
  exact List.cons_ne_nil _ _

theorem Derives.pos {s : Stratum} {ts : List Token} {e : Expr} {n : Nat} :
    Derives s ts e n → 0 < n
  | .tighter inner => inner.pos
  | .binary _ _ _ => by omega
  | .unary _ _ => by omega
  | .emptyCall _ _ function => function.pos
  | .call _ _ function _ => by
    have hpos := function.pos
    omega
  | .identifier _ => by omega
  | .integer _ _ _ _ => by omega
  | .true _ => by omega
  | .false _ => by omega
  | .group _ _ _ => by omega

/-! ## 3. Strata by their tightness -/

/-- The place of a stratum, the loosest first. -/
def rank : Stratum → Nat
  | equality => 1
  | relational => 2
  | additive => 3
  | multiplicative => 4
  | unary => 5
  | call => 6
  | primary => 7

theorem rank_tighter {s : Stratum} (h : s ≠ .primary) : s.tighter.rank = s.rank + 1 := by
  cases s with
  | primary => exact absurd rfl h
  | _ => rfl

theorem rank_inj {s s' : Stratum} (h : s.rank = s'.rank) : s = s' := by
  cases s <;> cases s' <;> first | rfl | cases h

theorem Derives.loosen {s s' : Stratum} {ts : List Token} {e : Expr} {n : Nat}
    (h : s.Derives ts e n) (hle : s'.rank ≤ s.rank) : s'.Derives ts e n := by
  -- one step of `tighter` for each place between the two strata
  obtain ⟨d, hd⟩ := Nat.le.dest hle
  induction d generalizing s' with
  | zero => exact rank_inj hd ▸ h
  | succ d ih =>
    have hne : s' ≠ .primary := by
      rintro rfl
      have hmax : s.rank ≤ primary.rank := by cases s <;> decide
      omega
    have htighter := rank_tighter hne
    exact .tighter (ih (by omega) (by omega))

/-! ## 4. Strata and binding powers -/

/-- The power by which an expression of this stratum can be gone on with at the most. -/
def grip : Stratum → Power
  | equality => .equality
  | relational => .relational
  | additive => .additive
  | multiplicative => .multiplicative
  | unary => .unary
  | call | primary => .call

end Stratum

/-- The stratum of the expressions that are read above a floor; no operand is read above `call`. -/
def Power.stratum : Power → Stratum
  | .lowest => .equality
  | .equality => .relational
  | .relational => .additive
  | .additive => .multiplicative
  | .multiplicative | .unary => .unary
  | .call => .primary

namespace Stratum

variable {s : Stratum} {k : Kind} {power floor : Power}

/-- The operators of a stratum hold their operands by its grip, and what is read above the grip is
of the next tighter stratum. -/
theorem follow?_of_mem_operators (h : k ∈ s.operators) :
    Rules.standard.follow? k = some (s.grip, .binary) ∧ s.grip.stratum = s.tighter := by
  cases s <;> simp only [operators, List.mem_cons, List.not_mem_nil, or_false] at h <;>
    rcases h with rfl | rfl <;> exact ⟨rfl, rfl⟩

theorem exists_mem_operators (h : Rules.standard.follow? k = some (power, .binary)) :
    ∃ s : Stratum, k ∈ s.operators ∧ s.grip = power := by
  cases k <;> cases h
  case equals | notEquals => exact ⟨.equality, by decide, rfl⟩
  case less | greater => exact ⟨.relational, by decide, rfl⟩
  case plus | dash => exact ⟨.additive, by decide, rfl⟩
  case star | slash => exact ⟨.multiplicative, by decide, rfl⟩

theorem follow?_call_iff :
    Rules.standard.follow? k = some (power, .call) ↔ k = .openParen ∧ power = .call := by
  constructor
  · intro h
    cases k <;> cases h
    exact ⟨rfl, rfl⟩
  · rintro ⟨rfl, rfl⟩
    rfl

/-- A stratum with operators lies where its grip lies among the powers. -/
theorem rank_grip (h : k ∈ s.operators) : s.grip.rank = s.rank ∧ s.rank ≤ 4 := by
  cases s <;> first | exact absurd h List.not_mem_nil | exact ⟨rfl, by decide⟩

theorem rank_grip_le (s : Stratum) : s.grip.rank ≤ s.rank := by
  cases s <;> decide

theorem grip_le_tighter (s : Stratum) : s.grip ≤ s.tighter.grip := by
  cases s <;> decide

theorem rank_stratum_le (h : floor ≤ .unary) : floor.stratum.rank ≤ 5 := by
  cases floor <;> first | decide | exact absurd h (by decide)

theorem rank_stratum_le_succ (floor : Power) : floor.stratum.rank ≤ floor.rank + 1 := by
  cases floor <;> decide

theorem rank_stratum_le_of_lt (hop : k ∈ s.operators) (hlt : floor < s.grip) :
    floor.stratum.rank ≤ s.rank := by
  have hgrip := rank_grip hop
  have hsucc := rank_stratum_le_succ floor
  rw [Power.lt_iff_rank] at hlt
  omega

/-- A floor lies below the powers of the operators of its stratum and of all tighter ones. -/
theorem lt_grip_of_rank_stratum_le (hop : k ∈ s.operators) (hle : floor.stratum.rank ≤ s.rank) :
    floor < s.grip := by
  have hgrip := rank_grip hop
  -- only floors below the operators have a stratum next to their own place
  have hfloor : floor.stratum.rank ≤ 4 → floor.stratum.rank = floor.rank + 1 := by
    cases floor <;> decide
  rw [Power.lt_iff_rank]
  omega

theorem lt_call_of_rank_stratum_le (hle : floor.stratum.rank ≤ Stratum.call.rank) :
    floor < .call := by
  cases floor <;> first | decide | exact absurd hle (by decide)

theorem rank_le_of_grip_le {s' : Stratum} (hop : k ∈ s.operators) (hle : s.grip ≤ s'.grip) :
    s.rank ≤ s'.rank := by
  have hgrip := rank_grip hop
  have hgrip' := rank_grip_le s'
  rw [Power.le_iff_rank] at hle
  omega

theorem call_rank_le_of_grip (h : .call ≤ s.grip) : Stratum.call.rank ≤ s.rank := by
  cases s <;> first | decide | exact absurd h (by decide)

end Stratum

theorem Power.le_grip_stratum (floor : Power) : floor ≤ floor.stratum.grip := by
  cases floor <;> decide

end LetLang
