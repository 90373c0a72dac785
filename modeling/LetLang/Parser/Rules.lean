import LetLang.Parser.Power
import LetLang.Token.Kind

/-!
# Rules — what a token means at the start, inside and between expressions

A parser is driven by three tables over the kinds of tokens.  One says how a statement is read,
one how an expression starts, and one how an expression goes on and how tightly.  The rules
themselves are few; a table only says which kind of token calls for which of them.
-/

namespace LetLang

open Token

/-! ## 1. The rules -/

/-- How a statement is read. -/
inductive StatementRule where
  | letStatement
  | returnStatement
  | expression
deriving DecidableEq, Repr

/-- How an expression starts. -/
inductive StartRule where
  /-- The token is the whole expression. -/
  | leaf
  /-- The token is an operator and its operand follows. -/
  | unary
  /-- The token opens a group that a parenthesis closes. -/
  | group
deriving DecidableEq, Repr

/-- How an expression goes on, given what stands to the left. -/
inductive FollowRule where
  /-- The token is an operator and its right operand follows. -/
  | binary
  /-- The token opens a list of arguments that a parenthesis closes. -/
  | call
deriving DecidableEq, Repr

/-! ## 2. The tables -/

/-- The three tables of a parser. -/
structure Rules where
  /-- The rule for a statement that begins with a token of this kind. -/
  statement? : Kind → Option StatementRule
  /-- The rule for an expression that starts with a token of this kind. -/
  start? : Kind → Option StartRule
  /-- The rule for an expression that goes on with a token of this kind, and its power. -/
  follow? : Kind → Option (Power × FollowRule)

namespace Rules

/-- The binding power of a kind; the lowest if no expression goes on with it. -/
def power (rules : Rules) (k : Kind) : Power :=
  match rules.follow? k with
  | some (power, _) => power
  | none => .lowest

/-- The tables with one more, or one other, rule for statements. -/
def setStatement (rules : Rules) (k : Kind) (rule : StatementRule) : Rules :=
  { rules with statement? := fun l => if l = k then some rule else rules.statement? l }

/-- The tables with one more, or one other, rule for the start of an expression; the power of the
kind stays as it is. -/
def setStart (rules : Rules) (k : Kind) (rule : StartRule) : Rules :=
  { rules with start? := fun l => if l = k then some rule else rules.start? l }

def setFollow (rules : Rules) (k : Kind) (power : Power) (rule : FollowRule) : Rules :=
  { rules with follow? := fun l => if l = k then some (power, rule) else rules.follow? l }

/-- The tables of the language. -/
def standard : Rules where
  statement?
    | .kwLet => some .letStatement
    | .kwReturn => some .returnStatement
    | _ => none
  start?
    | .identifier | .integer | .kwTrue | .kwFalse => some .leaf
    | .not | .dash => some .unary
    | .openParen => some .group
    | _ => none
  follow?
    | .equals | .notEquals => some (.equality, .binary)
    | .less | .greater => some (.relational, .binary)
    | .plus | .dash => some (.additive, .binary)
    | .star | .slash => some (.multiplicative, .binary)
    | .openParen => some (.call, .call)
    | _ => none

end Rules

end LetLang
