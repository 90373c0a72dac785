import LetLang.Parser.State
import LetLang.Text.Decimal
import LetLang.Tree.Basic

/-!
# Reading expressions — by binding power

An expression starts by the rule of its first token and goes on as long as the next token binds
tighter than a floor.  Every rule is entered on the first token it owns and left on the last
token of what it built.  Operands, groups and arguments are expressions again, each one level
deeper than the expression that holds it; a chain of operators stays on its level.

The readers run in every monad to which computations on a parser lift.  The rules take the way to
read an operand as a parameter, and whole expressions the way to open a level, so that the number
of levels left is what the recursion runs on.
-/

namespace LetLang

open Token ParseM Bounds

variable {m : Type → Type} [Monad m] [MonadLiftT ParseM m]

/-! ## 1. How an expression starts -/

/-- The expression that the current token is by itself. -/
def ParseM.leaf : ParseM Expr := do
  let token ← current
  match token.kind with
  | .identifier => return .identifier (.ofToken token)
  | .integer =>
    match Text.Decimal.int64? token.literal with
    | some value => return .integer token value
    | none => throw (.numberTooLarge token.literal)
  | .kwTrue => return .boolean token true
  | .kwFalse => return .boolean token false
  | kind => throw (.noExpressionStart kind)

/-- The operation of the current operator on the operand after it. -/
def ParseM.unary (operand : Power → m Expr) : m Expr := do
  let operator ← advance
  let right ← operand .unary
  return .unary operator operator.literal right

/-- The expression between the current token and the parenthesis that closes the group. -/
def ParseM.group (operand : Power → m Expr) : m Expr := do
  let _ ← advance
  let inner ← operand .lowest
  let _ ← expectPeek .closeParen
  return inner

/-- Reads the start of an expression by its rule. -/
def StartRule.read (operand : Power → m Expr) : StartRule → m Expr
  | .leaf => ParseM.leaf
  | .unary => ParseM.unary operand
  | .group => ParseM.group operand

/-! ## 2. How an expression goes on -/

/-- The operation of the current operator on what stands before it and the operand after it. -/
def ParseM.binary (operand : Power → m Expr) (power : Power) (left : Expr) : m Expr := do
  let operator ← advance
  let right ← operand power
  return .binary operator operator.literal left right

variable [Bounds m]

/-- The arguments behind the commas that follow, in at most so many rounds. -/
def ParseM.moreArguments (operand : Power → m Expr) (rounds : Nat) : m (List Expr) :=
  match rounds with
  | 0 => usedUp do
    return []
  | rounds + 1 => do
    if ← peekIs .comma then
      -- onto the comma, and over it
      let _ ← advance
      let _ ← advance
      let argument ← operand .lowest
      let arguments ← moreArguments operand rounds
      return argument :: arguments
    else
      return []

/-- An argument and those behind the commas that follow. -/
def ParseM.argumentList (operand : Power → m Expr) : m (List Expr) := do
  let argument ← operand .lowest
  let arguments ← moreArguments operand (← rounds)
  return argument :: arguments

/-- The arguments of a call up to the parenthesis that closes it. -/
def ParseM.arguments (operand : Power → m Expr) : m (List Expr) := do
  if ← peekIs .closeParen then
    let _ ← advance
    return []
  else
    let _ ← advance
    let arguments ← argumentList operand
    let _ ← expectPeek .closeParen
    return arguments

/-- The call of what stands before the current token, which opens the arguments. -/
def ParseM.call (operand : Power → m Expr) (function : Expr) : m Expr := do
  let token ← current
  let arguments ← arguments operand
  return .call token function arguments

/-- Reads on from an expression by the rule of the current token and its power. -/
def FollowRule.read (operand : Power → m Expr) (power : Power) (left : Expr) :
    FollowRule → m Expr
  | .binary => ParseM.binary operand power left
  | .call => ParseM.call operand left

/-! ## 3. Whole expressions -/

/-- Goes on with an expression while the next token binds tighter than the floor, in at most so
many rounds. -/
def ParseM.climb (operand : Power → m Expr) (floor : Power) (rounds : Nat) (left : Expr) :
    m Expr :=
  match rounds with
  | 0 => usedUp do
    return left
  | rounds + 1 => do
    match (← (get : ParseM Parser)).follow? floor with
    | none => return left
    | some (power, rule) =>
      -- onto the operator, where its rule is entered
      let _ ← advance
      let longer ← rule.read operand power left
      climb operand floor rounds longer

/-- Goes on with an expression while the next token binds tighter than the floor. -/
def ParseM.climbing (operand : Power → m Expr) (floor : Power) (left : Expr) : m Expr := do
  climb operand floor (← rounds) left

/-- An expression whose operators all bind tighter than the floor, given how to read its
operands. -/
def ParseM.operation (operand : Power → m Expr) (floor : Power) : m Expr := do
  let p ← (get : ParseM Parser)
  match p.rules.start? p.current.kind with
  | none => (throw (.noExpressionStart p.current.kind) : ParseM Expr)
  | some rule =>
    let left ← rule.read operand
    climbing operand floor left

/-! ## 4. Levels -/

/-- An expression whose operators all bind tighter than the floor, at most so many levels deep,
given how a level is opened and closed. -/
def ParseM.expressionBy (nested : m Expr → m Expr) (levels : Nat) (floor : Power) : m Expr :=
  match levels with
  | 0 => usedUp (throw (.nestingTooDeep maxNesting) : ParseM Expr)
  | levels + 1 => nested (operation (expressionBy nested levels) floor)

/-- An expression whose operators all bind tighter than the floor, given how a level is opened and
closed.  There is one level more than may be opened, so that it is for `nested` to refuse it. -/
def ParseM.expressionIn (nested : m Expr → m Expr) (floor : Power) : m Expr := do
  expressionBy nested (maxNesting - (← (get : ParseM Parser)).depth + 1) floor

/-- An expression whose operators all bind tighter than the floor. -/
def ParseM.expression (floor : Power) : ParseM Expr :=
  expressionIn nested floor

end LetLang
