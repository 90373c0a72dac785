import LetLang.Parser.Expression

/-!
# Reading statements — by their first token

A statement is read by the rule of its first token, or as an expression if an expression can start
there.  It is left on its last token, the semicolon after it included.  Like those of expressions
the readers run in every monad to which computations on a parser lift, and take the way to read a
value as a parameter.
-/

namespace LetLang

open Token ParseM

variable {m : Type → Type} [Monad m] [MonadLiftT ParseM m]

/-- The statement that gives a value to a name. -/
def ParseM.letStatement (value : m Expr) : m Statement := do
  let token ← current
  let name ← expectPeek .identifier
  let _ ← expectPeek .assignment
  let _ ← advance
  let value ← value
  skipSemicolon
  return .letStatement token (.ofToken name) (some value)

/-- The value that a statement gives back: none if the statement ends here. -/
def ParseM.returnValue? (value : m Expr) : m (Option Expr) := do
  let token ← current
  if token.is .semicolon || token.is .eof then
    return none
  else
    return some (← value)

/-- The statement that gives back a value, or none. -/
def ParseM.returnStatement (value : m Expr) : m Statement := do
  let token ← advance
  let value? ← returnValue? value
  -- without a value the current token is already the semicolon, and one more may follow it
  skipSemicolon
  return .returnStatement token value?

/-- The statement that is an expression by itself. -/
def ParseM.expressionStatement (value : m Expr) : m Statement := do
  let token ← current
  let value ← value
  skipSemicolon
  return .expression token value

/-- Reads a statement by its rule, given how to read its value. -/
def StatementRule.readOf (value : m Expr) : StatementRule → m Statement
  | .letStatement => ParseM.letStatement value
  | .returnStatement => ParseM.returnStatement value
  | .expression => ParseM.expressionStatement value

/-- Reads a statement by its rule. -/
def StatementRule.read (rule : StatementRule) : ParseM Statement :=
  rule.readOf (ParseM.expression .lowest)

/-- The statement that begins with the current token, given how to read its value; none if no
statement does. -/
def ParseM.statementOf? (value : m Expr) : m (Option Statement) := do
  let p ← (get : ParseM Parser)
  match p.rules.statement? p.current.kind with
  | some rule => return some (← rule.readOf value)
  | none =>
    -- an illegal token is no statement even where an expression could start with it
    if p.current.is .illegal then
      (throw (.illegalToken p.current.literal) : ParseM (Option Statement))
    else if (p.rules.start? p.current.kind).isSome then
      return some (← expressionStatement value)
    else
      return none

/-- The statement that begins with the current token; none if no statement does. -/
def ParseM.statement? : ParseM (Option Statement) :=
  statementOf? (expression .lowest)

end LetLang
