import LetLang.Token.Basic

/-!
# Syntax errors — causes, and how they are told

An error is a cause.  It has a name, a message, and for all causes but one a tip that tells the
reader more than the message; a report shows the tip where there is one.
-/

namespace LetLang

open Token

/-- Why a statement could not be read. -/
inductive SyntaxError where
  /-- The next token is of another kind than the one that has to follow. -/
  | unexpectedToken (expected found : Kind)
  | noExpressionStart (found : Kind)
  /-- A character that begins no lexeme stands where a statement should start. -/
  | illegalToken (literal : String)
  /-- The number does not fit the word that is to hold it. -/
  | numberTooLarge (literal : String)
  /-- More expressions are open at once than are allowed. -/
  | nestingTooDeep (limit : Nat)
deriving DecidableEq, Repr

namespace SyntaxError

/-! ## 1. What an error is about -/

def name : SyntaxError → String
  | unexpectedToken _ _ => "UnexpectedToken"
  | noExpressionStart _ => "NoPrefixHandler"
  | illegalToken _ => "IllegalToken"
  | numberTooLarge _ => "NumberParseError"
  | nestingTooDeep _ => "NestingTooDeep"

/-- The kind that had to follow, where one had to. -/
def expected? : SyntaxError → Option Kind
  | unexpectedToken expected _ => some expected
  | _ => none

/-- The kind of the token that was met instead, where the error is about a token. -/
def found? : SyntaxError → Option Kind
  | unexpectedToken _ found => some found
  | noExpressionStart found => some found
  | illegalToken _ => some .illegal
  | numberTooLarge _ => some .integer
  | nestingTooDeep _ => none

/-! ## 2. What is told -/

def message : SyntaxError → String
  | unexpectedToken expected found =>
    "expected next token to be " ++ expected.text ++ ", got " ++ found.text ++ " instead"
  | noExpressionStart found => "no prefix parse function for " ++ found.text ++ " found"
  | illegalToken literal => "illegal token: " ++ Text.quoted literal
  | numberTooLarge literal => "could not parse " ++ Text.quoted literal ++ " as integer"
  | nestingTooDeep limit => "expression nested deeper than " ++ Nat.repr limit ++ " levels"

/-- What a reader should look at, where there is more to say than the message does. -/
def tip? : SyntaxError → Option String
  | unexpectedToken expected found =>
    some ("expected next token to be `" ++ expected.text ++ "`, got `" ++ found.text ++
      "` instead")
  | noExpressionStart found => some ("`" ++ found.text ++ "` cannot start an expression")
  | illegalToken _ => none
  | numberTooLarge literal =>
    some ("Invalid integer: `" ++ literal ++ "`, is it above the integer limit?")
  | nestingTooDeep limit =>
    some ("expressions may nest at most " ++ Nat.repr limit ++ " levels deep")

def line (e : SyntaxError) : String :=
  "Error: " ++ e.name ++ " (" ++ e.tip?.getD e.message ++ ")\n"

example : (unexpectedToken .identifier .assignment).line =
    "Error: UnexpectedToken (expected next token to be `Identifier`, got `=` instead)\n" := by
  rfl

example : (illegalToken "@").line = "Error: IllegalToken (illegal token: \"@\")\n" := by
  decide +kernel

/-- A report: the errors in their order. -/
def report (errors : List SyntaxError) : String :=
  String.join (errors.map line)

end SyntaxError

end LetLang
