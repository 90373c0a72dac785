import LetLang.Tree.Basic

/-!
# Printed trees — source text with every operation in parentheses

An operation is printed inside parentheses, operands and arguments in their order, so the text
shows the shape of the tree.  Statements stand back to back: `let` and `return` end in a semicolon
of their own, and an expression gets one only if another statement follows.
-/

namespace LetLang

/-! ## 1. Expressions -/

namespace Expr

mutual

/-- The printed form of an expression. -/
def text : Expr → String
  | identifier name => name.name
  | integer token _ => token.literal
  | boolean token _ => token.literal
  | unary _ operator right => "(" ++ operator ++ right.text ++ ")"
  | binary _ operator left right =>
    "(" ++ left.text ++ " " ++ operator ++ " " ++ right.text ++ ")"
  | call _ function arguments => function.text ++ "(" ++ argumentsText arguments ++ ")"

/-- The arguments of a call, separated by commas. -/
def argumentsText : List Expr → String
  | [] => ""
  | [argument] => argument.text
  | argument :: arguments => argument.text ++ ", " ++ argumentsText arguments

end

end Expr

/-! ## 2. Statements -/

namespace Statement

/-- The printed form of an optional value: nothing if there is none. -/
def valueText (value? : Option Expr) : String :=
  (value?.map Expr.text).getD ""

/-- The printed form of a statement. -/
def text : Statement → String
  | letStatement token name value? =>
    token.literal ++ " " ++ name.name ++ " = " ++ valueText value? ++ ";"
  | returnStatement token value? => token.literal ++ " " ++ valueText value? ++ ";"
  | expression _ value => value.text

/-- The printed form of statements one after the other. -/
def listText : List Statement → String
  | [] => ""
  | [s] => s.text
  | s :: rest => s.text ++ (if s.isExpression then ";" else "") ++ listText rest

end Statement

/-! ## 3. Programs -/

/-- The printed form of a program. -/
def Program.text (p : Program) : String :=
  Statement.listText p.statements

end LetLang
