import LetLang.Token.Basic

/-!
# Syntax trees — programs, statements and expressions

A program is a list of statements.  Every node keeps the token it was made from.  Parentheses have
no node of their own: they show only in the shape of the tree.
-/

namespace LetLang

/-! ## 1. Expressions -/

/-- A name, with the token that spells it. -/
structure Identifier where
  token : Token
  name : String
deriving DecidableEq, Repr, Inhabited

/-- The identifier that a token spells. -/
def Identifier.ofToken (t : Token) : Identifier :=
  ⟨t, t.literal⟩

/-- An expression. -/
inductive Expr where
  | identifier (name : Identifier)
  | integer (token : Token) (value : Int64)
  | boolean (token : Token) (value : Bool)
  | unary (token : Token) (operator : String) (right : Expr)
  | binary (token : Token) (operator : String) (left right : Expr)
  /-- A call; the token is the opening parenthesis. -/
  | call (token : Token) (function : Expr) (arguments : List Expr)
deriving Inhabited

namespace Expr

/-- The token a node was made from. -/
def token : Expr → Token
  | identifier name => name.token
  | integer token _ | boolean token _ => token
  | unary token _ _ | binary token _ _ _ | call token _ _ => token

def literal (e : Expr) : String :=
  e.token.literal

end Expr

/-! ## 2. Statements -/

/-- A statement. -/
inductive Statement where
  | letStatement (token : Token) (name : Identifier) (value? : Option Expr)
  | returnStatement (token : Token) (value? : Option Expr)
  /-- An expression by itself; the token is its first. -/
  | expression (token : Token) (value : Expr)
deriving Inhabited

namespace Statement

/-- The token a statement begins with. -/
def token : Statement → Token
  | letStatement token _ _ | returnStatement token _ | expression token _ => token

def literal (s : Statement) : String :=
  s.token.literal

/-- Whether a statement is an expression by itself. -/
def isExpression : Statement → Bool
  | expression _ _ => true
  | _ => false

end Statement

/-! ## 3. Programs -/

/-- A program: its statements, in the order of the source. -/
structure Program where
  statements : List Statement
deriving Inhabited

namespace Program

def empty : Program := ⟨[]⟩

def length (p : Program) : Nat :=
  p.statements.length

def isEmpty (p : Program) : Bool :=
  p.statements.isEmpty

/-- The literal of the first statement's token; empty if there is no statement. -/
def literal (p : Program) : String :=
  match p.statements with
  | [] => ""
  | s :: _ => s.literal

end Program

end LetLang
