import LetLang.Parser.Rules
import LetLang.SyntaxError
import LetLang.Token.Lexer

/-!
# The state of a parser — the tokens ahead, and what has been noted

A parser looks at two tokens: the current one and the next.  It moves only by `advance`, one token
at a time; behind the last token there are ends without end.  `ParseM` is a computation on such a
state that gives a value or a syntax error, and in both cases the state after it.
-/

namespace LetLang

open Token

/-! ## 1. Parsers -/

/-- The greatest number of expressions that may be open at once. -/
def maxNesting : Nat := 256

/-- The state of a parser. -/
structure Parser where
  /-- The tokens that have not been passed; the first is the current one. -/
  ahead : List Token
  errors : List SyntaxError
  /-- The number of expressions that are open. -/
  depth : Nat
  rules : Rules

namespace Parser

/-- A parser at the start of a source, with the rules of the language. -/
def start (source : String) : Parser :=
  ⟨(Text.Cursor.start source).tokens, [], 0, .standard⟩

/-- The token that is being read. -/
def current (p : Parser) : Token :=
  p.ahead.headD Token.eof

/-- The token after the current one. -/
def peek (p : Parser) : Token :=
  p.ahead.tail.headD Token.eof

def advanced (p : Parser) : Parser :=
  { p with ahead := p.ahead.tail }

@[simp] theorem current_advanced (p : Parser) : p.advanced.current = p.peek := rfl

@[simp] theorem ahead_advanced (p : Parser) : p.advanced.ahead = p.ahead.tail := rfl

/-- The rule by which an expression goes on with the next token, and its power, if that power is
above `floor`; a semicolon always ends an expression. -/
def follow? (p : Parser) (floor : Power) : Option (Power × FollowRule) :=
  -- also where a rule is set for semicolons
  if p.peek.is .semicolon then
    none
  else
    match p.rules.follow? p.peek.kind with
    | some (power, rule) => if floor < power then some (power, rule) else none
    | none => none

end Parser

/-! ## 2. Computations on a parser -/

/-- A computation that moves a parser and may end in a syntax error. -/
abbrev ParseM := EStateM SyntaxError Parser

/-- What comes of a computation, and where it stops. -/
def outcome {σ α : Type} : EStateM.Result SyntaxError σ α → Except SyntaxError α × σ
  | .ok a s => (.ok a, s)
  | .error e s => (.error e, s)

namespace ParseM

/-- The token that is being read. -/
def current : ParseM Token := fun p => .ok p.current p

def peekIs (k : Kind) : ParseM Bool := fun p => .ok (p.peek.is k) p

/-- Goes one token further and gives the token that was current. -/
def advance : ParseM Token := fun p => .ok p.current p.advanced

/-- Goes on to the next token, which has to be of the given kind, and gives it; otherwise stays. -/
def expectPeek (k : Kind) : ParseM Token := fun p =>
  if p.peek.is k then
    .ok p.peek p.advanced
  else
    .error (.unexpectedToken k p.peek.kind) p

/-- Goes over the next token if it is a semicolon. -/
def skipSemicolon : ParseM Unit := fun p =>
  if p.peek.is .semicolon then .ok () p.advanced else .ok () p

/-! ## 3. Nesting -/

/-- Opens one more expression, unless as many as allowed are open. -/
def enterNesting : ParseM Unit := fun p =>
  if p.depth < maxNesting then
    .ok () { p with depth := p.depth + 1 }
  else
    .error (.nestingTooDeep maxNesting) p

/-- Closes the expression that was opened last. -/
def exitNesting : ParseM Unit := fun p =>
  .ok () { p with depth := p.depth - 1 }

/-- A computation inside one more open expression, which is closed however the computation
ends. -/
def nested {α : Type} (body : ParseM α) : ParseM α := do
  enterNesting
  tryFinally body exitNesting

/-- Below the limit the body runs one deeper, and the depth goes down again behind it. -/
theorem nested_of_lt {α : Type} {body : ParseM α} {p : Parser} (h : p.depth < maxNesting) :
    nested body p =
      match body { p with depth := p.depth + 1 } with
      | .ok a q => .ok a { q with depth := q.depth - 1 }
      | .error e q => .error e { q with depth := q.depth - 1 } := by
  simp only [nested, bind, EStateM.bind, enterNesting, if_pos h, tryFinally,
    MonadFinally.tryFinally', Functor.map, EStateM.map, exitNesting]
  cases body { p with depth := p.depth + 1 } <;> rfl

theorem nested_of_not_lt {α : Type} {body : ParseM α} {p : Parser} (h : ¬ p.depth < maxNesting) :
    nested body p = .error (.nestingTooDeep maxNesting) p := by
  simp only [nested, bind, EStateM.bind, enterNesting, if_neg h]

end ParseM

/-! ## 4. Bounds -/

/-- A monad that bounds how long a reader goes on. -/
class Bounds (m : Type → Type) where
  /-- How many rounds a loop is given where it begins. -/
  rounds : m Nat
  /-- What comes of a reader whose rounds or levels are used up, where this was left to do. -/
  usedUp {α : Type} : m α → m α

/-- Every round of a loop takes a token, so it has done with fewer rounds than this. -/
def Parser.rounds (p : Parser) : Nat :=
  p.ahead.length + 1

instance : Bounds ParseM where
  rounds p := .ok p.rounds p
  usedUp left := left

instance : Bounds (StateM Parser) where
  rounds p := (p.rounds, p)
  usedUp left := left

end LetLang
