import LetLang.Parser.Statement
import LetLang.Tree.Equality

/-!
# Reading programs — turn by turn to the end of the tokens

A program is read in turns.  Each turn begins on a token that is not the end and is a statement, a
token that begins none, or an error; the token on which it stops is passed, and the next turn
begins.  An error drops its statement and nothing else, so turns do not fail; they run in every
monad with a parser for a state.
-/

namespace LetLang

open Token Bounds

/-! ## 1. Turns -/

/-- What came of one turn. -/
inductive Turn where
  | statement (s : Statement)
  /-- The token begins no statement. -/
  | skipped
  /-- The statement was dropped for an error. -/
  | failed (e : SyntaxError)
deriving DecidableEq

namespace Turn

def statement? : Turn → Option Statement
  | statement s => some s
  | _ => none

def error? : Turn → Option SyntaxError
  | failed e => some e
  | _ => none

/-- The turn in which this came of looking for a statement. -/
def ofOutcome : Except SyntaxError (Option Statement) → Turn
  | .ok (some s) => statement s
  | .ok none => skipped
  | .error e => failed e

end Turn

section

variable {m : Type → Type} [Monad m] [MonadStateOf Parser m] [Bounds m]

/-- The turns up to the end of the tokens, in at most so many rounds, given what one turn is. -/
def Turn.upToEndWithin (turn : m Turn) (rounds : Nat) : m (List Turn) :=
  match rounds with
  | 0 => usedUp do
    return []
  | rounds + 1 => do
    if (← getThe Parser).current.is .eof then
      return []
    else
      let first ← turn
      modifyThe Parser Parser.advanced
      let others ← upToEndWithin turn rounds
      return first :: others

/-- The turns up to the end of the tokens, given what one turn is. -/
def Turn.upToEnd (turn : m Turn) : m (List Turn) := do
  upToEndWithin turn (← rounds)

/-- The program that these turns make; their errors are noted. -/
def Turn.program (turns : m (List Turn)) : m Program := do
  let turns ← turns
  modifyThe Parser fun p => { p with errors := p.errors ++ turns.filterMap Turn.error? }
  return ⟨turns.filterMap Turn.statement?⟩

end

namespace Parser

/-- One turn: what came of it, and the parser on the token where it stopped. -/
def turn (p : Parser) : Turn × Parser :=
  (outcome (ParseM.statement? p)).map Turn.ofOutcome id

/-- The turns up to the end of the tokens, in at most so many rounds, and the parser after them. -/
def turnsWithin (rounds : Nat) (p : Parser) : List Turn × Parser :=
  Turn.upToEndWithin (m := StateM Parser) turn rounds p

/-- The turns up to the end of the tokens, and the parser after them. -/
def turns (p : Parser) : List Turn × Parser :=
  Turn.upToEnd (m := StateM Parser) turn p

/-! ## 2. Programs -/

/-- The program up to the end of the tokens, and the parser after it, with the errors noted. -/
def program (p : Parser) : Program × Parser :=
  Turn.program (m := StateM Parser) turns p

end Parser

/-- The program of a source and the errors in it, both in the order of the source. -/
def parse (source : String) : Program × List SyntaxError :=
  let (program, last) := (Parser.start source).program
  (program, last.errors)

end LetLang
