/-!
# Token kinds — their names, spellings and the keyword table

A token kind is one of twenty-seven classes of lexemes.  Every kind has a name; all but four
also have one fixed spelling, by which a reader sees them in messages.  Seven of the spellings
are words, and `Kind.ofWord` tells them apart from plain identifiers.
-/

namespace LetLang

namespace Token

/-- The class of a token. -/
inductive Kind where
  /-- The end of the tokens. -/
  | eof
  /-- A character that begins no lexeme. -/
  | illegal
  /-- A word that is not a keyword. -/
  | identifier
  /-- A run of decimal digits. -/
  | integer
  | assignment
  | equals
  | not
  | notEquals
  | less
  | greater
  | plus
  | dash
  | slash
  | star
  | comma
  | semicolon
  | openParen
  | closeParen
  | openCurly
  | closeCurly
  | kwFn
  | kwLet
  | kwReturn
  | kwTrue
  | kwFalse
  | kwIf
  | kwElse
deriving DecidableEq, Repr, Inhabited

namespace Kind

/-! ## 1. All kinds, and their names -/

/-- Every kind once, in the order in which kinds are listed. -/
def all : List Kind :=
  [eof, illegal, identifier, integer, assignment, equals, not, notEquals, less, greater,
    plus, dash, slash, star, comma, semicolon, openParen, closeParen, openCurly, closeCurly,
    kwFn, kwLet, kwReturn, kwTrue, kwFalse, kwIf, kwElse]

theorem mem_all (k : Kind) : k ∈ all := by
  cases k <;> decide

def name : Kind → String
  | eof => "EOF"
  | illegal => "Illegal"
  | identifier => "Identifier"
  | integer => "Integer"
  | assignment => "Assignment"
  | equals => "Equals"
  | not => "Not"
  | notEquals => "NotEquals"
  | less => "Less"
  | greater => "Greater"
  | plus => "Plus"
  | dash => "Dash"
  | slash => "Slash"
  | star => "Star"
  | comma => "Comma"
  | semicolon => "Semicolon"
  | openParen => "OpenParen"
  | closeParen => "CloseParen"
  | openCurly => "OpenCurly"
  | closeCurly => "CloseCurly"
  | kwFn => "Fn"
  | kwLet => "Let"
  | kwReturn => "Return"
  | kwTrue => "True"
  | kwFalse => "False"
  | kwIf => "If"
  | kwElse => "Else"

def ofName? (name : String) : Option Kind :=
  all.find? (·.name == name)

theorem ofName?_name (k : Kind) : ofName? k.name = some k := by
  cases k <;> decide

/-! ## 2. Fixed spellings -/

/-- The one spelling of a kind, for the kinds whose lexemes are all alike. -/
def symbol? : Kind → Option String
  | eof | illegal | identifier | integer => none
  | assignment => some "="
  | equals => some "=="
  | not => some "!"
  | notEquals => some "!="
  | less => some "<"
  | greater => some ">"
  | plus => some "+"
  | dash => some "-"
  | slash => some "/"
  | star => some "*"
  | comma => some ","
  | semicolon => some ";"
  | openParen => some "("
  | closeParen => some ")"
  | openCurly => some "\x7b"
  | closeCurly => some "\x7d"
  | kwFn => some "fn"
  | kwLet => some "let"
  | kwReturn => some "return"
  | kwTrue => some "true"
  | kwFalse => some "false"
  | kwIf => some "if"
  | kwElse => some "else"

/-- How a kind is shown to a reader: by its spelling if it has one, by its name otherwise. -/
def text (k : Kind) : String :=
  k.symbol?.getD k.name

/-! ## 3. Keywords -/

/-- The keywords, sorted by word. -/
def keywords : List (String × Kind) :=
  [("else", kwElse), ("false", kwFalse), ("fn", kwFn), ("if", kwIf), ("let", kwLet),
    ("return", kwReturn), ("true", kwTrue)]

/-- The kind of a word: a keyword if the table has exactly this word, an identifier otherwise. -/
def ofWord (word : String) : Kind :=
  (keywords.lookup word).getD identifier

end Kind

end Token

end LetLang
