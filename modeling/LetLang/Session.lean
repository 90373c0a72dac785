import LetLang.Parser.Program
import LetLang.Text.Lines
import LetLang.Tree.Printer

/-!
# Sessions — a prompt, a line, an answer

A session answers its input line by line, each line by itself.  A prompt stands before every line
and once more at the end of the input.  A line that is not UTF-8 ends the session.
-/

namespace LetLang

/-! ## 1. What is asked of a session -/

/-- What is shown of a line. -/
inductive Mode where
  /-- The tokens of the line, one below the other. -/
  | tokens
  /-- The program of the line, or a report of its errors. -/
  | parse
deriving DecidableEq, Repr, Inhabited

/-- How a session behaves. -/
structure Config where
  prompt : String := ">> "
  mode : Mode := .tokens
deriving DecidableEq, Repr, Inhabited

/-- Why a session ended before its input did. -/
inductive InputError where
  | invalidUtf8
deriving DecidableEq, Repr

def InputError.message : InputError → String
  | invalidUtf8 => "stream did not contain valid UTF-8"

/-! ## 2. One line -/

/-- The dump of a text: its tokens before the first end, each on a line. -/
def dumpTokens (text : String) : String :=
  String.join (((tokenize text).takeWhile (!·.is .eof)).map fun t => t.dump ++ "\n")

/-- The printed program of a text, or the report of the errors in it. -/
def printProgram (text : String) : String :=
  match parse text with
  | (program, []) => program.text ++ "\n"
  | (_, errors) => SyntaxError.report errors

example : dumpTokens "let x = 10;" =
    "Let ()\nIdentifier (x)\nAssignment ()\nInteger (10)\nSemicolon ()\n" := by
  decide +kernel

example : printProgram "-a * b; f(1, x + 2 < 3)" = "((-a) * b);f(1, ((x + 2) < 3))\n" := by
  decide +kernel

namespace Mode

/-- What is shown of a text. -/
def answer : Mode → String → String
  | tokens => dumpTokens
  | parse => printProgram

/-- What is shown of a line of bytes. -/
def answerLine (mode : Mode) (line : List UInt8) : Except InputError String :=
  match Text.decode? (Text.chomp line) with
  | some text => .ok (mode.answer text)
  | none => .error .invalidUtf8

end Mode

/-! ## 3. Whole sessions -/

/-- What a session wrote, and why it ended early if it did. -/
structure Transcript where
  output : String
  error? : Option InputError
deriving DecidableEq, Repr

namespace Config

/-- The session over these lines. -/
def overLines (config : Config) : List (List UInt8) → Transcript
  | [] => ⟨config.prompt, none⟩
  | line :: rest =>
    match config.mode.answerLine line with
    -- the prompt was out before the line was read
    | .error e => ⟨config.prompt, some e⟩
    | .ok answer =>
      let later := config.overLines rest
      ⟨config.prompt ++ answer ++ later.output, later.error?⟩

/-- The session over a stream of bytes. -/
def session (config : Config) (input : List UInt8) : Transcript :=
  config.overLines (Text.lines input)

end Config

end LetLang
