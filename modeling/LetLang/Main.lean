import LetLang.CommandLine

/-!
# The program — standard input to standard output

The session of the command line with its output written as it comes: a prompt is out before its
line is read.
-/

namespace LetLang

namespace Main

/-- Reads one line, with its line feed if it has one; nothing at the end of the input. -/
partial def readLine (input : IO.FS.Stream) (line : List UInt8) : IO (List UInt8) := do
  -- byte by byte, so that nothing behind the line is taken from the input
  let bytes ← input.read 1
  match bytes.toList with
  | [] => return line.reverse
  | b :: _ => if b = Text.lineFeed then return (b :: line).reverse else readLine input (b :: line)

/-- Runs a session and gives the exit code. -/
partial def runSession (config : Config) : IO UInt8 := do
  let input ← IO.getStdin
  let output ← IO.getStdout
  output.putStr config.prompt
  output.flush
  match ← readLine input [] with
  | [] => return CommandLine.sessionCode none
  | line =>
    match config.mode.answerLine line with
    | .ok answer =>
      output.putStr answer
      runSession config
    | .error e =>
      (← IO.getStderr).putStr (CommandLine.errorLine e)
      return CommandLine.sessionCode (some e)

/-- The program with these arguments; gives the exit code. -/
def run (arguments : List String) : IO UInt8 := do
  match CommandLine.request {} arguments with
  | .ok (.session config) => runSession config
  | _ =>
    let outcome := CommandLine.run arguments []
    (← IO.getStdout).putStr outcome.stdout
    (← IO.getStderr).putStr outcome.stderr
    return outcome.code

end Main

end LetLang

/-- The program. -/
def main (arguments : List String) : IO UInt32 :=
  UInt8.toUInt32 <$> LetLang.Main.run arguments
