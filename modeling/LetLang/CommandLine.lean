import LetLang.Session

/-!
# The command line — options, and what a run leaves behind

The arguments are read from left to right.  The first call for help or for the version decides the
run, and so does the first mistake; otherwise the options set up a session.
-/

namespace LetLang

namespace CommandLine

/-! ## 1. What is asked for -/

/-- What the arguments ask for. -/
inductive Request where
  | help
  /-- The name and version of the program. -/
  | version
  | session (config : Config)
deriving DecidableEq, Repr

/-- A mistake in the arguments. -/
inductive UsageError where
  /-- No option is called like this, and there are no other arguments. -/
  | unexpected (argument : String)
  | repeated (option : String)
  | missingValue (option : String)
deriving DecidableEq, Repr

def UsageError.message : UsageError → String
  | unexpected argument => "error: unexpected argument '" ++ argument ++ "' found\n"
  | repeated option => "error: the argument '" ++ option ++ "' cannot be used multiple times\n"
  | missingValue option => "error: a value is required for '" ++ option ++ "'\n"

/-! ## 2. Reading arguments -/

/-- The options met so far. -/
structure Options where
  parse : Bool := false
  prompt? : Option String := none
deriving DecidableEq, Repr

namespace Options

def config (options : Options) : Config where
  prompt := options.prompt?.getD ({} : Config).prompt
  mode := if options.parse then .parse else .tokens

/-- The options with the one that asks for programs instead of tokens. -/
def setParse (options : Options) : Except UsageError Options :=
  if options.parse then
    .error (.repeated "--parse")
  else
    .ok { options with parse := true }

def setPrompt (options : Options) (prompt : String) : Except UsageError Options :=
  if options.prompt?.isSome then
    .error (.repeated "--prompt")
  else
    .ok { options with prompt? := some prompt }

end Options

/-- The value that is joined to the option for the prompt by an equals sign. -/
def joinedPrompt? (argument : String) : Option String :=
  let option := "--prompt=".toList
  if option.isPrefixOf argument.toList then
    some (String.ofList (argument.toList.drop option.length))
  else
    none

/-- Whether an argument can be the value of the option before it: one with a dash in front cannot,
but a dash alone can. -/
def isValue (argument : String) : Bool :=
  argument.toList.head? ≠ some '-' || argument = "-"

/-- What the arguments ask for, after some options. -/
def request (options : Options) : List String → Except UsageError Request
  | [] => .ok (.session options.config)
  | ["--"] => .ok (.session options.config)
  | "--" :: argument :: _ => .error (.unexpected argument)
  | "--help" :: _ => .ok .help
  | "--version" :: _ => .ok .version
  | "--parse" :: rest =>
    match options.setParse with
    | .ok options => request options rest
    | .error e => .error e
  | ["--prompt"] => .error (.missingValue "--prompt")
  | "--prompt" :: value :: rest =>
    if isValue value then
      match options.setPrompt value with
      | .ok options => request options rest
      | .error e => .error e
    else
      .error (.missingValue "--prompt")
  | argument :: rest =>
    match joinedPrompt? argument with
    | some value =>
      match options.setPrompt value with
      | .ok options => request options rest
      | .error e => .error e
    | none =>
      match argument.toList with
      | '-' :: 'h' :: _ => .ok .help
      | '-' :: 'V' :: _ => .ok .version
      | _ => .error (.unexpected argument)

example : request {} ["--parse", "--prompt", "-"] = .ok (.session ⟨"-", .parse⟩) := by
  cbv

example : request {} ["--prompt", "-x", "--help"] = .error (.missingValue "--prompt") := by
  cbv

/-! ## 3. Texts -/

/-- The name and version of the program. -/
def versionText : String := "interpreter 0.1.0\n"

def helpText : String :=
  "Tokenize or parse source code, one line at a time\n" ++
  "\n" ++
  "Usage: interpreter [OPTIONS]\n" ++
  "\n" ++
  "Options:\n" ++
  "      --parse            Parse each line and print the program instead of its tokens\n" ++
  "      --prompt <PROMPT>  Prompt printed before each line [default: \">> \"]\n" ++
  "  -h, --help             Print help\n" ++
  "  -V, --version          Print version\n"

/-- The line that tells why a session ended early. -/
def errorLine (e : InputError) : String :=
  "Error: " ++ e.message ++ "\n"

/-! ## 4. Runs -/

/-- What a run leaves behind. -/
structure Outcome where
  code : UInt8
  stdout : String
  stderr : String
deriving DecidableEq, Repr

/-- The exit code of a run whose session ended, early or not. -/
def sessionCode : Option InputError → UInt8
  | none => 0
  | some _ => 1

/-- The exit code of a run with a mistake in its arguments. -/
def usageCode : UInt8 := 2

/-- The run with these arguments on this input. -/
def run (arguments : List String) (input : List UInt8) : Outcome :=
  match request {} arguments with
  | .ok .help => ⟨0, helpText, ""⟩
  | .ok .version => ⟨0, versionText, ""⟩
  | .ok (.session config) =>
    let transcript := config.session input
    ⟨sessionCode transcript.error?, transcript.output,
      (transcript.error?.map errorLine).getD ""⟩
  | .error e => ⟨usageCode, "", e.message⟩

end CommandLine

end LetLang
