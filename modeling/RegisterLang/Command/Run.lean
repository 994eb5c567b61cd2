import RegisterLang.Command.Option
import RegisterLang.Diagnostic.Excerpt
import RegisterLang.Files
import RegisterLang.Node.Outline
import RegisterLang.Text.ControlSequence

/-!
# The command

The command parses one source file and prints its tree. It is a function of the arguments, the
environment and a view of the files; what it would print, and the one file it may write, are its
outcome. It breaks off without one when the file system refuses what no message is made for, or when
the interpreter breaks off reading or reporting. There always is room to print a tree.
-/

namespace RegisterLang.Command

/-- How the command was invoked. -/
structure Invocation where
  arguments : List String
  environment : Environment

/-- The settings of a run. -/
structure Settings where
  input : String
  output : Option String
  format : Format
  /-- Whether reports are coloured; only for a terminal, unless given. -/
  color : Option Bool
  limit : Int
  verbose : Bool

/-- What a run does. -/
structure Outcome where
  status : Nat
  stdout : String
  stderr : String
  /-- The file to write, and its text. -/
  output : Option (String × String)

/-- Ends with a text on standard output. -/
def Outcome.say (text : String) : Outcome := ⟨0, text, "", none⟩

/-- Ends with an error on standard error. -/
def Outcome.complain (status : Nat) (text : String) : Outcome := ⟨status, "", text, none⟩

/-- Ends with an error that the command explains itself. Standard error is no terminal to it, so
control sequences in the explanation are not printed. -/
def Outcome.explain (status : Nat) (text : String) : Outcome :=
  .complain status (Text.plainPrint text)

/-- The version of the command. -/
def version : String := "0.1.0"

/-- What `--help` prints. -/
def helpText : String :=
  String.join (
    ["Usage: llts [OPTIONS]",
      "",
      "  Parse an LLTS source file and print its syntax tree.",
      "",
      "Options:",
      "  -i, --input FILE           Source file to parse.  [required]",
      "  -o, --output FILE          Write the tree to this file instead of stdout.",
      "  --format [json|tree]       Tree output format.  [default: json]",
      "  --color / --no-color       Force colored diagnostics on or off (default:",
      "                             only on a terminal).",
      "  --max-depth INTEGER RANGE  Maximum statement/expression nesting.  [default:",
      "                             64; x>=1]",
      "  -v, --verbose              Log scanner and parser progress.",
      "  --version                  Show the version and exit.",
      "  -h, --help                 Show this message and exit."].map (· ++ "\n"))

/-! ### Settings -/

/-- Settings under way: the input may still be missing. -/
structure Draft where
  input : Option String := none
  output : Option String := none
  format : Format := .json
  color : Option Bool := none
  limit : Int := Grammar.defaultLimit
  verbose : Bool := false

/-- Why a run ends before it has settings. -/
inductive Stop where
  | refuse (error : UsageError)
  | say (text : String)
  | breakOff (fault : FileFault)

/-- The text given to an option that needs a value. -/
def Given.asText : Given → String
  | .text value => value
  | .switch _ => ""

/-- Lifts a reading of a value. -/
def reading {α : Type} : Except UsageError α → Except Stop α
  | .ok a => .ok a
  | .error e => .error (.refuse e)

/-- Looks at one option. -/
def settle (files : FileView) (draft : Draft) (o : CommandOption) (value : Option Given) :
    Except Stop Draft := do
  match o, value with
  | .input, none => throw (.refuse (.missing .input))
  | _, none => return draft
  | .input, some value =>
    let path := value.asText
    match files path with
    | .file _ | .device => return { draft with input := some path }
    | .directory =>
      throw (.refuse (.invalidValue o ("File " ++ Text.quoted path ++ " is a directory.")))
    | .refused .nullCharacter => throw (.breakOff (.refused .nullCharacter path))
    | .refused _ =>
      throw (.refuse (.invalidValue o ("File " ++ Text.quoted path ++ " does not exist.")))
  | .output, some value =>
    let path := value.asText
    match files path with
    | .directory =>
      throw (.refuse (.invalidValue o ("File " ++ Text.quoted path ++ " is a directory.")))
    | .refused .nullCharacter => throw (.breakOff (.refused .nullCharacter path))
    | .file _ | .device | .refused _ =>
      return { draft with output := if path = "" then none else some path }
  | .format, some value =>
    let format ← reading (readFormat o value.asText)
    return { draft with format }
  | .color, some value =>
    let on ← reading (readSwitch o value)
    return { draft with color := some on }
  | .maxDepth, some value =>
    let limit ← reading (readLimit o value.asText)
    return { draft with limit }
  | .verbose, some value =>
    let verbose ← reading (readSwitch o value)
    return { draft with verbose }
  | .version, some value =>
    if ← reading (readSwitch o value) then throw (.say ("llts, version " ++ version ++ "\n"))
    else return draft
  | .help, some value =>
    if ← reading (readSwitch o value) then throw (.say helpText) else return draft

/-- The settings of an invocation, or why there are none. -/
def settings (invocation : Invocation) (files : FileView) : Except Stop Settings := do
  let arguments ← reading (Arguments.parse invocation.arguments)
  let draft ← arguments.order.foldlM
    (fun draft o => settle files draft o (given? arguments invocation.environment o)) {}
  if arguments.extra ≠ [] then throw (.refuse (.extraArguments arguments.extra))
  match draft.input with
  | none => throw (.refuse (.missing .input))
  | some input =>
    return ⟨input, draft.output, draft.format, draft.color, draft.limit, draft.verbose⟩

/-- The paths that an invocation may look at. -/
def paths (invocation : Invocation) : List String :=
  match Arguments.parse invocation.arguments with
  | .error _ => []
  | .ok arguments =>
    let given := [CommandOption.input, .output].filterMap
      (given? arguments invocation.environment)
    given.flatMap fun value => [value.asText, normalizePath value.asText]

/-! ### Running -/

/-- A line of the log. -/
def logLine (level logger message : String) : String :=
  level ++ " " ++ logger ++ ": " ++ message ++ "\n"

/-- A line of the log about scanning. -/
def scanLog : String → String := logLine "DEBUG" "llts.lexer.lexer"

/-- A line of the log about parsing. -/
def parseLog : String → String := logLine "DEBUG" "llts.parser.parser"

/-- What the log says about one statement. -/
def statementLog (token : Token) : String :=
  parseLog ("Statement at " ++ token.location.text ++ " starts with " ++ token.text)

/-- A program that was read under log: the log, and the tree or why there is none. -/
structure Logged where
  log : List String
  result : Except Fault (Except SourceError Tree)

/-- Reads a program and keeps a log of it. -/
def readLogged (i : Interpreter) (code path : String) (limit : Int) : Logged :=
  let opening :=
    parseLog ("Read " ++ toString code.length ++ " characters from " ++ normalizePath path)
  match scan code path with
  | .error e => ⟨[opening], .ok (.error (.scan e))⟩
  | .ok tokens =>
    let scanned :=
      scanLog ("Scanned " ++ toString tokens.length ++ " tokens from " ++ path)
    match ParseState.ofTokens tokens with
    | .error failure => ⟨[opening, scanned], .ok (.error (.parse failure))⟩
    | .ok start =>
      let ended := (i.read .program limit).run start
      let result := (i.outcome ended).map (Except.mapError .parse)
      match ended with
      | .error _ s | .ok none s =>
        ⟨opening :: scanned :: s.entered.reverse.map statementLog, result⟩
      | .ok (some tree) s =>
        let count := tree.children.length
        let closing := parseLog ("Parsed " ++ toString count ++ " top-level statements")
        ⟨opening :: scanned :: (s.entered.reverse.map statementLog ++ [closing]), result⟩

/-- Makes the report of a source error beside its source. -/
def reportOf (i : Interpreter) (e : SourceError) (code : String) (color : Option Bool) :
    Except Fault String :=
  match e with
  | .scan e => e.diagnostic.report i code .plain color
  | .parse (.rejected e) => e.diagnostic.report i code .plain color
  | .parse (.unknownDirective word) => .ok (Text.quoted word ++ "\n")
  | .parse .missingEnd => .ok (ParseFailure.missingEndMessage ++ "\n")

/-- Runs the command with its settings, on the bytes of the input. -/
def runOn (i : Interpreter) (settings : Settings) (bytes : List UInt8) : Except Fault Outcome :=
  match sourceText bytes with
  | .error fault =>
    return .explain 1
      ("Error: " ++ settings.input ++ " is not valid UTF-8 text (" ++ fault.reason.text ++ ")\n")
  | .ok code => do
    let logged := readLogged i code settings.input settings.limit
    let log (lines : List String) : String :=
      if settings.verbose then String.join lines else ""
    match ← logged.result with
    | .error e =>
      return .complain 1 (log logged.log ++ (← reportOf i e code settings.color))
    | .ok tree =>
      let summary := logLine "INFO" "llts.cli"
        ("Parsed " ++ settings.input ++ ": " ++ toString tree.children.length ++
          " statements from " ++ toString bytes.length ++ " bytes")
      let stderr := log (logged.log ++ [summary])
      let placed := tree.map some
      let (text, destination) := match settings.format with
        | .json => (placed.dump.json ++ "\n", settings.output.map normalizePath)
        | .tree => (placed.outline.text, settings.output)
      match destination with
      | some path => return ⟨0, "", stderr, some (path, text)⟩
      | none => return ⟨0, text, stderr, none⟩

/-- Why a run breaks off. -/
inductive BreakOff where
  | file (fault : FileFault)
  | machine (fault : Fault)

/-- Runs the command. -/
def run (i : Interpreter) (invocation : Invocation) (files : FileView) :
    Except BreakOff Outcome :=
  match settings invocation files with
  | .error (.say text) => .ok (.say text)
  | .error (.refuse e) => .ok (.explain 2 e.text)
  | .error (.breakOff fault) => .error (.file fault)
  | .ok settings =>
    match sourceBytes files settings.input with
    | .error fault => .error (.file fault)
    | .ok bytes => (runOn i settings bytes).mapError .machine

end RegisterLang.Command
