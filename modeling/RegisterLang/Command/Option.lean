import RegisterLang.Text.Blank
import RegisterLang.Text.Integer
import RegisterLang.Text.Quoted
import RegisterLang.Text.Similarity

/-!
# Command-line options

The options of the command, how arguments give them, and what a wrong argument is told. Arguments
are taken from left to right: an option that needs a value takes what follows it, several short
options may share one dash, and a double dash ends the options.
-/

namespace RegisterLang.Command

/-- The options, in the order in which help lists them. -/
inductive CommandOption where
  | input
  | output
  | format
  | color
  | maxDepth
  | verbose
  | version
  | help
  deriving DecidableEq

namespace CommandOption

/-- All options, in their listed order. -/
def all : List CommandOption :=
  [input, output, format, color, maxDepth, verbose, version, help]

/-- Every option is listed. -/
theorem mem_all (o : CommandOption) : o ∈ all := by
  cases o <;> decide

/-- An option that needs a value, as opposed to a switch. -/
def takesValue : CommandOption → Bool
  | input | output | format | maxDepth => true
  | color | verbose | version | help => false

/-- An option that ends the command at once, before any other is looked at. -/
def isEager : CommandOption → Bool
  | version | help => true
  | _ => false

/-- The environment variables that set an option, the one that goes first in front. -/
def variableNames : CommandOption → List String
  | input => ["LLTS_INPUT", "LLTS_INPUT_PATH"]
  | output => ["LLTS_OUTPUT", "LLTS_OUTPUT_PATH"]
  | format => ["LLTS_FORMAT", "LLTS_OUTPUT_FORMAT"]
  | color => ["LLTS_COLOR"]
  | maxDepth => ["LLTS_MAX_DEPTH"]
  | verbose => ["LLTS_VERBOSE"]
  | version => ["LLTS_VERSION"]
  | help => ["LLTS_HELP"]

/-- The names of an option in an error about its value. -/
def hint : CommandOption → String
  | input => "'-i' / '--input'"
  | output => "'-o' / '--output'"
  | format => "'--format'"
  | color => "'--color'"
  | maxDepth => "'--max-depth'"
  | verbose => "'-v' / '--verbose'"
  | version => "'--version'"
  | help => "'-h' / '--help'"

end CommandOption

/-- The long names: the option of each, and for a switch the position it sets. -/
def longNames : List (String × CommandOption × Bool) :=
  [("--input", .input, true), ("--output", .output, true), ("--format", .format, true),
    ("--color", .color, true), ("--no-color", .color, false), ("--max-depth", .maxDepth, true),
    ("--verbose", .verbose, true), ("--version", .version, true), ("--help", .help, true)]

/-- The letters that name options behind a single dash. -/
def shortNames : List (Char × CommandOption) :=
  [('i', .input), ('o', .output), ('v', .verbose), ('h', .help)]

/-- What a wrong invocation is told. -/
inductive UsageError where
  /-- The last argument is an option that needs a value. -/
  | requiresArgument (name : String)
  /-- A switch was given a value. -/
  | takesNoValue (name : String)
  | noSuchOption (name : String) (similar : List String)
  | missing (o : CommandOption)
  | invalidValue (o : CommandOption) (reason : String)
  | extraArguments (arguments : List String)
  deriving DecidableEq

namespace UsageError

/-- The message of a usage error. -/
def message : UsageError → String
  | requiresArgument name => "Option " ++ Text.quoted name ++ " requires an argument."
  | takesNoValue name => "Option " ++ Text.quoted name ++ " does not take a value."
  | noSuchOption name similar =>
    let hint := match similar with
      | [] => ""
      | [other] => " Did you mean " ++ other ++ "?"
      | others => " (Possible options: " ++ ", ".intercalate others ++ ")"
    "No such option: " ++ name ++ hint
  | missing o => "Missing option " ++ o.hint ++ "."
  | invalidValue o reason => "Invalid value for " ++ o.hint ++ ": " ++ reason
  | extraArguments arguments =>
    let noun := if arguments.length = 1 then "argument" else "arguments"
    "Got unexpected extra " ++ noun ++ " (" ++ " ".intercalate arguments ++ ")"

/-- An option without its value is told so without a word on usage. -/
def showsUsage : UsageError → Bool
  | requiresArgument _ | takesNoValue _ => false
  | _ => true

/-- What a wrong invocation is told. -/
def text (e : UsageError) : String :=
  let usage :=
    if e.showsUsage then "Usage: llts [OPTIONS]\nTry 'llts -h' for help.\n\n" else ""
  usage ++ "Error: " ++ e.message ++ "\n"

end UsageError

/-- What an argument gives an option: a text, or the position of a switch. -/
inductive Given where
  | text (value : String)
  | switch (on : Bool)
  deriving DecidableEq

/-- The arguments, once taken apart: the options given, in order, and what belongs to none. -/
structure Arguments where
  given : List (CommandOption × Given)
  extra : List String

namespace Arguments

/-- No arguments. -/
def empty : Arguments := ⟨[], []⟩

/-- One more option in front. -/
def give (arguments : Arguments) (o : CommandOption) (value : Given) : Arguments :=
  { arguments with given := (o, value) :: arguments.given }

/-- What the letters behind a dash ask for: the switches set, and the option that takes a value,
with the value if it stands in the same argument. -/
structure Cluster where
  switches : List CommandOption
  value : Option (Char × CommandOption × Option String)

/-- Takes the letters behind a dash apart. The first one that needs a value takes the letters behind
it as its value, if there are any. -/
def cluster : List Char → Except UsageError Cluster
  | [] => .ok ⟨[], none⟩
  | c :: cs =>
    match shortNames.lookup c with
    | none => .error (.noSuchOption (String.ofList ['-', c]) [])
    | some o =>
      if o.takesValue then
        .ok ⟨[], some (c, o, if cs.isEmpty then none else some (String.ofList cs))⟩
      else
        (cluster cs).map fun rest => { rest with switches := o :: rest.switches }

/-- Whether an argument is meant as an option. -/
def isOption (argument : String) : Bool :=
  match argument.toList with
  | '-' :: _ :: _ => true
  | _ => false

/-- The name and the value of a long option that holds an equals sign. -/
def splitValue (argument : String) : String × Option String :=
  let cs := argument.toList
  match cs.dropWhile (· != '=') with
  | '=' :: value => (String.ofList (cs.takeWhile (· != '=')), some (String.ofList value))
  | _ => (argument, none)

/-- Takes arguments apart, from left to right. The pass stops at the first wrong one. -/
def parse : List String → Except UsageError Arguments
  | [] => .ok empty
  | argument :: rest =>
    if argument = "--" then .ok ⟨[], rest⟩
    else if isOption argument then
      let (name, attached) := splitValue argument
      match longNames.lookup name with
      | some (o, on) =>
        if o.takesValue then
          match attached, rest with
          | some value, rest => (parse rest).map (·.give o (.text value))
          | none, value :: rest => (parse rest).map (·.give o (.text value))
          | none, [] => .error (.requiresArgument name)
        else if attached.isSome then .error (.takesNoValue name)
        else (parse rest).map (·.give o (.switch on))
      | none =>
        if argument.toList.take 2 = ['-', '-'] then
          .error (.noSuchOption name (Text.similarTo name (longNames.map Prod.fst)))
        else
          match cluster (argument.toList.drop 1) with
          | .error e => .error e
          | .ok found =>
            let switched (a : Arguments) : Arguments :=
              found.switches.foldr (fun o a => a.give o (.switch true)) a
            match found.value, rest with
            | none, rest => (parse rest).map switched
            | some (_, o, some value), rest =>
              (parse rest).map fun a => switched (a.give o (.text value))
            | some (_, o, none), value :: rest =>
              (parse rest).map fun a => switched (a.give o (.text value))
            | some (c, _, none), [] => .error (.requiresArgument (String.ofList ['-', c]))
    else (parse rest).map fun a => { a with extra := argument :: a.extra }

/-- The last thing given to an option. -/
def last? (arguments : Arguments) (o : CommandOption) : Option Given :=
  arguments.given.reverse.lookup o

/-- The options in the order in which they are looked at: those that end the command first, then the
others; among both, those given come first, in the order of their first use. -/
def order (arguments : Arguments) : List CommandOption :=
  let used := (arguments.given.map Prod.fst).eraseDups
  let others := CommandOption.all.filter fun o => !used.contains o
  let inOrder := used ++ others
  inOrder.filter (·.isEager) ++ inOrder.filter fun o => !o.isEager

end Arguments

/-! ### Values -/

/-- The value of an environment variable, if it is set and not empty. -/
abbrev Environment := String → Option String

/-- What is given to an option, by the arguments or else by the environment. -/
def given? (arguments : Arguments) (environment : Environment) (o : CommandOption) :
    Option Given :=
  match arguments.last? o with
  | some value => some value
  | none =>
    (o.variableNames.findSome? fun name => (environment name).filter (· ≠ "")).map Given.text

/-- Reads the position of a switch. -/
def readSwitch (o : CommandOption) : Given → Except UsageError Bool
  | .switch on => .ok on
  | .text value =>
    let word := String.ofList ((Text.trimBlank value.toList).map Char.toLower)
    if ["1", "true", "t", "yes", "y", "on"].contains word then .ok true
    else if ["0", "false", "f", "no", "n", "off"].contains word then .ok false
    else .error (.invalidValue o (Text.quoted value ++ " is not a valid boolean."))

/-- The formats of the output. -/
inductive Format where
  | json
  | tree
  deriving DecidableEq

/-- Reads a format. -/
def readFormat (o : CommandOption) (value : String) : Except UsageError Format :=
  if value = "json" then .ok .json
  else if value = "tree" then .ok .tree
  else .error (.invalidValue o (Text.quoted value ++ " is not one of 'json', 'tree'."))

/-- Reads a limit on nesting, which is at least one. -/
def readLimit (o : CommandOption) (value : String) : Except UsageError Int :=
  match Text.readInteger? value with
  | none => .error (.invalidValue o (Text.quoted value ++ " is not a valid integer range."))
  | some n =>
    if n < 1 then .error (.invalidValue o (toString n ++ " is not in the range x>=1."))
    else .ok n

end RegisterLang.Command
