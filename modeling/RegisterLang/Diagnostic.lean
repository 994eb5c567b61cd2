import RegisterLang.Location
import RegisterLang.Text.LetterCase.Upper

/-!
# Diagnostics

A diagnostic is one report about a source: what is wrong, where, how severe it is, and what may
help. Scanning errors and syntax errors are both reported this way.
-/

namespace RegisterLang

/-- One report about a source text. -/
structure Diagnostic where
  message : String
  location : Location
  severity : String
  /-- The code that groups reports of one kind. -/
  code : Option String
  /-- A sentence on how to mend the source. -/
  help : Option String
  /-- Texts that could stand in place of the wrong one. A report whose kind offers suggestions may
  have an empty list of them. -/
  suggestions : Option (List String)
  deriving DecidableEq

namespace Diagnostic

/-- An empty code or help text counts as none. -/
def given? (text : Option String) : Option String :=
  text.filter (· ≠ "")

/-- An error with the given message and place, and without further hints. -/
def error (message : String) (location : Location) : Diagnostic :=
  ⟨message, location, "error", none, none, none⟩

/-- The lines of the plain report, each with its line end: severity, code and message, then the
place, the help and the suggestions. -/
def lines (d : Diagnostic) : List String :=
  let code := match given? d.code with
    | some code => "[" ++ code ++ "]"
    | none => ""
  let help := match given? d.help with
    | some help => ["  help: " ++ help ++ "\n"]
    | none => []
  let suggestions := match d.suggestions.getD [] with
    | [] => []
    | listed => "  suggestions:\n" :: listed.map fun s => "    - " ++ s ++ "\n"
  [Text.upperCase d.severity ++ code ++ ": " ++ d.message ++ "\n",
    "  --> " ++ d.location.text ++ "\n"] ++ help ++ suggestions

/-- The plain report. -/
def text (d : Diagnostic) : String :=
  String.join d.lines

/-- The message followed by the code in brackets. -/
def headline (d : Diagnostic) : String :=
  match given? d.code with
  | some code => d.message ++ " [" ++ code ++ "]"
  | none => d.message

end Diagnostic

end RegisterLang
