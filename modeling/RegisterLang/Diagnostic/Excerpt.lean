import RegisterLang.Diagnostic
import RegisterLang.Interpreter

/-!
# Source excerpts

A diagnostic is easiest to read beside its source. An excerpt shows the line before, a locator, the
offending line, a caret under the offending column, the line after, and a header with the message.
Colours are optional and change nothing but colour. `page` is the text that an excerpt has, and
`render` makes it: the interpreter breaks off when the page has a number that it does not write out
or a caret that is too far to the right.
-/

namespace RegisterLang

/-- The roles that have a colour of their own. -/
inductive Ink where
  /-- The header with the message. -/
  | header
  /-- The lines before and after the offending one. -/
  | neighbour
  /-- The locator, and help below the excerpt. -/
  | guide
  /-- The caret. -/
  | caret
  deriving DecidableEq

/-- The terminal sequence that switches a role's colour on. -/
def Ink.style : Ink → String
  | .header => "\x1b[1m\x1b[31m"
  | .neighbour => "\x1b[90m"
  | .guide => "\x1b[36m"
  | .caret => "\x1b[31m"

/-- The terminal sequence that ends all colours. -/
def Ink.reset : String := "\x1b[0m"

/-- A text in the colour of its role, or as it is when colours are off. -/
def Ink.paint (ink : Ink) (color : Bool) (text : String) : String :=
  if color then ink.style ++ text ++ Ink.reset else text

namespace Excerpt

/-- The lines of a text, without their line feeds; there is always at least one. -/
def splitLines : List Char → List (List Char)
  | [] => [[]]
  | c :: cs =>
    if c = '\n' then [] :: splitLines cs
    else match splitLines cs with
      | [] => [[c]]
      | line :: lines => (c :: line) :: lines

/-- A line without the carriage returns at its end. -/
def trimReturns (line : List Char) : List Char :=
  (line.reverse.dropWhile (· == '\r')).reverse

/-- The lines of a source as an excerpt shows them. -/
def sourceLines (source : String) : List String :=
  (splitLines source.toList).map fun line => String.ofList (trimReturns line)

/-- A run of spaces. -/
def spaces (n : Nat) : String :=
  String.ofList (List.replicate n ' ')

/-- A line number, right-aligned in a column of the given width. -/
def alignedNumber (width number : Nat) : String :=
  let digits := toString number
  spaces (width - digits.length) ++ digits

/-- A source line with its number. -/
def numberedRow (width : Nat) (lines : List String) (number : Nat) : String :=
  " " ++ alignedNumber width number ++ " | " ++ lines.getD (number - 1) ""

/-- The number column is as wide as the largest number that the excerpt shows. -/
def gutterWidth (lines : List String) (line : Nat) : Nat :=
  (toString (min (line + 1) lines.length)).length

/-- The rows of an excerpt above its header. The line must be one of the source's lines; the caret
stands in the first column when the column is not positive. -/
def rows (lines : List String) (line : Nat) (column : Int) (color : Bool) : List String :=
  let width := gutterWidth lines line
  let gutter := spaces width
  let before :=
    if 1 < line then [Ink.neighbour.paint color (numberedRow width lines (line - 1))] else []
  let locator :=
    Ink.guide.paint color (gutter ++ "--> line " ++ toString line ++ ":" ++ toString column)
  let caret :=
    " " ++ gutter ++ " | " ++ spaces (column - 1).toNat ++ Ink.caret.paint color "^"
  let behind :=
    if line < lines.length then [Ink.neighbour.paint color (numberedRow width lines (line + 1))]
    else []
  before ++ [locator, numberedRow width lines line, caret] ++ behind

/-- The header: the file and the message. -/
def header (path message : String) (color : Bool) : String :=
  Ink.header.paint color (path ++ ": Error: " ++ message)

/-- The source has the line. -/
def hasLine (lines : List String) (line : Int) : Prop :=
  1 ≤ line ∧ line ≤ lines.length

/-- Whether there is a line with a number can be decided. -/
instance (lines : List String) (line : Int) : Decidable (hasLine lines line) :=
  inferInstanceAs (Decidable (_ ∧ _))

/-- The text of the excerpt for a place in a source. A line that the source does not have leaves the
header alone, with the line's number. -/
def page (source path : String) (line column : Int) (message : String) (color : Bool) : String :=
  let lines := sourceLines source
  if hasLine lines line then
    "\n".intercalate (rows lines line.toNat column color ++ [header path message color])
  else
    header path message color ++ " (at line " ++ toString line ++ ")"

/-- What keeps an interpreter from making an excerpt. The numbers of the rows come first, the
largest one in front since it gives the width, and then the run of spaces up to the caret. Without a
line for the caret, there is only the number of the line. -/
def fault? (i : Interpreter) (source : String) (line column : Int) : Option Fault :=
  let lines := sourceLines source
  if hasLine lines line then
    if i.writes (min (line + 1) lines.length) && i.writes column then i.runFault? (column - 1)
    else some .digits
  else if i.writes line then none
  else some .digits

/-- Makes the excerpt for a place in a source. -/
def render (i : Interpreter) (source path : String) (line column : Int) (message : String)
    (color : Bool) : Except Fault String :=
  match fault? i source line column with
  | some fault => .error fault
  | none => .ok (page source path line column message color)

end Excerpt

namespace Diagnostic

/-- What stands below the excerpt: the help and the suggestions. -/
def hints (d : Diagnostic) (color : Bool) : String :=
  let help := match given? d.help with
    | some help => "\n" ++ Ink.guide.paint color ("  help: " ++ help)
    | none => ""
  let suggestions := (d.suggestions.getD []).map fun s => "\n  suggestion: " ++ s
  help ++ String.join suggestions

/-- The text of the report of a diagnostic beside its source: the excerpt and the hints. -/
def page (d : Diagnostic) (source : String) (color : Bool) : String :=
  Excerpt.page source d.location.file d.location.line d.location.column d.headline color ++
    d.hints color

/-- Makes the report of a diagnostic beside its source. -/
def render (i : Interpreter) (d : Diagnostic) (source : String) (color : Bool) :
    Except Fault String := do
  let excerpt ←
    Excerpt.render i source d.location.file d.location.line d.location.column d.headline color
  return excerpt ++ d.hints color

end Diagnostic

/-- Where a report is written, as far as colours are concerned. -/
inductive Stream where
  | plain
  | terminal
  deriving DecidableEq

/-- Makes what is written to a stream to report a diagnostic. Unless colours are asked for or
refused, only a terminal gets them. -/
def Diagnostic.report (i : Interpreter) (d : Diagnostic) (source : String) (stream : Stream)
    (color : Option Bool) : Except Fault String := do
  return (← d.render i source (color.getD (stream = .terminal))) ++ "\n"

end RegisterLang
