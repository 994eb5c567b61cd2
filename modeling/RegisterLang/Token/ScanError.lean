import RegisterLang.Diagnostic
import RegisterLang.Text.Printable
import RegisterLang.Token
import RegisterLang.Token.Directive

/-!
# Scanning errors

A scanning error is a cause and a place. Codes, messages and hints are functions of the cause.
-/

namespace RegisterLang

/-- The radices other than ten in which a number may be written. -/
inductive Radix where
  | hexadecimal
  | binary
  | octal
  deriving DecidableEq

namespace Radix

/-- The radix that a letter behind a leading zero announces. -/
def ofLetter? (c : Char) : Option Radix :=
  if c = 'x' ∨ c = 'X' then some hexadecimal
  else if c = 'b' ∨ c = 'B' then some binary
  else if c = 'o' ∨ c = 'O' then some octal
  else none

/-- The kind of the numbers of a radix. -/
def kind : Radix → TokenKind
  | hexadecimal => .hex
  | binary => .binary
  | octal => .octal

/-- The name of a radix. -/
def name : Radix → String
  | hexadecimal => "hexadecimal"
  | binary => "binary"
  | octal => "octal"

/-- The digits of a radix. -/
def isDigit : Radix → Char → Bool
  | hexadecimal, c => c.isDigit || ('a' ≤ c && c ≤ 'f') || ('A' ≤ c && c ≤ 'F')
  | binary, c => c == '0' || c == '1'
  | octal, c => '0' ≤ c && c ≤ '7'

end Radix

/-- Why a text cannot be scanned any further. -/
inductive ScanError.Cause where
  /-- No token starts with this character. -/
  | unexpectedCharacter (found : Char)
  /-- A string runs into the end of the input. -/
  | unterminatedString (quote : Char)
  /-- A string runs into the end of its line. -/
  | multilineString
  /-- No name follows a dollar sign; `none` when nothing at all does. -/
  | missingRegisterName (found : Option Char)
  /-- No word follows an at sign. -/
  | missingDirective
  /-- The word behind an at sign is no directive. -/
  | unknownDirective (word : String)
  /-- No type follows a register and its colon. -/
  | missingType
  /-- No name follows a dot that selects a member. -/
  | invalidMember
  /-- No digit follows the letters that announce a radix. -/
  | invalidNumber (lexeme : String) (radix : Radix)
  deriving DecidableEq

/-- A malformed lexeme: what is wrong with it, and where. -/
structure ScanError where
  cause : ScanError.Cause
  location : Location
  deriving DecidableEq

namespace ScanError

/-- The code of a cause. -/
def Cause.code : Cause → String
  | unexpectedCharacter _ => "L001"
  | unterminatedString _ => "L002"
  | multilineString => "L003"
  | missingRegisterName _ => "L004"
  | missingDirective => "L005"
  | unknownDirective _ => "L006"
  | missingType => "L007"
  | invalidMember => "L008"
  | invalidNumber _ _ => "L009"

/-- What the codes stand for. -/
def codeTitles : List (String × String) :=
  [("L001", "Unexpected character"), ("L002", "Unterminated string literal"),
    ("L003", "String spans multiple lines"), ("L004", "Missing register name"),
    ("L005", "Missing compiler keyword"), ("L006", "Unknown compiler keyword"),
    ("L007", "Missing type annotation"), ("L008", "Invalid member access"),
    ("L009", "Invalid numeric literal")]

/-- The message of a cause. -/
def Cause.message : Cause → String
  | unexpectedCharacter c => "Unexpected character: '" ++ c.toString ++ "'"
  | unterminatedString _ => "Unterminated string literal"
  | multilineString => "String cannot span multiple lines"
  | missingRegisterName found =>
    let shown := match found with
      | some c => "\"" ++ c.toString ++ "\""
      | none => "end of input"
    "Expected register name after '$' but found " ++ shown ++ " instead"
  | missingDirective => "Expected keyword after '@'"
  | unknownDirective word =>
    "Expected compiler keyword after \"@\": \"@" ++ word ++ "\" is not a compiler keyword"
  | missingType => "Expected type after ':'"
  | invalidMember => "Expected identifier after \".\""
  | invalidNumber lexeme _ => "Invalid numeric literal: '" ++ lexeme ++ "'"

/-- The suggestions for a cause. A word that is no directive always has a list of them, which is
empty when no directive is near. -/
def Cause.suggestions : Cause → Option (List String)
  | unterminatedString quote => some ["Add a closing " ++ quote.toString ++ " quote"]
  | missingDirective => some (Directive.all.map Directive.written)
  | unknownDirective word => some (Directive.suggestions word)
  | _ => none

/-- The help for a cause. -/
def Cause.help : Cause → Option String
  | unexpectedCharacter c =>
    if Text.isPrintable c then
      some ("The character '" ++ c.toString ++ "' is not valid in LLTS source code.")
    else
      some ("Non-printable character (Unicode: " ++ Text.codePointName c ++ ") is not allowed.")
  | unterminatedString quote =>
    some ("String literals must be closed with a matching " ++ quote.toString ++ " quote.")
  | multilineString => some "Close the string before the end of the line."
  | missingRegisterName _ =>
    some "Register names are made of letters, digits and underscores, e.g. $counter."
  | unknownDirective word =>
    match Directive.suggestions word with
    | [] => none
    | near => some ("Did you mean " ++ ", ".intercalate near ++ "?")
  | invalidNumber lexeme radix =>
    some ("Expected " ++ radix.name ++ " digits after '" ++ lexeme ++ "'")
  | missingDirective | missingType | invalidMember => none

/-- The report of a scanning error. -/
def diagnostic (e : ScanError) : Diagnostic where
  message := e.cause.message
  location := e.location
  severity := "error"
  code := some e.cause.code
  help := e.cause.help
  suggestions := e.cause.suggestions

end ScanError

end RegisterLang
