import RegisterLang.Diagnostic
import RegisterLang.Token

/-!
# Syntax errors

A syntax error is a cause and the token that shows it. Codes, messages and hints are functions of
the two.
-/

namespace RegisterLang

/-- Why a token list is no program. -/
inductive ParseError.Cause where
  /-- The token starts no statement. -/
  | unexpectedToken
  /-- Something else must stand where the token stands. -/
  | expected (what : String)
  /-- The token is a reserved word that starts no statement. -/
  | unexpectedKeyword
  /-- The argument of an import is no string. -/
  | invalidImport
  /-- The token starts no expression. -/
  | invalidExpression
  /-- The directive is reserved, but has no grammar. -/
  | unsupportedDirective (word : String)
  /-- Statements and expressions are nested too deeply. -/
  | tooDeep (limit : Int)
  deriving DecidableEq

/-- A syntax error: what is wrong, and the token that shows it. -/
structure ParseError where
  cause : ParseError.Cause
  token : Token
  deriving DecidableEq

namespace ParseError

/-- The code of a cause. -/
def Cause.code : Cause → String
  | unexpectedToken => "P001"
  | expected _ => "P002"
  | unexpectedKeyword => "P003"
  | invalidImport => "P004"
  | invalidExpression => "P005"
  | unsupportedDirective _ => "P006"
  | tooDeep _ => "P007"

/-- What the codes stand for. -/
def codeTitles : List (String × String) :=
  [("P001", "Unexpected token"), ("P002", "Expected token not found"),
    ("P003", "Unexpected keyword"), ("P004", "Invalid import path"),
    ("P005", "Invalid expression"), ("P006", "Unsupported directive"),
    ("P007", "Nesting too deep")]

/-- The message of a syntax error. -/
def message (e : ParseError) : String :=
  match e.cause with
  | .unexpectedToken => "Unexpected token: " ++ e.token.describe
  | .expected what => "Expected " ++ what ++ " but found " ++ e.token.describe ++ " instead"
  | .unexpectedKeyword => "Unexpected keyword: " ++ e.token.lexeme
  | .invalidImport =>
    "Unexpected import value " ++ e.token.describe ++ ". Expected a valid path."
  | .invalidExpression => "Unexpected token in expression: " ++ e.token.describe
  | .unsupportedDirective word => "\"@" ++ word ++ "\" is not supported yet"
  | .tooDeep limit => "Nesting too deep (limit is " ++ toString limit ++ ")"

/-- The help for a cause. -/
def Cause.help : Cause → Option String
  | expected what => some ("The parser expected to see " ++ what ++ " at this position.")
  | invalidExpression =>
    some "Expected a literal, identifier, register or parenthesized expression."
  | unsupportedDirective word =>
    some ("The @" ++ word ++ " directive is reserved but cannot be parsed yet.")
  | tooDeep _ => some "Split the expression or block into smaller pieces."
  | unexpectedToken | unexpectedKeyword | invalidImport => none

/-- The suggestions for a cause. -/
def Cause.suggestions : Cause → Option (List String)
  | invalidImport => some ["@import(\"path/to/module\");"]
  | _ => none

/-- The report of a syntax error, placed at its token. -/
def diagnostic (e : ParseError) : Diagnostic where
  message := e.message
  location := e.token.location
  severity := "error"
  code := some e.cause.code
  help := e.cause.help
  suggestions := e.cause.suggestions

end ParseError

/-- Why parsing fails. Token lists that come from a source only ever give syntax errors. -/
inductive ParseFailure where
  | rejected (error : ParseError)
  /-- A directive token carries a word that is no directive. -/
  | unknownDirective (word : String)
  /-- The token list does not end with the end of the input. -/
  | missingEnd
  deriving DecidableEq

/-- What a token list without an end of the input is told. -/
def ParseFailure.missingEndMessage : String :=
  "token list must end with an EOF token"

end RegisterLang
