import RegisterLang.Location

/-!
# Tokens

A token is a lexeme of the register language together with its kind and its place. The set of kinds
is closed. The end of a source is a token of its own, so that every token list tells where the text
ends.
-/

namespace RegisterLang

/-- The kinds of tokens. -/
inductive TokenKind where
  /-- A reserved word that is no boolean. -/
  | keyword
  | identifier
  /-- A register, written with a dollar sign. -/
  | register
  /-- A compiler directive, written with an at sign. -/
  | directive
  | string
  | number
  | hex
  | octal
  | binary
  | boolean
  | delimiter
  /-- The type that follows a register and a colon. -/
  | typeName
  | binaryOperator
  | unaryOperator
  | assignOperator
  | endOfInput
  deriving DecidableEq

namespace TokenKind

/-- All kinds, in the order of their numbers. -/
def all : List TokenKind :=
  [keyword, identifier, register, directive, string, number, hex, octal, binary, boolean,
    delimiter, typeName, binaryOperator, unaryOperator, assignOperator, endOfInput]

/-- Every kind is listed. -/
theorem mem_all (kind : TokenKind) : kind ∈ all := by
  cases kind <;> decide

/-- The name of a kind, as reports show it. -/
def name : TokenKind → String
  | keyword => "KEYWORD"
  | identifier => "IDENTIFIER"
  | register => "V_REGISTER"
  | directive => "COMPILER_KEYWORD"
  | string => "STRING"
  | number => "NUMBER"
  | hex => "HEX"
  | octal => "OCTAL"
  | binary => "BINARY"
  | boolean => "BOOLEAN"
  | delimiter => "DELIMITER"
  | typeName => "TYPE_DECL"
  | binaryOperator => "BIN_OP"
  | unaryOperator => "UNARY_OP"
  | assignOperator => "ASSIGN_OP"
  | endOfInput => "EOF"

/-- The kind of a name. -/
def ofName? (name : String) : Option TokenKind :=
  all.find? (·.name == name)

/-- A literal token stands for a value. -/
def isLiteral : TokenKind → Bool
  | string | number | hex | octal | binary | boolean => true
  | _ => false

/-- An operator token stands between or before operands. -/
def isOperator : TokenKind → Bool
  | binaryOperator | unaryOperator | assignOperator => true
  | _ => false

end TokenKind

/-- A lexeme with its kind and place. The lexeme is the text that later stages need: strings come
without their quotes, registers and directives without their sign, numbers with the letters of their
radix, and the end of the input is empty. -/
structure Token where
  kind : TokenKind
  lexeme : String
  location : Location
  deriving DecidableEq

namespace Token

/-- The short form of a token: its kind and its lexeme in quotes. -/
def text (t : Token) : String :=
  t.kind.name ++ "(" ++ Text.quoted t.lexeme ++ ")"

/-- The full form of a token, with its location. -/
def detail (t : Token) : String :=
  "Token(" ++ t.kind.name ++ ", " ++ Text.quoted t.lexeme ++ ", " ++ t.location.detail ++ ")"

/-- A token as messages call it. -/
def describe (t : Token) : String :=
  if t.kind = .endOfInput then "end of input" else "\"" ++ t.lexeme ++ "\""

/-- The token has this kind and this lexeme. -/
def is (t : Token) (kind : TokenKind) (lexeme : String) : Bool :=
  t.kind == kind && t.lexeme == lexeme

/-- A token is of a kind and a lexeme when its kind and its lexeme are these. -/
theorem is_iff {t : Token} {kind : TokenKind} {lexeme : String} :
    t.is kind lexeme ↔ t.kind = kind ∧ t.lexeme = lexeme := by
  simp [is]

/-- The token is this delimiter. -/
def isDelimiter (t : Token) (lexeme : String) : Bool :=
  t.is .delimiter lexeme

end Token

end RegisterLang
