import RegisterLang.Grammar.Expression
import RegisterLang.Token.Directive

/-!
# Statements

The grammar of statements. The next token decides what a statement is; only after a register does
the token behind it decide whether a declaration starts. As with expressions, what opens a level of
nesting is reached through `inner`.
-/

namespace RegisterLang.Grammar

open Parse Reader

/-- The kinds of tokens that always start an expression statement. -/
def expressionStarts : List TokenKind :=
  [.binaryOperator, .unaryOperator, .assignOperator, .identifier, .string, .number, .hex, .binary,
    .octal, .boolean]

/-- A register starts a declaration when a type or an equals sign follows it. -/
def startsDeclaration : Parse Bool := do
  let token := (← get).peek 1
  return token.kind == .typeName || token.is .assignOperator "="

variable {m : Type → Type} {τ : Type} [Monad m] [MonadLiftT Parse m] [Reader m τ]
  (inner : Production → m (Node τ))

/-- A statement one level deeper. Its first token is noted, even when there is no level left. -/
def statement : m (Node τ) := do
  (modify fun s => { s with entered := s.next :: s.entered } : Parse PUnit)
  inner .statement

/-- Statements up to a token that ends them, in at most as many rounds as `room` has tokens. -/
def statementsUntil (isEnd : Token → Bool) : (room : List Token) → m (List (Node τ))
  | [] => return []
  | _ :: room => do
    if isEnd (← next) then return []
    else
      let first ← framed (statement inner)
      return first :: (← statementsUntil isEnd room)

/-- An expression and its semicolon. -/
def expressionStatement : m (Node τ) := do
  let tree ← expression inner
  discard (consumeDelimiter ";" "';' after expression")
  return tree

/-- The value of a declaration behind its equals sign, and a semicolon if there is one. -/
def initialValue : m (Node τ) := do
  let value ← expression inner
  discard (matchDelimiter ";")
  return value

/-- The declaration of a register. A type alone may be followed by any statement, whose tree is then
the value. The type is built before the value. -/
def declaration (isConst : Bool) : m (Node τ) := do
  let register ← consume .register "a register name"
  if ← check .typeName then
    let typeName ← identifier (← advance)
    let value ←
      if ← checkIs .assignOperator "=" then
        discard advance
        initialValue inner
      else framed (statement inner)
    make register.location (.declaration · register.lexeme isConst (some typeName) value)
  else
    discard (consumeIf (·.is .assignOperator "=") ("\"=\" after \"$" ++ register.lexeme ++ "\""))
    let value ← initialValue inner
    make register.location (.declaration · register.lexeme isConst none value)

/-- A return statement, with or without a value. -/
def returning : m (Node τ) := do
  let keyword ← advance
  let argument ←
    if ← checkDelimiter ";" then pure none
    else some <$> expression inner
  discard (consumeDelimiter ";" "';' after return")
  make keyword.location (.returning · argument)

/-- Statements in braces. -/
def block : m (Node τ) := do
  let brace ← consumeDelimiter openingBrace "'\x7b'"
  let isEnd := fun token : Token => token.kind == .endOfInput || token.isDelimiter closingBrace
  let statements ← statementsUntil inner isEnd (← room)
  discard (consumeDelimiter closingBrace "'\x7d'")
  make brace.location (.block · statements)

/-! ### Directives -/

/-- An import, from its parenthesis on. -/
def importUnit : m (Node τ) := do
  discard (consumeDelimiter "(" "'(' after @import")
  let path ← next
  if path.kind ≠ .string then fail .invalidImport
  discard advance
  discard (consumeDelimiter ")" "')' after import path")
  discard (consumeDelimiter ";" "';' after import statement")
  make path.location (.importUnit · path.lexeme)

/-- A colon and the name of a type, if there is a colon. -/
def typeAfterColon (what : String) : m (Option (Node τ)) := do
  if ← matchDelimiter ":" then
    let name ← consume .identifier what
    return some (← identifier name)
  else return none

/-- The declaration of a parameter. Parameters have no initial value in a source, so a zero stands
for it; it is built behind the type. -/
def param : m (Node τ) := do
  let name ← consume .identifier "a parameter name"
  let typeName ← typeAfterColon "a type name"
  let placeholder ← make name.location (.literal · .number "0")
  make name.location (.declaration · name.lexeme false typeName placeholder)

/-- The parameters behind the first one, in at most as many rounds as `room` has tokens. -/
def furtherParams : (room : List Token) → m (List (Node τ))
  | [] => return []
  | _ :: room => do
    if ← matchDelimiter "," then
      let first ← framed param
      return first :: (← furtherParams room)
    else return []

/-- The parameters of a function, from behind the opening parenthesis to the closing one. -/
def paramsBehind (opening : Token) : m (Node τ) := do
  let list ←
    if ← checkDelimiter ")" then pure []
    else
      let first ← framed param
      pure (first :: (← furtherParams (← room)))
  discard (consumeDelimiter ")" "')' after parameters")
  make opening.location (.params · list)

/-- The parameters of a function, when the opening parenthesis is the token in front. -/
def params : m (Node τ) := do
  let s ← (get : Parse ParseState)
  paramsBehind s.previous

/-- A function, from its name on. The return type is built before the body. -/
def function : m (Node τ) := do
  let name ← consume .identifier "a valid function name"
  discard (consumeDelimiter "(" "'(' after function name")
  let list ← framed params
  let returnType ← typeAfterColon "a return type name"
  let body ← framed (block inner)
  make name.location (.function · name.lexeme list returnType body)

/-- A loop, from its parenthesis on. -/
def whileLoop (keyword : Token) : m (Node τ) := do
  discard (consumeDelimiter "(" "'(' after @while")
  let condition ← expression inner
  discard (consumeDelimiter ")" "')' after loop condition")
  let capture ←
    if ← matchDelimiter "|" then
      let capture ← framed (primary inner)
      discard (consumeDelimiter "|" "'|' after loop capture")
      pure (some capture)
    else pure none
  let body ← framed (block inner)
  make keyword.location (.whileLoop · condition capture body)

/-- A statement that starts with a directive. What reads a constant calls what reads a
declaration. -/
def directive : m (Node τ) := do
  let keyword ← advance
  match Directive.ofWord? keyword.lexeme with
  | none => (throw (.unknownDirective keyword.lexeme) : Parse (Node τ))
  | some .importUnit => framed importUnit
  | some .const => framed (framed (declaration inner true))
  | some .func => framed (function inner)
  | some .whileLoop => framed (whileLoop inner keyword)
  | some .typeOf | some .forLoop => framed (failAt keyword (.unsupportedDirective keyword.lexeme))

/-! ### Any statement -/

/-- The statement that starts at the next token. -/
def statementBody : m (Node τ) := do
  let token ← next
  match token.kind with
  | .register =>
    if ← startsDeclaration then framed (declaration inner false)
    else framed (expressionStatement inner)
  | .keyword =>
    if token.lexeme = "return" then framed (returning inner)
    else if booleanWords.contains token.lexeme then framed (expressionStatement inner)
    else fail .unexpectedKeyword
  | .directive => framed (directive inner)
  | kind =>
    if expressionStarts.contains kind then framed (expressionStatement inner)
    else fail .unexpectedToken

end RegisterLang.Grammar
