import RegisterLang.Grammar.ParseError
import RegisterLang.Sequence
import RegisterLang.Token.Operator

/-!
# A cursor over tokens

Parsing reads a token list from left to right and never looks further than one token past the next
one. The cursor never moves past the end of the input, so there always is a next token.
-/

namespace RegisterLang

/-- The state of parsing: a position in a token list that is not empty, and the depth of nesting
there. -/
structure ParseState where
  /-- The tokens in front of the cursor, the last one first. -/
  passed : List Token
  /-- The token at the cursor. -/
  next : Token
  /-- The tokens behind the one at the cursor. -/
  rest : List Token
  /-- How many statements and expressions are open. -/
  depth : Nat
  /-- The first tokens of all statements entered so far, the last one first. -/
  entered : List Token
  /-- The last token is the end of the input. -/
  ended : (rest.getLastD next).kind = .endOfInput

namespace ParseState

/-- The start of a token list. The list must end with the end of the input. -/
def ofTokens : List Token → Except ParseFailure ParseState
  | [] => .error .missingEnd
  | first :: rest =>
    if h : (rest.getLastD first).kind = .endOfInput then .ok ⟨[], first, rest, 0, [], h⟩
    else .error .missingEnd

/-- All tokens of the list. -/
def tokens (s : ParseState) : List Token :=
  s.passed.reverse ++ s.next :: s.rest

/-- The index of the next token. -/
def index (s : ParseState) : Nat :=
  s.passed.length

/-- The first token of the list. -/
def first (s : ParseState) : Token :=
  s.passed.getLastD s.next

/-- The token in front of the cursor; at the start, the first token. -/
def previous (s : ParseState) : Token :=
  s.passed.headD s.next

/-- The token `n` places behind the next one, or the last token if there are fewer. -/
def peek (s : ParseState) (n : Nat) : Token :=
  (s.next :: s.rest).getD n (s.rest.getLastD s.next)

/-- The token `n` places from the next one, to either side. -/
def tokenFrom? (s : ParseState) (n : Int) : Option Token :=
  Sequence.at? s.tokens (s.index + n) (s.rest.getLastD s.next)

/-- The cursor one token further. It stays where it is at an end of the input. -/
def advance (s : ParseState) : ParseState :=
  if s.next.kind = .endOfInput then s
  else match h : s.rest with
    | [] => s
    | token :: rest =>
      { s with
        passed := s.next :: s.passed
        next := token
        rest
        ended := by have hended := s.ended; rwa [h, List.getLastD_cons] at hended }

/-- Advancing leaves the token list as it is. -/
@[simp] theorem tokens_advance (s : ParseState) : s.advance.tokens = s.tokens := by
  unfold advance
  split
  · rfl
  · split
    · rfl
    · next token rest h => simp [tokens, h]

/-- Advancing opens and closes nothing. -/
@[simp] theorem depth_advance (s : ParseState) : s.advance.depth = s.depth := by
  unfold advance
  split
  · rfl
  · split <;> rfl

/-- The last token of the list is the last one from the cursor on. -/
theorem getLastD_tokens (s : ParseState) (beyond : Token) :
    s.tokens.getLastD beyond = s.rest.getLastD s.next := by
  simp [tokens, List.getLast?_append, List.getLast?_cons]

/-- The start of the same token list, with nothing open. -/
def rewind (s : ParseState) : ParseState :=
  match h : s.tokens with
  | [] => s
  | first :: rest =>
    { passed := []
      next := first
      rest
      depth := 0
      entered := s.entered
      ended := by
        have hlast := s.getLastD_tokens first
        rw [h, List.getLastD_cons] at hlast
        rw [hlast]
        exact s.ended }

/-- Going back to the start leaves the token list as it is. -/
@[simp] theorem tokens_rewind (s : ParseState) : s.rewind.tokens = s.tokens := by
  unfold rewind
  split
  · rfl
  · next first rest h => exact h.symm

end ParseState

/-- A step of parsing. When it fails, the state is kept as it was at the failure. -/
abbrev Parse := EStateM ParseFailure ParseState

namespace Parse

/-- The next token. -/
def next : Parse Token :=
  return (← get).next

/-- The tokens behind the next one. Their number bounds how often anything can be repeated here, so
repetitions recurse on them: one round for each. -/
def room : Parse (List Token) :=
  return (← get).rest

/-- Ends parsing with a syntax error that `token` shows. -/
def failAt {α : Type} (token : Token) (cause : ParseError.Cause) : Parse α :=
  throw (.rejected ⟨cause, token⟩)

/-- Ends parsing with a syntax error at the next token. -/
def fail {α : Type} (cause : ParseError.Cause) : Parse α := do
  failAt (← next) cause

/-- Moves one token further and returns the token that is then in front of the cursor. -/
def advance : Parse Token := do
  modify ParseState.advance
  return (← get).previous

/-- The next token has this kind. -/
def check (kind : TokenKind) : Parse Bool :=
  return (← next).kind == kind

/-- The next token has this kind and this lexeme. -/
def checkIs (kind : TokenKind) (lexeme : String) : Parse Bool :=
  return (← next).is kind lexeme

/-- The next token is this delimiter. -/
def checkDelimiter (lexeme : String) : Parse Bool :=
  return (← next).isDelimiter lexeme

/-- Takes the delimiter if it is the next token, and tells whether it was. -/
def matchDelimiter (lexeme : String) : Parse Bool := do
  if ← checkDelimiter lexeme then
    discard advance
    return true
  else return false

/-- Takes the next token if the test holds of it; `what` names it in the error otherwise. -/
def consumeIf (test : Token → Bool) (what : String) : Parse Token := do
  if test (← next) then advance else fail (.expected what)

/-- Takes a token of a kind. -/
def consume (kind : TokenKind) (what : String) : Parse Token :=
  consumeIf (·.kind == kind) what

/-- Takes a delimiter. -/
def consumeDelimiter (lexeme what : String) : Parse Token :=
  consumeIf (·.isDelimiter lexeme) what

/-- Opens one level of nesting around a step, and closes it whether or not the step succeeds. There
is no room for another level when the depth has reached the limit. -/
def nested {α : Type} (limit : Int) (step : Parse α) : Parse α := fun s =>
  if limit ≤ s.depth then (fail (.tooDeep limit) : Parse α) s
  else
    match step { s with depth := s.depth + 1 } with
    | .ok a s' => .ok a { s' with depth := s'.depth - 1 }
    | .error e s' => .error e { s' with depth := s'.depth - 1 }

end Parse

end RegisterLang
