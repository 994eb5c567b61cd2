import RegisterLang.Grammar.Statement
import RegisterLang.Token.Scan

/-!
# Programs

Statements and expressions contain each other; each time one contains another, a level of nesting
opens, and a limit bounds the levels. `Grammar.produce` ties the productions of the grammar
together; programs and lone expressions are read with it.
-/

namespace RegisterLang

namespace Grammar

open Parse Reader

/-- The limit on nesting unless another one is asked for. -/
def defaultLimit : Int := 64

variable {m : Type → Type} {τ : Type} [Monad m] [MonadLiftT Parse m] [Reader m τ]

/-- What a production reads, once its level is open. -/
def body (inner : Production → m (Node τ)) : Production → m (Node τ)
  | .statement => statementBody inner
  | .expression => framed (assignment inner)
  | .operand => framed (unary inner)

/-- A production when at most `levels` levels are left below the limit. -/
def produceWithin (limit : Int) : (levels : Nat) → Production → m (Node τ)
  | 0, _ => fail (.tooDeep limit)
  | levels + 1, production => Reader.nested limit (body (produceWithin limit levels) production)

/-- A production, on a level of its own. The levels left are those between the depth and the
limit. -/
def produce (limit : Int) (production : Production) : m (Node τ) := do
  let s ← (get : Parse ParseState)
  produceWithin limit (limit - s.depth).toNat production

/-- A whole token list as a program, from the cursor on. The document is built last. -/
def program (limit : Int) : m (Node τ) := do
  let first ← next
  let statements ←
    statementsUntil (produce limit) (·.kind == .endOfInput) (← room)
  make first.location (.document · statements)

/-- A whole token list as one expression, from the cursor on. -/
def loneExpression (limit : Int) : m (Node τ) := do
  let tree ← expression (produce limit)
  if ← check .endOfInput then return tree
  else fail (.expected "end of expression")

end Grammar

/-- What a source is read as. -/
inductive Goal where
  | program
  | expression
  deriving DecidableEq

namespace Goal

/-- The display name of a source that was given none. -/
def defaultFile : Goal → String
  | program => "<anonymous>"
  | expression => "<expression>"

section

variable {m : Type → Type} {τ : Type} [Monad m] [MonadLiftT Parse m] [Reader m τ] (goal : Goal)
  (limit : Int)

/-- What a goal reads from the cursor on. -/
def read : m (Node τ) :=
  match goal with
  | program => Grammar.program limit
  | expression => Grammar.loneExpression limit

/-- Reads a whole token list from its start, in any way of reading. -/
def readAll : m (Node τ) := do
  (modify ParseState.rewind : Parse PUnit)
  goal.read limit

end

/-- Reads a whole token list in the plain way. -/
def parse (goal : Goal) (limit : Int) : Parse Tree :=
  goal.readAll limit

end Goal

/-- Reads a token list as a goal. -/
def parseTokens (goal : Goal) (limit : Int) (tokens : List Token) : Except ParseFailure Tree := do
  match (goal.parse limit).run (← ParseState.ofTokens tokens) with
  | .ok tree _ => .ok tree
  | .error failure _ => .error failure

/-- Why a source has no tree. -/
inductive SourceError where
  | scan (error : ScanError)
  | parse (failure : ParseFailure)
  deriving DecidableEq

/-- Reads a source text as a goal, under a display name. -/
def parseSource (goal : Goal) (source file : String) (limit : Int) : Except SourceError Tree :=
  match scan source file with
  | .error e => .error (.scan e)
  | .ok tokens =>
    match parseTokens goal limit tokens with
    | .error failure => .error (.parse failure)
    | .ok tree => .ok tree

end RegisterLang
