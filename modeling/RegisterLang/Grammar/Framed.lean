import RegisterLang.Grammar.Program
import RegisterLang.Interpreter

/-!
# Reading on an interpreter

Parts of the grammar call each other, and every call that is open takes a frame. In this way of
reading the frames are counted, and a call that would need one more than there are breaks reading
off. A limit on nesting bounds the calls of the grammar. It does not bound how high a tree is, since
chains of operators, calls and members do not count as nesting, and a document walks over its tree.
-/

namespace RegisterLang

/-- A step of parsing that may open so many calls inside each other. When it would open more, it is
broken off without a value. -/
abbrev Framed := ReaderT Nat (OptionT Parse)

/-- The way of reading in which frames are counted. A document walks over its tree to be known to
all nodes, other nodes are only made. -/
instance : Reader Framed Location where
  make location node frames :=
    let tree := node location
    if tree.kind = .document ∧ tree.walkWithin frames = none then failure else pure tree
  place location := location
  nested limit step frames := OptionT.mk (Parse.nested limit (step frames).run)
  framed step
    | 0 => failure
    | frames + 1 => step frames

namespace Interpreter

variable (i : Interpreter)

/-- The failure has a message that is written out. The limit on nesting is the only number that is
in one. -/
def tells : ParseFailure → Bool
  | .rejected ⟨.tooDeep limit, _⟩ => i.writes limit
  | _ => true

/-- What comes of reading that ended in this way. -/
def outcome : EStateM.Result ParseFailure ParseState (Option Tree) →
    Except Fault (Except ParseFailure Tree)
  | .ok (some tree) _ => .ok (.ok tree)
  | .ok none _ => .error .recursion
  | .error failure _ => if i.tells failure then .ok (.error failure) else .error .digits

/-- Reads a whole token list in the frames of the interpreter. -/
def read (goal : Goal) (limit : Int) : Parse (Option Tree) :=
  (goal.readAll limit : Framed Tree) i.frames

/-- Reads a token list as a goal, or breaks off. -/
def parseTokens (goal : Goal) (limit : Int) (tokens : List Token) :
    Except Fault (Except ParseFailure Tree) :=
  match ParseState.ofTokens tokens with
  | .error failure => .ok (.error failure)
  | .ok start => i.outcome ((i.read goal limit).run start)

/-- Reads a source text as a goal, under a display name, or breaks off. -/
def parseSource (goal : Goal) (source file : String) (limit : Int) :
    Except Fault (Except SourceError Tree) :=
  match scan source file with
  | .error e => .ok (.error (.scan e))
  | .ok tokens => (i.parseTokens goal limit tokens).map (Except.mapError .parse)

end Interpreter

end RegisterLang
