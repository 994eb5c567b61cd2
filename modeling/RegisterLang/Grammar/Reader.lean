import RegisterLang.Grammar.Cursor
import RegisterLang.Node

/-!
# Ways of reading

The grammar is written once, for every monad in which steps over the tokens can be taken. What
else it does is left to the way of reading: how a node is built, how a level of nesting is opened,
and what it costs that one part of the grammar calls another one. `Parse` itself is the plain way,
in which nodes carry their places and nothing else is kept.
-/

namespace RegisterLang

/-- A syntax tree with the place of every node. -/
abbrev Tree := Node Location

/-- A way of reading, in which nodes carry a `τ`. -/
class Reader (m : Type → Type) (τ : outParam Type) where
  /-- Builds a node at a place. -/
  make (location : Location) (node : τ → Node τ) : m (Node τ)
  /-- The place of a node. -/
  place : τ → Location
  /-- Opens one level of nesting around a step. -/
  nested {β : Type} (limit : Int) (step : m β) : m β
  /-- Takes a step as a call, in a frame of its own where frames are counted. -/
  framed {β : Type} (step : m β) : m β

/-- The plain way of reading. -/
instance : Reader Parse Location where
  make location node := pure (node location)
  place location := location
  nested := Parse.nested
  framed step := step

namespace Parse

variable {β : Type}

/-- Steps over the tokens are plain steps. -/
@[simp] theorem liftM_eq (step : Parse β) : (liftM step : Parse β) = step := rfl

/-- Plain steps count no frames. -/
@[simp] theorem framed_eq (step : Parse β) : Reader.framed step = step := rfl

/-- A node that is built in the plain way is only its value. -/
@[simp] theorem make_eq (location : Location) (node : Location → Tree) :
    (Reader.make location node : Parse Tree) = pure (node location) := rfl

/-- In the plain way nodes carry their places. -/
@[simp] theorem place_eq (location : Location) : Reader.place Parse location = location := rfl

end Parse

end RegisterLang
