import RegisterLang.Grammar.Program

/-!
# Reading with a record

Another way of reading, in which nodes are told apart: a node gets a key when it is built, and the
nodes built so far are kept in the order of building. All else is as in the plain way, so what is
read is the same (`Goal.erases_record`).
-/

namespace RegisterLang

/-- A node that was built, with its key and its place. -/
abbrev Made := Node (Nat × Location)

/-- A step of parsing that keeps the nodes built so far, the first one first. -/
abbrev Recording := StateT (List Made) Parse

/-- The key of a node is the number of nodes that were built before. -/
instance : Reader Recording (Nat × Location) where
  make location node :=
    modifyGet fun built => (node (built.length, location), built ++ [node (built.length, location)])
  place tag := tag.2
  nested limit step := fun built => Parse.nested limit (step.run built)
  framed step := step

/-- A node that is built carries its place behind its key. -/
@[simp] theorem Recording.place_eq (tag : Nat × Location) :
    Reader.place Recording tag = tag.2 := rfl

/-- Reads a whole token list and keeps the nodes that are built. -/
def Goal.record (goal : Goal) (limit : Int) : Recording Made :=
  goal.readAll limit

end RegisterLang
