import RegisterLang.Node

/-!
# Visiting a tree

A visit goes through a tree depth first and hands every node to the handler of its kind. It ends at
the first node whose kind has no handler.
-/

namespace RegisterLang

/-- A visit under way: the kinds of the nodes handled so far, the last one first, and when it ends
early the kind that has no handler. -/
abbrev Visit := EStateM NodeKind (List NodeKind)

/-- What a visitor says when it meets a node of a kind that it has no handler for. -/
def NodeKind.unhandledText (visitor : String) (kind : NodeKind) : String :=
  visitor ++ " has no handler for " ++ kind.name

/-- Visits a node and then, in order, all nodes below it. -/
def Node.visit {α : Type} (isHandled : NodeKind → Bool) (n : Node α) : Visit Unit := do
  if isHandled n.kind then modify (n.kind :: ·) else throw n.kind
  n.children.attach.forM fun ⟨c, _⟩ => visit isHandled c
termination_by sizeOf n
decreasing_by exact Node.sizeOf_lt_of_mem_children (by assumption)

/-- The outcome of a visit: the kinds of the nodes handled, in the order of the visit, and the kind
that ended it early, if any. -/
def Node.visited {α : Type} (isHandled : NodeKind → Bool) (n : Node α) :
    List NodeKind × Option NodeKind :=
  match (n.visit isHandled).run [] with
  | .ok _ kinds => (kinds.reverse, none)
  | .error missing kinds => (kinds.reverse, some missing)

end RegisterLang
