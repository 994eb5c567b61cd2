import RegisterLang.Node
import Std.Data.HashMap

/-!
# Links between nodes

Nodes that are built one by one are told apart by a key in their tags. Building a node makes it the
parent of its children, and building a document makes it the document of every node below it and of
itself. The links of a key are kept apart from the nodes, so a node does not change once it is
built.

Links are looked at through `Links.of`; `of_update_self` and `of_update_of_ne` say all about what a
change of links does to that view.
-/

namespace RegisterLang

namespace Node

variable {α : Type}

/-- The nodes that building a node makes it the parent of, one after the other. Every kind of node
has its own list for this, apart from the one that `children` gives. -/
def adopted : Node α → List (Node α)
  | document _ statements => statements
  | declaration _ _ _ typeName value => value :: typeName.toList
  | params _ ps => ps
  | block _ statements => statements
  | function _ _ ps returnType body => [ps, body] ++ returnType.toList
  | returning _ argument => argument.toList
  | whileLoop _ condition capture body => condition :: capture.toList ++ [body]
  | importUnit _ _ => []
  | literal _ _ _ => []
  | primary _ _ _ => []
  | member _ object property => [object, property]
  | call _ callee args => [callee] ++ args
  | binary _ _ left right => [left, right]
  | unary _ _ operand => [operand]
  | assignment _ _ left right => [left, right]

/-- Every kind of node becomes the parent of just the nodes that it lists as its children. -/
theorem adopted_eq_children (n : Node α) : n.adopted = n.children := by
  cases n <;> rfl

end Node

/-- The links of a node: the keys of its parent and of its document, as far as it has them. -/
structure Link (κ : Type) where
  parent : Option κ
  document : Option κ

/-- The links of a node that has neither. -/
def Link.free {κ : Type} : Link κ :=
  ⟨none, none⟩

/-- The links of all keys. -/
structure Links (κ : Type) [BEq κ] [Hashable κ] where
  /-- The links of the keys that were given some. -/
  table : Std.HashMap κ (Link κ)

namespace Links

variable {κ α : Type} [BEq κ] [Hashable κ]

/-- No links at all. -/
def empty : Links κ :=
  ⟨∅⟩

/-- The links of a key. -/
def of (links : Links κ) (key : κ) : Link κ :=
  links.table.getD key Link.free

/-- The same links but for one key. -/
def update (links : Links κ) (key : κ) (change : Link κ → Link κ) : Links κ :=
  ⟨links.table.insert key (change (links.of key))⟩

/-- Before any node is made, every node is free. -/
@[simp] theorem of_empty (key : κ) : (empty : Links κ).of key = Link.free :=
  Std.HashMap.getD_empty

section View

variable [LawfulBEq κ]

/-- A change is seen at the key that it is made for. -/
@[simp] theorem of_update_self (links : Links κ) (key : κ) (change : Link κ → Link κ) :
    (links.update key change).of key = change (links.of key) :=
  Std.HashMap.getD_insert_self

/-- A change is not seen at other keys. -/
theorem of_update_of_ne (links : Links κ) {k key : κ} (h : k ≠ key) (change : Link κ → Link κ) :
    (links.update key change).of k = links.of k := by
  have hne : (key == k) = false := beq_false_of_ne (Ne.symm h)
  simp [of, update, Std.HashMap.getD_insert, hne]

end View

/-- Gives a node a parent. -/
def setParent (links : Links κ) (key parent : κ) : Links κ :=
  links.update key fun link => { link with parent := some parent }

/-- Gives a node a document. -/
def setDocument (links : Links κ) (key document : κ) : Links κ :=
  links.update key fun link => { link with document := some document }

/-- Builds a node. It starts without links and becomes the parent of the nodes that it adopts; a
document also becomes the document of everything in its walk. -/
def build (links : Links κ) (n : Node (κ × α)) : Links κ :=
  let key := n.tag.1
  let fresh := links.update key fun _ => Link.free
  let adopted := n.adopted.foldl (fun links c => links.setParent c.tag.1 key) fresh
  if n.kind = .document then
    n.walk.foldl (fun links d => links.setDocument d.tag.1 key) adopted
  else adopted

/-- The links after all nodes of a tree have been built, children first. -/
def ofTree (n : Node (κ × α)) : Links κ :=
  n.makingOrder.foldl build empty

end Links

namespace Node

variable {α : Type}

/-- Gives out the next number. -/
def fresh : StateM Nat Nat :=
  modifyGet fun n => (n, n + 1)

mutual

/-- The tree with its nodes numbered in the order of its walk. -/
def number : Node α → StateM Nat (Node (Nat × α))
  | document tag statements => do
    let i ← fresh
    return document (i, tag) (← numberAll statements)
  | declaration tag name isConst typeName value => do
    let i ← fresh
    let value ← value.number
    return declaration (i, tag) name isConst (← numberOption typeName) value
  | params tag ps => do
    let i ← fresh
    return params (i, tag) (← numberAll ps)
  | block tag statements => do
    let i ← fresh
    return block (i, tag) (← numberAll statements)
  | function tag name ps returnType body => do
    let i ← fresh
    let ps ← ps.number
    let body ← body.number
    return function (i, tag) name ps (← numberOption returnType) body
  | returning tag argument => do
    let i ← fresh
    return returning (i, tag) (← numberOption argument)
  | whileLoop tag condition capture body => do
    let i ← fresh
    let condition ← condition.number
    let capture ← numberOption capture
    return whileLoop (i, tag) condition capture (← body.number)
  | importUnit tag path => return importUnit (← fresh, tag) path
  | literal tag kind value => return literal (← fresh, tag) kind value
  | primary tag kind name => return primary (← fresh, tag) kind name
  | member tag object property => do
    let i ← fresh
    let object ← object.number
    return member (i, tag) object (← property.number)
  | call tag callee args => do
    let i ← fresh
    let callee ← callee.number
    return call (i, tag) callee (← numberAll args)
  | binary tag operator left right => do
    let i ← fresh
    let left ← left.number
    return binary (i, tag) operator left (← right.number)
  | unary tag operator operand => do
    let i ← fresh
    return unary (i, tag) operator (← operand.number)
  | assignment tag operator left right => do
    let i ← fresh
    let left ← left.number
    return assignment (i, tag) operator left (← right.number)

/-- The trees with their nodes numbered one tree after the other. -/
def numberAll : List (Node α) → StateM Nat (List (Node (Nat × α)))
  | [] => return []
  | n :: ns => do
    let n ← n.number
    return n :: (← numberAll ns)

/-- The tree with its nodes numbered, if there is one. -/
def numberOption : Option (Node α) → StateM Nat (Option (Node (Nat × α)))
  | none => return none
  | some n => return some (← n.number)

end

/-- The tree with its nodes numbered from zero in the order of its walk. -/
def numbered (n : Node α) : Node (Nat × α) :=
  (n.number.run 0).1

end Node

end RegisterLang
