import RegisterLang.Data
import RegisterLang.Node

/-!
# Trees as data

`Node.dump` shows a tree as plain data: a record for every node, with its kind, its place and its
own fields, a record or list of records for what is below it, and null for a part that is absent.
-/

namespace RegisterLang

namespace Node

/-- The place of a node as data: its line and column, when they are known. -/
def placeFields : Option Location → List (String × Data)
  | some location =>
    [("loc", .record [("line", .number location.line), ("column", .number location.column)])]
  | none => []

/-- The record of a node: kind and place in front of its own fields. -/
def entry (kind : NodeKind) (location : Option Location) (fields : List (String × Data)) : Data :=
  .record (("type", .text kind.name) :: (placeFields location ++ fields))

mutual

/-- A tree as data. -/
def dump : Node (Option Location) → Data
  | document tag statements => entry .document tag [("statements", .list (dumpAll statements))]
  | declaration tag name isConst typeName value =>
    entry .declaration tag
      [("name", .text name), ("const", .flag isConst), ("typeAnnotation", dumpOption typeName),
        ("value", value.dump)]
  | params tag ps => entry .params tag [("params", .list (dumpAll ps))]
  | block tag statements => entry .block tag [("statements", .list (dumpAll statements))]
  | function tag name ps returnType body =>
    entry .function tag
      [("name", .text name), ("params", ps.dump), ("returnType", dumpOption returnType),
        ("body", body.dump)]
  | returning tag argument => entry .returning tag [("argument", dumpOption argument)]
  | whileLoop tag condition capture body =>
    entry .whileLoop tag
      [("condition", condition.dump), ("capture", dumpOption capture), ("body", body.dump)]
  | importUnit tag path => entry .importUnit tag [("path", .text path)]
  | literal tag kind value =>
    entry .literal tag [("literalType", .text kind.name), ("value", .text value)]
  | primary tag kind name =>
    entry .primary tag [("kind", .text kind.name), ("name", .text name)]
  | member tag object property =>
    entry .member tag [("object", object.dump), ("property", property.dump)]
  | call tag callee args =>
    entry .call tag [("callee", callee.dump), ("args", .list (dumpAll args))]
  | binary tag operator left right =>
    entry .binary tag [("operator", .text operator), ("left", left.dump), ("right", right.dump)]
  | unary tag operator operand =>
    entry .unary tag [("operator", .text operator), ("operand", operand.dump)]
  | assignment tag operator left right =>
    entry .assignment tag
      [("operator", .text operator), ("left", left.dump), ("right", right.dump)]

/-- Trees as data. -/
def dumpAll : List (Node (Option Location)) → List Data
  | [] => []
  | n :: ns => n.dump :: dumpAll ns

/-- A part that may be absent as data. -/
def dumpOption : Option (Node (Option Location)) → Data
  | none => .null
  | some n => n.dump

end

/-- The records of the trees of a list are those of each of them. -/
@[simp] theorem dumpAll_eq (ns : List (Node (Option Location))) : dumpAll ns = ns.map dump := by
  induction ns with
  | nil => rfl
  | cons n ns ih => rw [dumpAll, ih, List.map_cons]

/-- The same tree without places. -/
def withoutPlaces {α : Type} (n : Node α) : Node (Option Location) :=
  n.map fun _ => none

end Node

end RegisterLang
