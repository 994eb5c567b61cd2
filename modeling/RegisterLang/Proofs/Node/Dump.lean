import Mathlib.Data.List.Perm.Basic
import RegisterLang.Node.Dump
import RegisterLang.Proofs.Node.Siblings
import RegisterLang.Proofs.Node.Walk

/-!
# Data and nodes describe the same tree

The data of a tree is written field by field, and the children of a node are listed apart from its
fields. Both hold the same nodes: a record stands for every node of the walk, and directly inside it
are its place and the records of its children, in the order of a source.
-/

namespace RegisterLang

/-! ### Records in data -/

namespace Data

/-- The field of a record with a name. -/
def field? (name : String) : Data → Option Data
  | record fields => fields.lookup name
  | _ => none

/-- Data that has fields. -/
def isRecord : Data → Bool
  | record _ => true
  | _ => false

/-- The records that the value of a field is or lists. -/
def records : Data → List Data
  | record fields => [record fields]
  | list items => items.filter isRecord
  | _ => []

/-- The records directly inside a record, in the order of its fields. -/
def inner : Data → List Data
  | record fields => fields.flatMap fun field => field.2.records
  | _ => []

mutual

/-- The records of nodes in data, from top to bottom: a node names its kind. -/
def nodes : Data → List Data
  | record fields =>
    (if (fields.lookup "type").isSome then [record fields] else []) ++ nodesOfFields fields
  | list items => nodesOfItems items
  | _ => []

/-- The records of nodes in the items of a list. -/
def nodesOfItems : List Data → List Data
  | [] => []
  | item :: items => nodes item ++ nodesOfItems items

/-- The records of nodes in the fields of a record. -/
def nodesOfFields : List (String × Data) → List Data
  | [] => []
  | (_, value) :: fields => nodes value ++ nodesOfFields fields

end

/-- The records in items are those in each of them. -/
theorem nodesOfItems_eq (items : List Data) : nodesOfItems items = items.flatMap nodes := by
  induction items with
  | nil => rfl
  | cons item items ih => rw [nodesOfItems, ih, List.flatMap_cons]

/-- The records in fields are those in the value of each of them. -/
theorem nodesOfFields_eq (fields : List (String × Data)) :
    nodesOfFields fields = fields.flatMap fun field => field.2.nodes := by
  induction fields with
  | nil => rfl
  | cons field fields ih => rw [nodesOfFields, ih, List.flatMap_cons]

end Data

namespace Node

/-! ### Fields of a node -/

/-- What a field of a node holds. -/
inductive Part (α : Type) where
  | text (value : String)
  | flag (value : Bool)
  | child (n : Node α)
  | optional (o : Option (Node α))
  | list (ns : List (Node α))

namespace Part

/-- The nodes in a field. -/
def nodes {α : Type} : Part α → List (Node α)
  | text _ | flag _ => []
  | child n => [n]
  | optional o => o.toList
  | list ns => ns

/-- A field as data. -/
def dump : Part (Option Location) → Data
  | text value => .text value
  | flag value => .flag value
  | child n => n.dump
  | optional o => dumpOption o
  | list ns => .list (ns.map Node.dump)

end Part

variable {α : Type}

/-- The fields of a node, in the order in which data shows them. -/
def fields : Node α → List (String × Part α)
  | document _ statements => [("statements", .list statements)]
  | declaration _ name isConst typeName value =>
    [("name", .text name), ("const", .flag isConst), ("typeAnnotation", .optional typeName),
      ("value", .child value)]
  | params _ ps => [("params", .list ps)]
  | block _ statements => [("statements", .list statements)]
  | function _ name ps returnType body =>
    [("name", .text name), ("params", .child ps), ("returnType", .optional returnType),
      ("body", .child body)]
  | returning _ argument => [("argument", .optional argument)]
  | whileLoop _ condition capture body =>
    [("condition", .child condition), ("capture", .optional capture), ("body", .child body)]
  | importUnit _ path => [("path", .text path)]
  | literal _ kind value => [("literalType", .text kind.name), ("value", .text value)]
  | primary _ kind name => [("kind", .text kind.name), ("name", .text name)]
  | member _ object property => [("object", .child object), ("property", .child property)]
  | call _ callee args => [("callee", .child callee), ("args", .list args)]
  | binary _ operator left right | assignment _ operator left right =>
    [("operator", .text operator), ("left", .child left), ("right", .child right)]
  | unary _ operator operand => [("operator", .text operator), ("operand", .child operand)]

/-- The data of a node is its kind, its place and its fields. -/
theorem dump_eq (n : Node (Option Location)) :
    n.dump = entry n.kind n.tag (n.fields.map fun field => (field.1, field.2.dump)) := by
  cases n <;> simp [dump, fields, Part.dump, kind, tag]

/-- The data of a node is a record. -/
theorem exists_dump_eq_record (n : Node (Option Location)) : ∃ fields, n.dump = .record fields :=
  ⟨_, n.dump_eq⟩

/-- The fields of a node hold its children, in the order of a source. -/
theorem flatMap_nodes_fields (n : Node α) :
    n.fields.flatMap (fun field => field.2.nodes) = n.inSourceOrder := by
  cases n <;> simp [fields, Part.nodes, inSourceOrder, children]

/-- A node in a field is a child, and every child is in a field. -/
theorem mem_children_iff_exists_field {n c : Node α} :
    c ∈ n.children ↔ ∃ field ∈ n.fields, c ∈ field.2.nodes := by
  rw [← n.inSourceOrder_perm.mem_iff, ← flatMap_nodes_fields, List.mem_flatMap]

/-! ### Records of nodes -/

/-- A place as data. -/
def placeRecord (location : Location) : Data :=
  .record [("line", .number location.line), ("column", .number location.column)]

/-- The fields for a place are one if there is a place, and none otherwise. -/
theorem placeFields_eq (place : Option Location) :
    placeFields place = place.toList.map fun location => ("loc", placeRecord location) := by
  cases place <;> rfl

/-- The data of a node has the name of its kind under its key. -/
theorem field?_type_dump (n : Node (Option Location)) :
    n.dump.field? "type" = some (.text n.kind.name) := by
  rw [dump_eq]
  rfl

/-- The data of a node has its place under its key, if it has one. -/
theorem field?_loc_dump (n : Node (Option Location)) :
    n.dump.field? "loc" = n.tag.map placeRecord := by
  rw [dump_eq, entry, placeFields_eq]
  cases n.tag with
  | none =>
    have hkeys : ∀ field ∈ n.fields, field.1 ≠ "loc" := by
      cases n <;> simp [fields]
    refine List.lookup_eq_none_iff.mpr (List.forall_mem_cons.mpr ⟨rfl, ?_⟩)
    refine List.forall_mem_map.mpr fun field hfield => ?_
    exact bne_iff_ne.mpr (hkeys field hfield).symm
  | some location => rfl

/-- A node is one record, as far as it is not looked into. -/
theorem records_dump (n : Node (Option Location)) : n.dump.records = [n.dump] := by
  rw [dump_eq]
  rfl

/-- The records of a field are those of the nodes that it holds. -/
theorem records_dump_part (part : Part (Option Location)) :
    part.dump.records = part.nodes.map Node.dump := by
  cases part with
  | text value | flag value => rfl
  | child n => exact n.records_dump
  | optional o =>
    cases o with
    | none => rfl
    | some n => exact n.records_dump
  | list ns =>
    refine List.filter_eq_self.mpr (List.forall_mem_map.mpr fun n _ => ?_)
    rw [dump_eq]
    rfl

/-- Directly inside the record of a node are its place and the records of its children. -/
theorem inner_dump (n : Node (Option Location)) :
    n.dump.inner = n.tag.toList.map placeRecord ++ n.inSourceOrder.map dump := by
  have hplace : (placeFields n.tag).flatMap (fun field => field.2.records) =
      n.tag.toList.map placeRecord := by
    cases n.tag <;> rfl
  rw [dump_eq, entry, Data.inner, List.flatMap_cons, List.flatMap_append, hplace,
    List.flatMap_map, ← flatMap_nodes_fields, List.map_flatMap]
  simp only [records_dump_part]
  rfl

/-- The records inside of a field are those inside of the nodes that it holds. -/
theorem nodes_dump_part (part : Part (Option Location)) :
    part.dump.nodes = part.nodes.flatMap fun n => n.dump.nodes := by
  cases part with
  | text value | flag value => rfl
  | child n => exact (List.flatMap_singleton ..).symm
  | optional o =>
    cases o with
    | none => rfl
    | some n => exact (List.flatMap_singleton ..).symm
  | list ns =>
    show Data.nodesOfItems (ns.map Node.dump) = _
    rw [Data.nodesOfItems_eq, List.flatMap_map]
    rfl

/-- The records inside of a node are itself and those inside of the nodes below it, in the order of
the source. -/
theorem nodes_dump (n : Node (Option Location)) :
    n.dump.nodes = n.dump :: n.inSourceOrder.flatMap fun c => c.dump.nodes := by
  have hplace : (placeFields n.tag).flatMap (fun field => field.2.nodes) = [] := by
    cases n.tag <;> rfl
  rw [dump_eq, entry, Data.nodes, Data.nodesOfFields_eq, List.flatMap_cons, List.flatMap_append,
    hplace, List.flatMap_map, ← flatMap_nodes_fields, List.flatMap_assoc]
  simp only [nodes_dump_part]
  rfl

/-- The records of nodes in the data of a tree are those of the nodes of its walk. -/
theorem nodes_dump_perm (n : Node (Option Location)) :
    n.dump.nodes.Perm (n.walk.map dump) := by
  induction n using Node.induction with
  | step n ih =>
    rw [nodes_dump, walk_eq, List.map_cons, List.map_flatMap]
    refine ((n.inSourceOrder_perm.flatMap_right _).trans ?_).cons n.dump
    exact List.Perm.flatMap_left _ ih

/-! ### With places and without -/

/-- A tree as data, with its places or without them. -/
def dumpWith (places : Bool) (n : Node (Option Location)) : Data :=
  if places then n.dump else n.withoutPlaces.dump

/-- The place that the record of a node shows. -/
def shownPlace (places : Bool) (n : Node (Option Location)) : Option Location :=
  if places then n.tag else none

/-- The records of nodes in the data of a tree correspond to the nodes of its walk. Every one has
the kind and the place of its node, and directly inside it are its place and the records of the
children, each once. These are in the order of the children, but for a type and the value or body in
front of it. -/
theorem dumpWith_corresponds (places : Bool) (n : Node (Option Location)) :
    (n.dumpWith places).nodes.Perm (n.walk.map (dumpWith places)) ∧
      (n.dumpWith places).field? "type" = some (.text n.kind.name) ∧
      (n.dumpWith places).field? "loc" = (n.shownPlace places).map placeRecord ∧
      (n.dumpWith places).inner =
        (n.shownPlace places).toList.map placeRecord ++ n.inSourceOrder.map (dumpWith places) ∧
      n.inSourceOrder.Perm n.children ∧
      (n.ownType = none ∧ n.inSourceOrder = n.children ∨
        ∃ front type last, n.ownType = some type ∧ n.inSourceOrder = front ++ [type, last] ∧
          n.children = front ++ [last, type]) := by
  have hbare : n.withoutPlaces.walk.map dump = n.walk.map (dumpWith false) ∧
      n.withoutPlaces.inSourceOrder.map dump = n.inSourceOrder.map (dumpWith false) := by
    rw [withoutPlaces, walk_map, inSourceOrder_map, List.map_map, List.map_map]
    exact ⟨rfl, rfl⟩
  have hkind : n.withoutPlaces.kind = n.kind := kind_map _ n
  have htag : n.withoutPlaces.tag = none := tag_map _ n
  cases places with
  | true =>
    exact ⟨n.nodes_dump_perm, n.field?_type_dump, n.field?_loc_dump, n.inner_dump,
      n.inSourceOrder_perm, n.inSourceOrder_cases⟩
  | false =>
    refine ⟨?_, ?_, ?_, ?_, n.inSourceOrder_perm, n.inSourceOrder_cases⟩
    · exact hbare.1 ▸ n.withoutPlaces.nodes_dump_perm
    · exact hkind ▸ n.withoutPlaces.field?_type_dump
    · exact n.withoutPlaces.field?_loc_dump.trans (by rw [htag]; rfl)
    · exact n.withoutPlaces.inner_dump.trans (by rw [htag, hbare.2]; rfl)

end Node

end RegisterLang
