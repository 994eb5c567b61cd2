import RegisterLang.Location

/-!
# Syntax trees

The nodes of a syntax tree. Every node carries a tag of any type: the parser puts locations there,
nodes made by hand carry a name, and a tree without tags is a tree over the unit type.

Everything that depends only on the shape of a tree is defined through `Node.children`:
`Node.walk` lists a tree depth first, and `Node.induction` proves a property of all trees from the
children up.
-/

namespace RegisterLang

/-- The kinds of literals. -/
inductive LiteralKind where
  | number
  | string
  | boolean
  | hexadecimal
  | binary
  | octal
  deriving DecidableEq

namespace LiteralKind

/-- All literal kinds. -/
def all : List LiteralKind :=
  [number, string, boolean, hexadecimal, binary, octal]

/-- The name of a literal kind in the data of a tree. -/
def name : LiteralKind → String
  | number => "number"
  | string => "string"
  | boolean => "boolean"
  | hexadecimal => "hex"
  | binary => "binary"
  | octal => "octal"

end LiteralKind

/-- The kinds of references. -/
inductive ReferenceKind where
  | identifier
  | register
  deriving DecidableEq

namespace ReferenceKind

/-- All reference kinds. -/
def all : List ReferenceKind :=
  [identifier, register]

/-- The name of a reference kind in the data of a tree. -/
def name : ReferenceKind → String
  | identifier => "Identifier"
  | register => "Register"

end ReferenceKind

/-- The kinds of nodes. -/
inductive NodeKind where
  | document
  | declaration
  | function
  | params
  | block
  | returning
  | whileLoop
  | importUnit
  | literal
  | primary
  | member
  | call
  | binary
  | unary
  | assignment
  deriving DecidableEq

namespace NodeKind

/-- All node kinds. -/
def all : List NodeKind :=
  [document, declaration, function, params, block, returning, whileLoop, importUnit, literal,
    primary, member, call, binary, unary, assignment]

/-- Every node kind is listed. -/
theorem mem_all (kind : NodeKind) : kind ∈ all := by
  cases kind <;> decide

/-- The name of a node kind, as data and labels show it. -/
def name : NodeKind → String
  | document => "DocumentBody"
  | declaration => "DeclarationNode"
  | function => "FunctionDeclaration"
  | params => "Params"
  | block => "BlockExpression"
  | returning => "ReturnStatement"
  | whileLoop => "WhileExpression"
  | importUnit => "ImportNode"
  | literal => "LiteralNode"
  | primary => "PrimaryExpression"
  | member => "MemberExpression"
  | call => "CallExpression"
  | binary => "BinaryExpression"
  | unary => "UnaryExpression"
  | assignment => "AssignmentExpression"

/-- The short name of a node kind, which differs for literals alone. -/
def shortName : NodeKind → String
  | literal => "Literal"
  | kind => kind.name

/-- Statements stand in documents and blocks; expressions have a value; the two remaining kinds only
hold other nodes. -/
def family : NodeKind → String
  | declaration | function | block | returning | whileLoop | importUnit => "Statement"
  | literal | primary | member | call | binary | unary | assignment => "Expression"
  | document | params => "ASTNode"

/-- A place as texts about nodes show it. -/
def placeText (location : Option Location) : String :=
  match location with
  | some location => location.text
  | none => "None"

/-- The short text of a node of this kind at a place. -/
def textAt (kind : NodeKind) (location : Option Location) : String :=
  kind.name ++ "@" ++ placeText location

/-- The long text of a node of this kind at a place. -/
def detailAt (kind : NodeKind) (location : Option Location) : String :=
  kind.shortName ++ "(location=" ++ placeText location ++ ")"

end NodeKind

/-- A node of a syntax tree, with a tag on itself and on all nodes below it. -/
inductive Node (α : Type) where
  /-- The root of a program. -/
  | document (tag : α) (statements : List (Node α))
  /-- The declaration of a register, or of a parameter. -/
  | declaration (tag : α) (name : String) (isConst : Bool) (typeName : Option (Node α))
      (value : Node α)
  /-- The parameters of a function. -/
  | params (tag : α) (params : List (Node α))
  /-- Statements in braces. -/
  | block (tag : α) (statements : List (Node α))
  | function (tag : α) (name : String) (params : Node α) (returnType : Option (Node α))
      (body : Node α)
  | returning (tag : α) (argument : Option (Node α))
  | whileLoop (tag : α) (condition : Node α) (capture : Option (Node α)) (body : Node α)
  | importUnit (tag : α) (path : String)
  /-- A literal with its text as it was written. -/
  | literal (tag : α) (kind : LiteralKind) (value : String)
  /-- A reference to an identifier or a register. -/
  | primary (tag : α) (kind : ReferenceKind) (name : String)
  | member (tag : α) (object property : Node α)
  | call (tag : α) (callee : Node α) (args : List (Node α))
  | binary (tag : α) (operator : String) (left right : Node α)
  | unary (tag : α) (operator : String) (operand : Node α)
  /-- An assignment; any expression may stand on the left. -/
  | assignment (tag : α) (operator : String) (left right : Node α)

namespace Node

variable {α β : Type}

/-- The tag of a node. -/
def tag : Node α → α
  | document tag _ | declaration tag _ _ _ _ | params tag _ | block tag _ | function tag _ _ _ _
  | returning tag _ | whileLoop tag _ _ _ | importUnit tag _ | literal tag _ _ | primary tag _ _
  | member tag _ _ | call tag _ _ | binary tag _ _ _ | unary tag _ _ | assignment tag _ _ _ => tag

/-- The kind of a node. -/
def kind : Node α → NodeKind
  | document .. => .document
  | declaration .. => .declaration
  | params .. => .params
  | block .. => .block
  | function .. => .function
  | returning .. => .returning
  | whileLoop .. => .whileLoop
  | importUnit .. => .importUnit
  | literal .. => .literal
  | primary .. => .primary
  | member .. => .member
  | call .. => .call
  | binary .. => .binary
  | unary .. => .unary
  | assignment .. => .assignment

/-- The nodes directly below a node. The value of a declaration comes before its type, and the body
of a function before its return type. -/
def children : Node α → List (Node α)
  | document _ statements => statements
  | declaration _ _ _ typeName value => value :: typeName.toList
  | params _ ps => ps
  | block _ statements => statements
  | function _ _ ps returnType body => ps :: body :: returnType.toList
  | returning _ argument => argument.toList
  | whileLoop _ condition capture body => condition :: (capture.toList ++ [body])
  | importUnit _ _ | literal _ _ _ | primary _ _ _ => []
  | member _ object property => [object, property]
  | call _ callee args => callee :: args
  | binary _ _ left right => [left, right]
  | unary _ _ operand => [operand]
  | assignment _ _ left right => [left, right]

/-- A child is smaller than its node. -/
theorem sizeOf_lt_of_mem_children {n c : Node α} (h : c ∈ n.children) : sizeOf c < sizeOf n := by
  have option {o : Option (Node α)} (h : c ∈ o.toList) : sizeOf c < sizeOf o := by
    cases o with
    | none => cases h
    | some d =>
      obtain rfl : c = d := List.mem_singleton.mp h
      rw [Option.some.sizeOf_spec]
      omega
  cases n <;> simp only [children, List.mem_cons, List.mem_append, List.not_mem_nil, or_false] at h
  case document | params | block =>
    have := List.sizeOf_lt_of_mem h
    simp only [document.sizeOf_spec, params.sizeOf_spec, block.sizeOf_spec]
    omega
  case declaration =>
    rw [declaration.sizeOf_spec]
    rcases h with rfl | h
    · omega
    · have := option h
      omega
  case function =>
    rw [function.sizeOf_spec]
    rcases h with rfl | rfl | h
    · omega
    · omega
    · have := option h
      omega
  case returning =>
    have := option h
    rw [returning.sizeOf_spec]
    omega
  case whileLoop =>
    rw [whileLoop.sizeOf_spec]
    rcases h with rfl | h | rfl
    · omega
    · have := option h
      omega
    · omega
  case call =>
    rw [call.sizeOf_spec]
    rcases h with rfl | h
    · omega
    · have := List.sizeOf_lt_of_mem h
      omega
  case unary =>
    subst h
    rw [unary.sizeOf_spec]
    omega
  case member =>
    rw [member.sizeOf_spec]
    rcases h with rfl | rfl <;> omega
  case binary =>
    rw [binary.sizeOf_spec]
    rcases h with rfl | rfl <;> omega
  case assignment =>
    rw [assignment.sizeOf_spec]
    rcases h with rfl | rfl <;> omega

/-- A property that passes from the children of a node to the node holds of every tree. -/
theorem induction {motive : Node α → Prop}
    (step : ∀ n : Node α, (∀ c ∈ n.children, motive c) → motive n) (n : Node α) : motive n :=
  step n fun c _ => induction step c
termination_by sizeOf n
decreasing_by exact sizeOf_lt_of_mem_children (by assumption)

/-- A node and all nodes below it, depth first, every node before its children. -/
def walk (n : Node α) : List (Node α) :=
  n :: n.children.attach.flatMap fun ⟨c, _⟩ => walk c
termination_by sizeOf n
decreasing_by exact sizeOf_lt_of_mem_children (by assumption)

/-- The walk of a node is the node followed by the walks of its children. -/
theorem walk_eq (n : Node α) : n.walk = n :: n.children.flatMap walk := by
  rw [walk, List.flatMap_subtype (g := walk) (fun _ _ => rfl), List.unattach_attach]

/-- The walk of a node in so many frames, if they are enough. To walk from a child is a call inside
the walk from its node. -/
def walkWithin : (frames : Nat) → Node α → Option (List (Node α))
  | 0, _ => none
  | frames + 1, n => do
    let walks ← n.children.mapM (walkWithin frames)
    return n :: walks.flatten

/-- A node and all nodes below it, every node after its children: the order in which the nodes of a
tree are made. -/
def makingOrder (n : Node α) : List (Node α) :=
  (n.children.attach.flatMap fun ⟨c, _⟩ => makingOrder c) ++ [n]
termination_by sizeOf n
decreasing_by exact sizeOf_lt_of_mem_children (by assumption)

/-- The nodes of a tree are made children first. -/
theorem makingOrder_eq (n : Node α) : n.makingOrder = n.children.flatMap makingOrder ++ [n] := by
  rw [makingOrder, List.flatMap_subtype (g := makingOrder) (fun _ _ => rfl), List.unattach_attach]

mutual

/-- The same tree with other tags. -/
def map (f : α → β) : Node α → Node β
  | document tag statements => document (f tag) (mapAll f statements)
  | declaration tag name isConst typeName value =>
    declaration (f tag) name isConst (mapOption f typeName) (value.map f)
  | params tag ps => params (f tag) (mapAll f ps)
  | block tag statements => block (f tag) (mapAll f statements)
  | function tag name ps returnType body =>
    function (f tag) name (ps.map f) (mapOption f returnType) (body.map f)
  | returning tag argument => returning (f tag) (mapOption f argument)
  | whileLoop tag condition capture body =>
    whileLoop (f tag) (condition.map f) (mapOption f capture) (body.map f)
  | importUnit tag path => importUnit (f tag) path
  | literal tag kind value => literal (f tag) kind value
  | primary tag kind name => primary (f tag) kind name
  | member tag object property => member (f tag) (object.map f) (property.map f)
  | call tag callee args => call (f tag) (callee.map f) (mapAll f args)
  | binary tag operator left right => binary (f tag) operator (left.map f) (right.map f)
  | unary tag operator operand => unary (f tag) operator (operand.map f)
  | assignment tag operator left right => assignment (f tag) operator (left.map f) (right.map f)

/-- The same trees with other tags. -/
def mapAll (f : α → β) : List (Node α) → List (Node β)
  | [] => []
  | n :: ns => n.map f :: mapAll f ns

/-- The same tree with other tags, if there is one. -/
def mapOption (f : α → β) : Option (Node α) → Option (Node β)
  | none => none
  | some n => some (n.map f)

end

/-- To map the trees of a list is to map each of them. -/
@[simp] theorem mapAll_eq (f : α → β) (ns : List (Node α)) : mapAll f ns = ns.map (map f) := by
  induction ns with
  | nil => rfl
  | cons n ns ih => rw [mapAll, ih, List.map_cons]

/-- To map a tree that may be missing is to map it if it is there. -/
@[simp] theorem mapOption_eq (f : α → β) (o : Option (Node α)) :
    mapOption f o = o.map (map f) := by
  cases o <;> rfl

/-- Other tags leave the kind as it is. -/
@[simp] theorem kind_map (f : α → β) (n : Node α) : (n.map f).kind = n.kind := by
  cases n <;> rfl

/-- The tag of a tree with other tags. -/
@[simp] theorem tag_map (f : α → β) (n : Node α) : (n.map f).tag = f n.tag := by
  cases n <;> rfl

/-- Other tags leave the shape as it is. -/
@[simp] theorem children_map (f : α → β) (n : Node α) :
    (n.map f).children = n.children.map (map f) := by
  have option (o : Option (Node α)) : (o.map (map f)).toList = o.toList.map (map f) := by
    cases o <;> rfl
  cases n <;> simp [map, children, option]

/-- The short text of a node: its kind and place. -/
def text (n : Node (Option Location)) : String :=
  n.kind.textAt n.tag

/-- The long text of a node: its short kind, and its place in parentheses. -/
def detail (n : Node (Option Location)) : String :=
  n.kind.detailAt n.tag

end Node

end RegisterLang
