import RegisterLang.Proofs.Grammar.Derivation
import RegisterLang.Proofs.Node.Walk

/-!
# Names and literals in a tree

A tree holds names, literals and paths, its items. Each is the text of one token, so a tree and the
tokens that it is read from hold the same items; and as tokens stand in the order of the text, so do
the nodes.
-/

namespace RegisterLang

/-! ### Items of trees -/

namespace Node

variable {α : Type}

/-- A name, a literal or a path in a tree: the tag of the node that holds it, and its text. -/
structure Item (α : Type) where
  tag : α
  text : String

/-- The name of a declaration or of a function, the path of an import, or the text of a literal or
of a reference. -/
def item? : Node α → Option (Item α)
  | declaration tag name _ _ _ => some ⟨tag, name⟩
  | function tag name _ _ _ => some ⟨tag, name⟩
  | importUnit tag path => some ⟨tag, path⟩
  | literal tag _ value => some ⟨tag, value⟩
  | primary tag _ name => some ⟨tag, name⟩
  | _ => none

/-- The node holds the parameters of a function. -/
def isParams : Node α → Bool
  | params _ _ => true
  | _ => false

/-- The nodes directly below a node that are written in a source. The value of a parameter is not
written there, it only fills a place. -/
def written (isParam : Bool) (n : Node α) : List (Node α) :=
  match isParam, n with
  | true, declaration _ _ _ typeName _ => typeName.toList
  | _, n => n.children

/-- What is written below a node is below it. -/
theorem mem_children_of_mem_written {isParam : Bool} {n c : Node α}
    (h : c ∈ n.written isParam) : c ∈ n.children := by
  unfold written at h
  split at h
  · exact List.mem_cons_of_mem _ h
  · exact h

/-- A node and all nodes below it that are written in a source. -/
def writtenWalk (isParam : Bool) (n : Node α) : List (Node α) :=
  n :: (n.written isParam).attach.flatMap fun ⟨c, _⟩ => writtenWalk n.isParams c
termination_by sizeOf n
decreasing_by exact sizeOf_lt_of_mem_children (mem_children_of_mem_written (by assumption))

/-- The items of a node and of those below it that are written in a source. -/
def itemsWithin (isParam : Bool) (n : Node α) : List (Item α) :=
  (n.writtenWalk isParam).filterMap item?

/-- The items of a whole tree. -/
def items (n : Node α) : List (Item α) :=
  n.itemsWithin false

/-- The items of a node are its own and those of the nodes written below it. -/
theorem itemsWithin_eq (isParam : Bool) (n : Node α) :
    n.itemsWithin isParam =
      n.item?.toList ++ (n.written isParam).flatMap (itemsWithin n.isParams) := by
  have hwalk : n.writtenWalk isParam =
      n :: (n.written isParam).flatMap (writtenWalk n.isParams) := by
    rw [writtenWalk, List.flatMap_subtype (g := writtenWalk n.isParams) (fun _ _ => rfl),
      List.unattach_attach]
  rw [itemsWithin, hwalk, List.filterMap_cons, List.filterMap_flatMap]
  cases n.item? <;> rfl

/-- The nodes directly below a node that follow each other in a source: the elements of a list, the
operands of an operator, an object and its property, a callee and its arguments. -/
def row : Node α → List (Node α)
  | document _ statements => statements
  | params _ ps => ps
  | block _ statements => statements
  | call _ callee args => callee :: args
  | member _ object property => [object, property]
  | binary _ _ left right => [left, right]
  | assignment _ _ left right => [left, right]
  | _ => []

/-- The nodes below a node stand in order: none begins in front of it, and those that follow each
other begin one behind the other. -/
structure Ordered (n : Node Location) : Prop where
  nested : ∀ c ∈ n.children, n.tag.offset ≤ c.tag.offset
  row : (n.row.map (·.tag.offset)).Pairwise (· < ·)

end Node

/-! ### Items of tokens -/

/-- The kinds of tokens that hold an item: registers, identifiers, types and literals. -/
def TokenKind.holdsItem : TokenKind → Bool
  | register | identifier | typeName => true
  | kind => kind.isLiteral

namespace Token

/-- What a token holds, with its place. -/
def item (t : Token) : Node.Item Location :=
  ⟨t.location, t.lexeme⟩

/-- A token of a kind that holds no item holds none. -/
theorem holdsItem_of_is {t : Token} {kind : TokenKind} {lexeme : String} (h : t.is kind lexeme)
    (hkind : kind.holdsItem = false) : t.kind.holdsItem = false := by
  rw [(is_iff.mp h).1, hkind]

/-- No delimiter holds an item. -/
theorem holdsItem_of_isDelimiter {t : Token} {lexeme : String} (h : t.isDelimiter lexeme) :
    t.kind.holdsItem = false :=
  holdsItem_of_is h rfl

end Token

/-- The tokens stand in the order of the text. -/
def InOrder (tokens : List Token) : Prop :=
  tokens.Pairwise fun t u => t.location.offset < u.location.offset

end RegisterLang
