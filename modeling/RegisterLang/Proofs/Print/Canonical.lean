import RegisterLang.Proofs.Grammar.Shape

/-!
# The canonical text of a program

Every tree of a program has one canonical text. It is laid out as a list of items, which are tokens
and the blanks between them, so that the same list has both the tokens and the text to read off.
Parentheses stand exactly around those operands that bind more loosely than their place asks for.
-/

namespace RegisterLang

/-- How tightly the outermost operator of an expression binds. -/
def Node.level {α : Type} : Node α → Nat
  | assignment .. => 0
  | binary _ op _ _ => Grammar.rank op
  | unary .. => 9
  | _ => 10

/-- The node is an expression. -/
def Node.isExpression {α : Type} : Node α → Bool
  | literal .. | primary .. | member .. | call .. | binary .. | unary .. | assignment .. => true
  | _ => false

/-- The node is an expression of one token. -/
def Node.isAtom {α : Type} : Node α → Bool
  | literal .. | primary .. => true
  | _ => false

/-- Nothing binds more tightly than an expression of one token. -/
theorem Node.level_of_isAtom {α : Type} {tree : Node α} (h : tree.isAtom) : tree.level = 10 := by
  cases tree <;> first | rfl | cases h

/-- The name of a reference, such as that of a type. -/
def Node.nameText {α : Type} : Node α → String
  | primary _ _ name => name
  | _ => ""

/-- The kind of the tokens that literals of a kind are written as. -/
def LiteralKind.tokenKind : LiteralKind → TokenKind
  | number => .number
  | string => .string
  | boolean => .boolean
  | hexadecimal => .hex
  | binary => .binary
  | octal => .octal

/-- The kind of the tokens that references of a kind are written as. -/
def ReferenceKind.tokenKind : ReferenceKind → TokenKind
  | identifier => .identifier
  | register => .register

namespace Print

/-- What a canonical text is made of. -/
inductive Item where
  | space
  | newline
  | token (kind : TokenKind) (lexeme : String)

/-- The quotes around a string: single ones if there are double ones in it. -/
def quoteOf (content : String) : Char :=
  if '"' ∈ content.toList then '\'' else '"'

/-- How a token is written. -/
def spelling (kind : TokenKind) (lexeme : String) : List Char :=
  match kind with
  | .string => quoteOf lexeme :: (lexeme.toList ++ [quoteOf lexeme])
  | .register => '$' :: lexeme.toList
  | .directive => '@' :: lexeme.toList
  | .typeName => ':' :: ' ' :: lexeme.toList
  | _ => lexeme.toList

/-- A number is written as its text. -/
theorem spelling_number (lexeme : String) : spelling .number lexeme = lexeme.toList := rfl

/-- The text of an item. -/
def Item.text : Item → List Char
  | space => [' ']
  | newline => ['\n']
  | token kind lexeme => spelling kind lexeme

/-- The token of an item, if it is one. -/
def Item.token? : Item → Option Token
  | space | newline => none
  | token kind lexeme => some (.bare kind lexeme)

/-- The text of some items. -/
def written (items : List Item) : List Char :=
  items.flatMap Item.text

/-- The tokens among some items. -/
def tokens (items : List Item) : List Token :=
  items.filterMap Item.token?

/-- A delimiter as an item. -/
abbrev delimiter (lexeme : String) : Item :=
  .token .delimiter lexeme

/-- Items in parentheses, if they need them. -/
def wrapped (needed : Bool) (items : List Item) : List Item :=
  if needed then delimiter "(" :: (items ++ [delimiter ")"]) else items

/-- An expression statement ends with a semicolon; other statements have their own ends. -/
def terminated (tree : Node Unit) (items : List Item) : List Item :=
  if tree.isExpression then items ++ [delimiter ";"] else items

/-- The type of a register, directly behind it. -/
def typeItems : Option (Node Unit) → List Item
  | none => []
  | some typeName => [.token .typeName typeName.nameText]

/-- The type of a parameter or a result, behind a colon. -/
def colonItems : Option (Node Unit) → List Item
  | none => []
  | some typeName => [delimiter ":", .space, .token .identifier typeName.nameText]

/-- A parameter with its type. -/
def paramItems : Node Unit → List Item
  | .declaration _ name _ typeName _ => .token .identifier name :: colonItems typeName
  | _ => []

/-- A prefix operator. The signs are binary operators, too, and have their kind. -/
def prefixItem (op : String) : Item :=
  .token (if op ∈ Operator.signs then .binaryOperator else .unaryOperator) op

mutual

/-- The items of a tree. -/
def items : Node Unit → List Item
  | .document _ statements => [.newline].intercalate (statementItemsAll statements)
  | .declaration _ name isConst typeName value =>
    (if isConst then [.token .directive "const", .space] else []) ++
      .token .register name :: (typeItems typeName ++ .space ::
        (if value.isExpression then
          .token .assignOperator "=" :: .space :: (items value ++ [delimiter ";"])
        else items value))
  | .params _ ps => [delimiter ",", .space].intercalate (ps.map paramItems)
  | .block _ statements =>
    [delimiter openingBrace, .space] ++
      [.newline].intercalate (statementItemsAll statements) ++ [.space, delimiter closingBrace]
  | .function _ name params returnType body =>
    [.token .directive "func", .space, .token .identifier name, delimiter "("] ++ items params ++
      delimiter ")" :: (colonItems returnType ++ .space :: items body)
  | .returning _ argument =>
    .token .keyword "return" :: (argumentItems argument ++ [delimiter ";"])
  | .whileLoop _ condition capture body =>
    [.token .directive "while", .space, delimiter "("] ++ items condition ++
      delimiter ")" :: (captureItems capture ++ .space :: items body)
  | .importUnit _ path =>
    [.token .directive "import", delimiter "(", .token .string path, delimiter ")", delimiter ";"]
  | .literal _ kind value => [.token kind.tokenKind value]
  | .primary _ kind name => [.token kind.tokenKind name]
  | .member _ object property =>
    wrapped (object.level < 10) (items object) ++ delimiter "." :: items property
  | .call _ callee args =>
    wrapped (callee.level < 10) (items callee) ++ delimiter "(" ::
      ([delimiter ",", .space].intercalate (itemsAll args) ++ [delimiter ")"])
  | .binary _ op left right =>
    wrapped (left.level < Grammar.rank op) (items left) ++ .space :: .token .binaryOperator op ::
      .space :: wrapped (right.level < Grammar.rank op + 1) (items right)
  | .unary _ op operand =>
    prefixItem op :: .space :: wrapped (operand.level < 9) (items operand)
  | .assignment _ op left right =>
    wrapped (left.level < 1) (items left) ++ .space :: .token .assignOperator op ::
      .space :: items right

/-- The items of each of some trees. -/
def itemsAll : List (Node Unit) → List (List Item)
  | [] => []
  | tree :: trees => items tree :: itemsAll trees

/-- The items of each of some statements. -/
def statementItemsAll : List (Node Unit) → List (List Item)
  | [] => []
  | tree :: trees => terminated tree (items tree) :: statementItemsAll trees

/-- The value that is returned, behind a space. -/
def argumentItems : Option (Node Unit) → List Item
  | none => []
  | some argument => .space :: items argument

/-- The capture of a loop, between its bars. -/
def captureItems : Option (Node Unit) → List Item
  | none => []
  | some capture =>
    [.space, delimiter "|"] ++ wrapped (!capture.isAtom) (items capture) ++ [delimiter "|"]

end

/-- The items of a statement, with its end. -/
def statementItems (tree : Node Unit) : List Item :=
  terminated tree (items tree)

/-- The items of the trees of a list are those of each of them. -/
@[simp] theorem itemsAll_eq (trees : List (Node Unit)) : itemsAll trees = trees.map items := by
  induction trees with
  | nil => rfl
  | cons tree trees ih => rw [itemsAll, ih, List.map_cons]

/-- The items of the statements of a list are those of each of them. -/
@[simp] theorem statementItemsAll_eq (trees : List (Node Unit)) :
    statementItemsAll trees = trees.map statementItems := by
  induction trees with
  | nil => rfl
  | cons tree trees ih => rw [statementItemsAll, ih, List.map_cons, statementItems]

/-- The canonical text of a tree. -/
def text (tree : Node Unit) : String :=
  String.ofList (written (items tree))

/-- Operators bind as loosely as asked for, and the parentheses are glued to what is called. -/
example :
    text (.binary () "*" (.binary () "+" (.primary () .register "a") (.literal () .number "1"))
      (.call () (.primary () .identifier "f") [])) = "($a + 1) * f()" := by
  decide

/-! ### Reading off items -/

section

variable (xs ys : List Item) (kind : TokenKind) (lexeme : String)

/-- No items are written as no text. -/
@[simp] theorem written_nil : written [] = [] := rfl

/-- The text of the first item stands in front of that of the others. -/
@[simp] theorem written_cons (x : Item) : written (x :: xs) = x.text ++ written xs := rfl

/-- Items one after the other are written one after the other. -/
@[simp] theorem written_append : written (xs ++ ys) = written xs ++ written ys :=
  List.flatMap_append

/-- No items have no tokens. -/
@[simp] theorem tokens_nil : tokens [] = [] := rfl

/-- A blank is no token. -/
@[simp] theorem tokens_cons_space : tokens (.space :: xs) = tokens xs := rfl

/-- A line feed is no token. -/
@[simp] theorem tokens_cons_newline : tokens (.newline :: xs) = tokens xs := rfl

/-- The item of a token is that token, without a place. -/
@[simp] theorem tokens_cons_token :
    tokens (.token kind lexeme :: xs) = .bare kind lexeme :: tokens xs := rfl

/-- Items one after the other have their tokens one after the other. -/
@[simp] theorem tokens_append : tokens (xs ++ ys) = tokens xs ++ tokens ys :=
  List.filterMap_append

end

/-- What is separated is the first part, and then the others with the separator in front. -/
theorem intercalate_cons {α : Type} (sep part : List α) (parts : List (List α)) :
    sep.intercalate (part :: parts) = part ++ parts.flatMap (sep ++ ·) := by
  induction parts generalizing part with
  | nil => simp
  | cons next parts ih => simp [ih]

/-- Lines have the tokens of each line. -/
theorem tokens_lines (parts : List (List Item)) :
    tokens ([.newline].intercalate parts) = parts.flatMap tokens := by
  cases parts with
  | nil => rfl
  | cons part parts =>
    rw [intercalate_cons, tokens_append]
    exact congrArg (tokens part ++ ·) List.filterMap_flatMap

end Print

end RegisterLang
