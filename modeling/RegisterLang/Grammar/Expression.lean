import RegisterLang.Grammar.Reader

/-!
# Expressions

The grammar of expressions, loosest first: assignments, which associate to the right; binary
operators, which bind by precedence and associate to the left; unary operators; calls and members;
and the primaries. What opens a level of nesting is reached through the parameter `inner`, so each
definition here reads one level only. Children are built before their parents.
-/

namespace RegisterLang

/-- What opens a level of nesting of its own. -/
inductive Production where
  | statement
  | expression
  /-- The operand of a unary operator. -/
  | operand
  deriving DecidableEq

namespace Grammar

open Parse Reader

/-- The kind of literal that a token kind stands for. -/
def literalKind? : TokenKind → Option LiteralKind
  | .number => some .number
  | .string => some .string
  | .boolean => some .boolean
  | .hex => some .hexadecimal
  | .binary => some .binary
  | .octal => some .octal
  | _ => none

variable {m : Type → Type} {τ : Type} [Monad m] [MonadLiftT Parse m] [Reader m τ]

/-- A token as a reference to an identifier. -/
def identifier (token : Token) : m (Node τ) :=
  make token.location (.primary · .identifier token.lexeme)

/-- In the plain way of reading, an identifier is only its tree. -/
@[simp] theorem identifier_eq (token : Token) :
    (identifier token : Parse Tree) = pure (.primary token.location .identifier token.lexeme) := rfl

variable (inner : Production → m (Node τ))

/-- An expression, one level deeper. -/
def expression : m (Node τ) :=
  framed (inner .expression)

/-! ### Primaries, calls and members -/

/-- A literal, an identifier, a register, or an expression in parentheses. -/
def primary : m (Node τ) := do
  let token ← next
  match literalKind? token.kind with
  | some kind =>
    discard advance
    make token.location (.literal · kind token.lexeme)
  | none =>
    if token.kind = .identifier then
      discard advance
      make token.location (.primary · .identifier token.lexeme)
    else if token.kind = .register then
      discard advance
      make token.location (.primary · .register token.lexeme)
    else if token.isDelimiter "(" then
      discard advance
      let content ← expression inner
      discard (consumeDelimiter ")" "')' after expression")
      return content
    else fail .invalidExpression

/-- The arguments behind the first one, in at most as many rounds as `room` has tokens. The last may
be followed by a comma. -/
def furtherArguments : (room : List Token) → m (List (Node τ))
  | [] => return []
  | _ :: room => do
    if ← matchDelimiter "," then
      if ← checkDelimiter ")" then return []
      else
        let argument ← expression inner
        return argument :: (← furtherArguments room)
    else return []

/-- The call of `callee`, from its opening parenthesis on. -/
def call (callee : Node τ) : m (Node τ) := do
  discard advance
  let arguments ←
    if ← checkDelimiter ")" then pure []
    else
      let argument ← expression inner
      pure (argument :: (← furtherArguments inner (← room)))
  discard (consumeDelimiter ")" "')' after arguments")
  make (place m callee.tag) (.call · callee arguments)

/-- A member of `object`, from its dot on. -/
def member (object : Node τ) : m (Node τ) := do
  discard advance
  let name ← consume .identifier "a property name after '.'"
  let property ← identifier name
  make (place m object.tag) (.member · object property)

/-- The calls and members that follow an expression, in at most as many rounds as `room` has
tokens. Each round puts the node of the round before below another one. -/
def suffixes : (room : List Token) → Node τ → m (Node τ)
  | [], tree => return tree
  | _ :: room, tree => do
    if ← checkDelimiter "(" then suffixes room (← framed (call inner tree))
    else if ← checkDelimiter "." then suffixes room (← member tree)
    else return tree

/-- A primary and the calls and members that follow it. -/
def suffixed : m (Node τ) := do
  let tree ← framed (primary inner)
  suffixes inner (← room) tree

/-! ### Operators -/

/-- The token stands before an operand. -/
def isUnary (token : Token) : Bool :=
  token.kind == .unaryOperator ||
    (token.kind == .binaryOperator && Operator.signs.contains token.lexeme)

/-- Only operators stand before an operand. -/
theorem kind_of_isUnary {token : Token} (h : isUnary token) :
    token.kind = .unaryOperator ∨ token.kind = .binaryOperator := by
  simp only [isUnary, Bool.or_eq_true, Bool.and_eq_true, beq_iff_eq] at h
  exact h.imp_right And.left

/-- An operand: unary operators, and what they stand before. -/
def unary : m (Node τ) := do
  let token ← next
  if isUnary token then
    discard advance
    let operand ← inner .operand
    make token.location (.unary · token.lexeme operand)
  else framed (suffixed inner)

/-- The number of a binary operator's precedence. -/
def rank (op : String) : Nat :=
  (Operator.level op).rank

/-- No binary operator binds as tightly as a prefix operator. -/
theorem rank_le (op : String) : rank op ≤ 8 := by
  have hall : ∀ p ∈ Operator.levels, p.2.rank ≤ 8 := by decide
  unfold rank Operator.level
  cases hlevel : Operator.levels.lookup op with
  | none => decide
  | some level =>
    obtain ⟨before, after, hsplit, _⟩ := List.lookup_eq_some_iff.mp hlevel
    exact hall (op, level) (by simp [hsplit])

/-- The operators at or above `least` that follow `left`, in at most as many rounds as `room` has
tokens. Operators of equal precedence associate to the left, since what follows an operator binds
more tightly than it. -/
def climb (right : Nat → m (Node τ)) (least : Nat) : (room : List Token) → Node τ → m (Node τ)
  | [], left => return left
  | _ :: room, left => do
    let op ← next
    if op.kind = .binaryOperator ∧ rank op.lexeme ≠ 0 ∧ least ≤ rank op.lexeme then
      discard advance
      let operand ← framed (right (rank op.lexeme + 1))
      let tree ← make (place m left.tag) (.binary · op.lexeme left operand)
      climb right least room tree
    else return left

/-- Operands and the operators at or above `least` between them; `levels` is the number of levels
from `least` on. Without a level left, there is only an operand. -/
def binaryWithin : (levels least : Nat) → m (Node τ)
  | 0, _ => framed (unary inner)
  | levels + 1, least => do
    let left ← framed (unary inner)
    climb (binaryWithin levels) least (← room) left

/-- The rank that no operator reaches. -/
def topRank : Nat := 10

/-- Operands and the operators at or above `least` between them. -/
def binary (least : Nat) : m (Node τ) :=
  binaryWithin inner (topRank - least) least

/-- An assignment, or an expression without one. -/
def assignment : m (Node τ) := do
  let left ← framed (binary inner 0)
  if ← check .assignOperator then
    let op ← advance
    let right ← inner .expression
    make (place m left.tag) (.assignment · op.lexeme left right)
  else return left

end Grammar

end RegisterLang
