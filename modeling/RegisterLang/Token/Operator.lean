import RegisterLang.Token

/-!
# Operators, delimiters and reserved words

The tables that classify lexemes, and the precedence of binary operators.
-/

namespace RegisterLang

/-- How tightly a binary operator binds, from the loosest to the tightest. -/
inductive Precedence where
  /-- Not the precedence of any operator. -/
  | none
  | assignment
  | or
  | and
  | equality
  | comparison
  | term
  | factor
  | power
  /-- The level above all binary operators. -/
  | unary
  deriving DecidableEq

namespace Precedence

/-- All levels, the loosest first. -/
def all : List Precedence :=
  [none, assignment, or, and, equality, comparison, term, factor, power, unary]

/-- The number of a level; a greater number binds more tightly. -/
def rank : Precedence → Nat
  | none => 0
  | assignment => 1
  | or => 2
  | and => 3
  | equality => 4
  | comparison => 5
  | term => 6
  | factor => 7
  | power => 8
  | unary => 9

/-- The name of a level. -/
def name : Precedence → String
  | none => "NONE"
  | assignment => "ASSIGNMENT"
  | or => "OR"
  | and => "AND"
  | equality => "EQUALITY"
  | comparison => "COMPARISON"
  | term => "TERM"
  | factor => "FACTOR"
  | power => "POWER"
  | unary => "UNARY"

end Precedence

namespace Operator

/-- Operators that stand between two operands. -/
def binary : List String :=
  ["+", "-", "*", "/", "%", "^", "==", "!=", ">", ">=", "<", "<=", "&&", "||"]

/-- Operators that stand before one operand. The minus sign is also binary. -/
def unary : List String :=
  ["!", "-"]

/-- Operators that assign to their left operand. -/
def assignment : List String :=
  ["=", "+=", "-=", "*=", "/=", "%=", "^=", "&&=", "||="]

/-- The operators of more than one character, the longest first, so that the first one that matches
is a longest one. -/
def multiChar : List String :=
  ["&&=", "||=", "!=", "%=", "&&", "*=", "+=", "-=", "/=", "<=", "==", ">=", "^=", "||"]

/-- The multi-character operators are the long ones of the binary and assignment operators. -/
theorem mem_multiChar_iff (op : String) :
    op ∈ multiChar ↔ (op ∈ binary ∨ op ∈ assignment) ∧ 1 < op.length := by
  constructor
  · intro h
    simp only [multiChar, List.mem_cons, List.not_mem_nil, or_false] at h
    rcases h with rfl | rfl | rfl | rfl | rfl | rfl | rfl | rfl | rfl | rfl | rfl | rfl | rfl | rfl
      <;> decide
  · rintro ⟨h | h, hlong⟩
    · simp only [binary, List.mem_cons, List.not_mem_nil, or_false] at h
      rcases h with rfl | rfl | rfl | rfl | rfl | rfl | rfl | rfl | rfl | rfl | rfl | rfl | rfl |
        rfl <;> revert hlong <;> decide
    · simp only [assignment, List.mem_cons, List.not_mem_nil, or_false] at h
      rcases h with rfl | rfl | rfl | rfl | rfl | rfl | rfl | rfl | rfl <;> revert hlong <;> decide

/-- The token kind of an operator. A sign that is both binary and unary counts as binary. -/
def kind? (op : String) : Option TokenKind :=
  if op ∈ binary then some .binaryOperator
  else if op ∈ unary then some .unaryOperator
  else if op ∈ assignment then some .assignOperator
  else none

/-- The precedence of the operators that have one. -/
def levels : List (String × Precedence) :=
  [("=", .assignment), ("+=", .assignment), ("-=", .assignment),
    ("||", .or),
    ("&&", .and),
    ("==", .equality), ("!=", .equality),
    (">", .comparison), (">=", .comparison), ("<", .comparison), ("<=", .comparison),
    ("+", .term), ("-", .term),
    ("*", .factor), ("/", .factor), ("%", .factor),
    ("^", .power)]

/-- The precedence of an operator. -/
def level (op : String) : Precedence :=
  (levels.lookup op).getD .none

/-- Binary operators that may also stand before an operand. -/
def signs : List String :=
  ["+", "-"]

end Operator

/-- The delimiters that are always tokens of their own. The bar is one only when it stands alone. -/
def delimiters : List Char :=
  [',', ';', ':', '(', ')', '{', '}', '.']

/-- The brace that opens a block. -/
def openingBrace : String := "\x7b"

/-- The brace that closes a block. -/
def closingBrace : String := "\x7d"

/-- The words for truth values. -/
def booleanWords : List String :=
  ["true", "false"]

/-- The reserved words. -/
def reservedWords : List String :=
  ["true", "false", "return"]

/-- The token kind of a word. -/
def wordKind (word : String) : TokenKind :=
  if word ∈ booleanWords then .boolean
  else if word ∈ reservedWords then .keyword
  else .identifier

end RegisterLang
