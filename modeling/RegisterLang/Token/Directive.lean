import RegisterLang.Text.EditDistance
import RegisterLang.Text.LetterCase.Lower

/-!
# Directives

Directives are the words that may follow an at sign. A word that is none of them gets suggestions:
the directives that lie within two edits of it, the nearest first.
-/

namespace RegisterLang

/-- The words that may follow an at sign. -/
inductive Directive where
  | importUnit
  | const
  | typeOf
  | func
  | whileLoop
  | forLoop
  deriving DecidableEq

namespace Directive

/-- All directives, in their declared order. -/
def all : List Directive :=
  [importUnit, const, typeOf, func, whileLoop, forLoop]

/-- Every directive is listed. -/
theorem mem_all (d : Directive) : d ∈ all := by
  cases d <;> decide

/-- The word of a directive. -/
def word : Directive → String
  | importUnit => "import"
  | const => "const"
  | typeOf => "typeOf"
  | func => "func"
  | whileLoop => "while"
  | forLoop => "for"

/-- The directive of a word. -/
def ofWord? (word : String) : Option Directive :=
  all.find? (·.word == word)

/-- A word names a directive when it is the word of it. -/
theorem ofWord?_eq_some_iff {word : String} {d : Directive} :
    ofWord? word = some d ↔ word = d.word := by
  constructor
  · intro h
    have hword := List.find?_some (p := fun e : Directive => e.word == word) h
    exact (eq_of_beq hword).symm
  · rintro rfl
    cases d <;> decide

/-- How far a word is from a directive, letter case aside. -/
def distance (word : String) (d : Directive) : Nat :=
  Text.editDistance (Text.lowerCase word) (Text.lowerCase d.word)

/-- A directive as it is written. -/
def written (d : Directive) : String :=
  "@" ++ d.word

/-- The directives that a word may have been meant for: those within two edits, the nearest first,
equally near ones in their declared order, and three at most. -/
def nearest (word : String) : List Directive :=
  let close := all.filter fun d => distance word d ≤ 2
  (close.mergeSort fun d e => distance word d ≤ distance word e).take 3

/-- What a report suggests instead of a word. -/
def suggestions (word : String) : List String :=
  (nearest word).map written

end Directive

end RegisterLang
