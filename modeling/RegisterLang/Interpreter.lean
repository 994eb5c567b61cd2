/-!
# Interpreters

What runs the front end has room for so many calls inside each other, writes numbers of so many
digits, and has memory for so long a run of spaces. Where that is not enough it breaks off with a
fault of its own, which is none of the errors that the front end reports.
-/

namespace RegisterLang

/-- What an interpreter has room for. -/
structure Interpreter where
  /-- How many calls may be open inside each other, among the parts of the front end that call
  themselves on the way. What these call besides takes a few frames more, which are not counted. -/
  frames : Nat
  /-- How many digits a number may have that is written out. -/
  digits : Nat
  /-- How long a run of spaces there is memory for. -/
  memory : Nat

/-- Why an interpreter breaks off. -/
inductive Fault where
  /-- One more call would be open than there is room for. -/
  | recursion
  /-- A number has too many digits to be written out. -/
  | digits
  /-- A run of spaces is longer than machine words count. -/
  | overflow
  /-- There is no memory for a run of spaces. -/
  | memory
  deriving DecidableEq

/-- The name that a fault goes by. -/
def Fault.name : Fault → String
  | recursion => "RecursionError"
  | digits => "ValueError"
  | overflow => "OverflowError"
  | memory => "MemoryError"

namespace Interpreter

/-- An interpreter as it is set up by default, with so much memory. -/
def standard (memory : Nat) : Interpreter :=
  ⟨1000, 4300, memory⟩

/-- A number has so few digits that it is written out. A sign does not count. -/
def writes (i : Interpreter) (n : Int) : Bool :=
  (toString n.natAbs).length ≤ i.digits

/-- The longest run that can be counted: the largest signed word of 64 bits. -/
def maxCount : Int := 0x7FFFFFFFFFFFFFFF

/-- What keeps a run of spaces from being made. -/
def runFault? (i : Interpreter) (length : Int) : Option Fault :=
  if maxCount < length then some .overflow
  else if i.memory < length then some .memory
  else none

/-- A run of spaces is made where it can be counted and there is memory for it. -/
theorem runFault?_eq_none_iff {i : Interpreter} {length : Int} :
    i.runFault? length = none ↔ length ≤ maxCount ∧ length ≤ i.memory := by
  rw [runFault?]
  split
  · exact iff_of_false nofun (by omega)
  · split
    · exact iff_of_false nofun (by omega)
    · exact iff_of_true rfl (by omega)

end Interpreter

end RegisterLang
