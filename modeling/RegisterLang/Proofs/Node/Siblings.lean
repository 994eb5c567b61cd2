import Mathlib.Data.List.Basic
import RegisterLang.Node

/-!
# The order of siblings

A declaration may have a type, and so may a function. Among the children the type comes last; a
source writes it one place earlier, in front of the value or of the body.
-/

namespace RegisterLang.Node

variable {α β : Type}

/-- The type of a declaration or of a function. -/
def ownType : Node α → Option (Node α)
  | declaration _ _ _ typeName _ => typeName
  | function _ _ _ returnType _ => returnType
  | _ => none

/-- The nodes directly below a node in the order in which a source writes them. -/
def inSourceOrder : Node α → List (Node α)
  | declaration _ _ _ typeName value => typeName.toList ++ [value]
  | function _ _ ps returnType body => ps :: (returnType.toList ++ [body])
  | n => n.children

/-- Children and source have the same order, but for a type and the value or body behind it. -/
theorem inSourceOrder_cases (n : Node α) :
    n.ownType = none ∧ n.inSourceOrder = n.children ∨
      ∃ front type last, n.ownType = some type ∧ n.inSourceOrder = front ++ [type, last] ∧
        n.children = front ++ [last, type] := by
  cases n with
  | declaration tag name isConst typeName value =>
    cases typeName with
    | none => exact .inl ⟨rfl, rfl⟩
    | some type => exact .inr ⟨[], type, value, rfl, rfl, rfl⟩
  | function tag name ps returnType body =>
    cases returnType with
    | none => exact .inl ⟨rfl, rfl⟩
    | some type => exact .inr ⟨[ps], type, body, rfl, rfl, rfl⟩
  | _ => exact .inl ⟨rfl, rfl⟩

/-- The nodes below a node are the same in the order of the source, only in another order. -/
theorem inSourceOrder_perm (n : Node α) : n.inSourceOrder.Perm n.children := by
  rcases n.inSourceOrder_cases with ⟨-, h⟩ | ⟨front, type, last, -, h, hchildren⟩
  · rw [h]
  · rw [h, hchildren]
    exact (List.Perm.swap last type []).append_left front

/-- Other tags leave the order as it is. -/
theorem inSourceOrder_map (f : α → β) (n : Node α) :
    (n.map f).inSourceOrder = n.inSourceOrder.map (map f) := by
  cases n <;> simp [map, inSourceOrder, children, Option.toList_map]

end RegisterLang.Node
