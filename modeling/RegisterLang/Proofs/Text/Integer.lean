import Mathlib.Tactic.Common

/-!
# Integers as they are written

Numbers are written with digits, and a minus sign if they are negative. So no other character is in
them, and a greater number has no fewer digits.
-/

namespace RegisterLang.Text

variable {c : Char} {m n : Nat}

/-- The characters of a number are its decimal digits. -/
theorem toList_toString (n : Nat) : (toString n).toList = Nat.toDigits 10 n := by
  rw [Nat.toString_eq_ofList_toDigits, String.toList_ofList]

/-- In a number there are only digits. -/
theorem isDigit_of_mem_toString (h : c ∈ (toString n).toList) : c.isDigit := by
  rw [toList_toString] at h
  exact Nat.isDigit_of_mem_toDigits (by decide) (by decide) h

/-- Integers are written with digits and a minus sign. -/
theorem isDigit_or_eq_of_mem_toString {n : Int} (h : c ∈ (toString n).toList) :
    c.isDigit ∨ c = '-' := by
  change c ∈ n.repr.toList at h
  rw [Int.repr_eq_if] at h
  split at h
  · exact .inl (isDigit_of_mem_toString h)
  · rw [String.toList_append, List.mem_append] at h
    exact h.symm.imp isDigit_of_mem_toString List.mem_singleton.mp

/-- What is neither a digit nor a minus sign is in no number. -/
theorem notMem_toString (n : Int) (hdigit : c.isDigit = false) (hminus : c ≠ '-') :
    c ∉ (toString n).toList := by
  intro h
  rcases isDigit_or_eq_of_mem_toString h with hc | hc
  · rw [hdigit] at hc
    cases hc
  · exact hminus hc

/-- A greater number has no fewer digits. -/
theorem length_toString_le (h : m ≤ n) : (toString m).length ≤ (toString n).length := by
  rw [← String.length_toList, ← String.length_toList, toList_toString, toList_toString]
  have hpos : 0 < (Nat.toDigits 10 n).length := Nat.length_toDigits_pos
  have hn := (Nat.length_toDigits_le_iff (by decide) hpos).mp
    (Nat.le_refl (Nat.toDigits 10 n).length)
  exact (Nat.length_toDigits_le_iff (by decide) hpos).mpr (by omega)

end RegisterLang.Text
