import RegisterLang.Proofs.Token.Soundness

/-!
# The order of operators

Operators of more than one character are tried in some order, the longer ones first. Which of two
operators of one length is tried first is left open. It does not matter: of all the operators in
front of a text there is only one longest, and that one is found in every order.
-/

namespace RegisterLang

namespace Operator

/-- The operators of more than one character. -/
def IsMultiChar (op : String) : Prop :=
  (op ∈ binary ∨ op ∈ assignment) ∧ 1 < op.length

/-- An order in which the operators of more than one character may be tried: each of them is listed
once, and none behind a shorter one. -/
structure IsOrder (operators : List String) : Prop where
  nodup : operators.Nodup
  mem_iff : ∀ op, op ∈ operators ↔ IsMultiChar op
  sorted : operators.Pairwise fun op op' => op'.length ≤ op.length

/-- The longest operator of more than one character in front of a text. -/
structure IsLongest (rest : List Char) (op : String) : Prop where
  isMultiChar : IsMultiChar op
  front : op.toList <+: rest
  length_le : ∀ op', IsMultiChar op' → op'.toList <+: rest → op'.length ≤ op.length

variable {operators operators' : List String} {rest : List Char} {op op' : String}

/-- Two texts of one length in front of the same text are the same. -/
theorem eq_of_prefix (h : op.toList <+: rest) (h' : op'.toList <+: rest)
    (hlength : op.length = op'.length) : op = op' := by
  rw [← String.length_toList, ← String.length_toList] at hlength
  have hfront := List.prefix_of_prefix_length_le h h' (Nat.le_of_eq hlength)
  exact String.toList_inj.mp (hfront.eq_of_length hlength)

/-- In front of a text there is at most one longest operator. -/
theorem IsLongest.eq (h : IsLongest rest op) (h' : IsLongest rest op') : op = op' := by
  have hle := h'.length_le op h.isMultiChar h.front
  have hle' := h.length_le op' h'.isMultiChar h'.front
  exact eq_of_prefix h.front h'.front (Nat.le_antisymm hle hle')

/-- In every order, the operator that is found is the longest one. -/
theorem IsOrder.find?_eq_some_iff (h : IsOrder operators) :
    (operators.find? fun op => op.toList.isPrefixOf rest) = some op ↔ IsLongest rest op := by
  have hlongest {found : String}
      (hfind : (operators.find? fun op => op.toList.isPrefixOf rest) = some found) :
      IsLongest rest found := by
    have hfront := List.find?_some hfind
    refine ⟨(h.mem_iff found).mp (List.mem_of_find?_eq_some hfind),
      List.isPrefixOf_iff_prefix.mp hfront, fun op' hop' hfront' => ?_⟩
    exact Scanner.length_le_of_find? h.sorted hfind ((h.mem_iff op').mpr hop')
      (List.isPrefixOf_iff_prefix.mpr hfront')
  constructor
  · exact hlongest
  · intro hop
    cases hfind : operators.find? fun op => op.toList.isPrefixOf rest with
    | none =>
      have hnot := List.find?_eq_none.mp hfind op ((h.mem_iff op).mpr hop.isMultiChar)
      exact absurd (List.isPrefixOf_iff_prefix.mpr hop.front) hnot
    | some found => rw [(hlongest hfind).eq hop]

/-- All orders find the same. -/
theorem IsOrder.find?_eq (h : IsOrder operators) (h' : IsOrder operators') (rest : List Char) :
    (operators.find? fun op => op.toList.isPrefixOf rest) =
      operators'.find? fun op => op.toList.isPrefixOf rest := by
  apply Option.ext
  intro op
  rw [h.find?_eq_some_iff, h'.find?_eq_some_iff]

/-- Every rearrangement of the operators that keeps the longer ones in front is an order. -/
theorem isOrder_of_perm (hperm : operators.Perm multiChar)
    (hsorted : operators.Pairwise fun op op' => op'.length ≤ op.length) : IsOrder operators where
  nodup := hperm.nodup_iff.mpr (by decide)
  mem_iff op := hperm.mem_iff.trans (mem_multiChar_iff op)
  sorted := hsorted

/-- The operators stand in an order in which none hides a longer one. -/
theorem isOrder_multiChar : IsOrder multiChar :=
  isOrder_of_perm (.refl _) Scanner.pairwise_length_multiChar

end Operator

open Operator

namespace Scanner

variable {operators operators' : List String}

/-- An operator is read alike in either order. -/
theorem operator_eq_of_isOrder (h : IsOrder operators) (h' : IsOrder operators') (file : String)
    (c : Char) :
    operator { file, operators } c = operator { file, operators := operators' } c := by
  funext s
  simp only [operator, h.find?_eq h']
  rfl

/-- Members of words and registers have no operators in them. -/
theorem members_eq_of_file (operators operators' : List String) (file : String)
    (room : List Char) :
    members { file, operators } room = members { file, operators := operators' } room := by
  induction room with
  | nil => rfl
  | cons _ room ih =>
    rw [members, members, ih]
    rfl

/-- A step takes the same way in every order. -/
theorem step_eq_of_isOrder (h : IsOrder operators) (h' : IsOrder operators') (file : String) :
    step { file, operators } = step { file, operators := operators' } := by
  have hmembers : memberChain { file, operators } =
      memberChain { file, operators := operators' } := by
    simp only [memberChain, members_eq_of_file operators operators']
  simp only [step, operator_eq_of_isOrder h h', hmembers]
  rfl

/-- Steps in a row are the same in either order. -/
theorem steps_eq_of_isOrder (h : IsOrder operators) (h' : IsOrder operators') (file : String)
    (room : List Char) :
    steps { file, operators } room = steps { file, operators := operators' } room := by
  induction room with
  | nil => rfl
  | cons _ room ih => rw [steps, steps, ih, step_eq_of_isOrder h h']

/-- A pass leaves the same state in every order, also if it fails. -/
theorem tokenize_eq_of_isOrder (h : IsOrder operators) (h' : IsOrder operators') (file : String)
    (source : List Char) :
    tokenize { file, operators } source = tokenize { file, operators := operators' } source := by
  rw [tokenize, tokenize, steps_eq_of_isOrder h h']
  rfl

/-- Scanning does not depend on the order of the operators: in every order a source has the same
tokens at the same places, or the same error at the same place. -/
theorem scan_eq_of_isOrder (h : IsOrder operators) (h' : IsOrder operators')
    (source file : String) :
    scan { file, operators } source = scan { file, operators := operators' } source := by
  rw [scan, scan, tokenize_eq_of_isOrder h h']

/-- The order of the table and its opposite, for a text with operators of both lengths and a lone
ampersand, which is none. -/
theorem scan_eq_of_isOrder_bars :
    IsOrder ["||=", "&&=", "||", "^=", ">=", "==", "<=", "/=", "-=", "+=", "*=", "&&", "%=", "!="] ∧
      IsOrder multiChar ∧
      scan { file := "f", operators :=
        ["||=", "&&=", "||", "^=", ">=", "==", "<=", "/=", "-=", "+=", "*=", "&&", "%=", "!="] }
          "$a ||= $b || 1 & 2;" =
        scan { file := "f" } "$a ||= $b || 1 & 2;" := by
  have horder : IsOrder
      ["||=", "&&=", "||", "^=", ">=", "==", "<=", "/=", "-=", "+=", "*=", "&&", "%=", "!="] :=
    isOrder_of_perm (by decide) (by decide)
  exact ⟨horder, isOrder_multiChar, scan_eq_of_isOrder horder isOrder_multiChar _ "f"⟩

end Scanner

end RegisterLang
