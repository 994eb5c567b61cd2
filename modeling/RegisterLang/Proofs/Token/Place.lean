import Mathlib.Data.List.Induction
import RegisterLang.Proofs.Steps
import RegisterLang.Token.Scan

/-!
# Places in a text

A place is exact if its line and its column are those of its offset. Going on in a text leads to
places with greater offsets, on a later line or in a later column.
-/

namespace RegisterLang

/-- The offset behind the last line feed of a text, or zero if there is none. -/
def lineStart (cs : List Char) : Nat :=
  cs.length - (cs.reverse.takeWhile (· != '\n')).length

/-- A line feed starts a line behind it. -/
theorem lineStart_append_lineFeed (cs : List Char) : lineStart (cs ++ ['\n']) = cs.length + 1 := by
  simp [lineStart]

/-- Any other character stays on its line. -/
theorem lineStart_append {c : Char} (hc : c ≠ '\n') (cs : List Char) :
    lineStart (cs ++ [c]) = lineStart cs := by
  simp [lineStart, hc]

/-- A line starts in the text. -/
theorem lineStart_le (cs : List Char) : lineStart cs ≤ cs.length :=
  Nat.sub_le _ _

/-- The line counts the line feeds in front, and the column counts from the last of them. -/
theorem Position.afterAll_start (cs : List Char) :
    start.afterAll cs = ⟨1 + cs.count '\n', cs.length - lineStart cs + 1, cs.length⟩ := by
  induction cs using List.reverseRecOn with
  | nil => rfl
  | append_singleton cs c ih =>
    have hle := lineStart_le cs
    rw [afterAll_append, ih, afterAll_cons, afterAll_nil, after]
    split
    · next hc =>
      subst hc
      rw [lineStart_append_lineFeed]
      simp [Nat.add_assoc]
    · next hc =>
      rw [lineStart_append hc]
      simp [List.count_append, hc]
      omega

namespace Scanner

/-- The location of the character with this offset. -/
def placeAt (file : String) (source : List Char) (offset : Nat) : Location :=
  (Position.start.afterAll (source.take offset)).inFile file

/-- The offset of a place inside the text. -/
theorem offset_placeAt (file : String) {source : List Char} {n : Nat} (hn : n ≤ source.length) :
    (placeAt file source n).offset = n := by
  simp [placeAt, Position.afterAll_start, Position.inFile, hn]

/-- A location is exact in a text: its offset is in the text, its line is one more than the number
of line feeds in front of the offset, and its column counts from behind the last of them. -/
def IsExact (source : List Char) (place : Location) : Prop :=
  ∃ n : Nat, place.offset = n ∧ n ≤ source.length ∧
    place.line = 1 + (source.take n).count '\n' ∧
    place.column = n - lineStart (source.take n) + 1

/-- The place of an offset in a text is exact. -/
theorem isExact_placeAt (file : String) {source : List Char} {n : Nat} (hn : n ≤ source.length) :
    IsExact source (placeAt file source n) := by
  have hle := lineStart_le (source.take n)
  rw [List.length_take] at hle
  refine ⟨n, offset_placeAt file hn, hn, ?_, ?_⟩
  · simp [placeAt, Position.afterAll_start, Position.inFile]
  · simp only [placeAt, Position.afterAll_start, Position.inFile, List.length_take]
    omega

/-- A location is in front of another one: it has a smaller offset, and it is on an earlier line or
in an earlier column of the same line. -/
def Before (place place' : Location) : Prop :=
  place.offset < place'.offset ∧
    (place.line < place'.line ∨ place.line = place'.line ∧ place.column < place'.column)

/-- Going on leads to a later line or a later column. -/
theorem lines_afterAll (p : Position) {cs : List Char} (hcs : cs ≠ []) :
    p.line < (p.afterAll cs).line ∨
      p.line = (p.afterAll cs).line ∧ p.column < (p.afterAll cs).column := by
  induction cs generalizing p with
  | nil => exact absurd rfl hcs
  | cons c cs ih =>
    rw [Position.afterAll_cons]
    have hfirst : p.line < (p.after c).line ∨
        p.line = (p.after c).line ∧ p.column < (p.after c).column := by
      unfold Position.after
      split
      · exact .inl (Nat.lt_succ_self _)
      · exact .inr ⟨rfl, Nat.lt_succ_self _⟩
    cases cs with
    | nil => exact hfirst
    | cons d cs =>
      have hothers := ih (p.after c) (List.cons_ne_nil d cs)
      omega

/-- A smaller offset is a place in front. -/
theorem before_placeAt (file : String) {source : List Char} {m n : Nat} (hmn : m < n)
    (hn : n ≤ source.length) : Before (placeAt file source m) (placeAt file source n) := by
  refine ⟨?_, ?_⟩
  · rw [offset_placeAt file (by omega), offset_placeAt file hn]
    omega
  · have hsplit : source.take n = source.take m ++ (source.drop m).take (n - m) := by
      rw [← List.take_add]
      congr 1
      omega
    have hne : (source.drop m).take (n - m) ≠ [] := by
      rw [← List.length_pos_iff, List.length_take, List.length_drop]
      omega
    have hlines := lines_afterAll (Position.start.afterAll (source.take m)) hne
    rw [← Position.afterAll_append, ← hsplit] at hlines
    simp only [placeAt, Position.inFile]
    omega

end Scanner

end RegisterLang
