/-!
# Terminal control sequences

A terminal takes some runs of characters as commands: an escape character, an opening bracket, any
number of digits, semicolons and question marks, and one letter. `withoutSequences` is what is left
of a text for a reader that is no terminal.
-/

namespace RegisterLang.Text

/-- The character that starts a control sequence. -/
def escapeMark : Char := '\x1b'

/-- The characters that may stand between the bracket and the letter. -/
def isParameter (c : Char) : Bool :=
  c == ';' || c == '?' || c.isDigit

/-- Reads a control sequence whose escape character stands just before the text: the text behind its
letter, if there is a sequence at all. -/
def sequence? : List Char → Option (List Char)
  | '[' :: cs =>
    match cs.dropWhile isParameter with
    | c :: rest => if c.isAlpha then some rest else none
    | [] => none
  | _ => none

/-- The text behind a control sequence is shorter than the text that starts with it. -/
theorem length_lt_of_sequence? {cs rest : List Char} (h : sequence? cs = some rest) :
    rest.length < cs.length := by
  unfold sequence? at h
  split at h
  · next cs =>
    split at h
    · next c tail heq =>
      have hle := (List.dropWhile_sublist (l := cs) isParameter).length_le
      rw [heq] at hle
      split at h
      · cases h
        simp only [List.length_cons] at hle ⊢
        omega
      · cases h
    · cases h
  · cases h

/-- A text without its control sequences. -/
def withoutSequences : List Char → List Char
  | [] => []
  | c :: cs =>
    if c = escapeMark then
      match h : sequence? cs with
      | some rest =>
        have := length_lt_of_sequence? h
        withoutSequences rest
      | none => c :: withoutSequences cs
    else c :: withoutSequences cs
termination_by cs => cs.length
decreasing_by all_goals simp only [List.length_cons] at *; omega

/-- What is printed of a text where control sequences have no meaning. -/
def plainPrint (s : String) : String :=
  String.ofList (withoutSequences s.toList)

end RegisterLang.Text
