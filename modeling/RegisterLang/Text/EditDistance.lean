/-!
# Edit distance

The distance of two texts is the least number of insertions, deletions and substitutions of single
characters that turn one into the other. It is computed row by row: the row of a prefix of the
first text holds its distances to all prefixes of the second. The texts are swapped beforehand when
the second one is longer, so that rows are short, and no row is computed for an empty text.
-/

namespace RegisterLang.Text

/-- The rest of a row, left to right. `diagonal` and the list `above` are entries of the row before,
`left` is the entry just computed; each entry takes the cheapest of a deletion, an insertion and a
substitution, which is free when the two characters agree. -/
def distanceEntries (c : Char) :
    (diagonal left : Nat) → (b : List Char) → (above : List Nat) → List Nat
  | diagonal, left, d :: b, up :: above =>
    let entry := min (min (up + 1) (left + 1)) (diagonal + if c = d then 0 else 1)
    entry :: distanceEntries c up entry b above
  | _, _, _, _ => []

/-- The row after `row`, when the first text grows by the character `c`. -/
def nextDistanceRow (b : List Char) (row : List Nat) (c : Char) : List Nat :=
  match row with
  | [] => []
  | first :: above => (first + 1) :: distanceEntries c first (first + 1) b above

/-- The last entry of the last row, when the rows are those of the prefixes of `a`. -/
def lastDistance (a b : List Char) : Nat :=
  (a.foldl (nextDistanceRow b) (List.range (b.length + 1))).getLastD 0

/-- The distance of a text to one that is no longer. All characters are edits if that is empty. -/
def distanceToShorter (long short : List Char) : Nat :=
  if short.length = 0 then long.length else lastDistance long short

/-- The edit distance of two lists of characters. -/
def editDistanceChars (a b : List Char) : Nat :=
  if a.length < b.length then distanceToShorter b a else distanceToShorter a b

/-- The edit distance of two texts. -/
def editDistance (a b : String) : Nat :=
  editDistanceChars a.toList b.toList

end RegisterLang.Text
