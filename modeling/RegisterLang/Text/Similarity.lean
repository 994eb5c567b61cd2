/-!
# Similar texts

How alike two texts are is measured by their common parts: the longest common part is found first,
then those to its left and to its right, and so on. Texts are similar when at least three fifths of
all their characters lie in common parts.
-/

namespace RegisterLang.Text

/-- The length of the longest common start of two texts. -/
def commonStart : List Char → List Char → Nat
  | c :: cs, d :: ds => if c = d then commonStart cs ds + 1 else 0
  | _, _ => 0

/-- A common part of two texts: where it starts in each, and its length. -/
structure CommonPart where
  left : Nat
  right : Nat
  length : Nat

/-- The longest common part; of several, the one furthest to the left in the first text, and then in
the second. -/
def longestPart (a b : List Char) : CommonPart :=
  let starts := (List.range a.length).flatMap fun i => (List.range b.length).map fun j => (i, j)
  starts.foldl
    (fun best (i, j) =>
      let length := commonStart (a.drop i) (b.drop j)
      if best.length < length then ⟨i, j, length⟩ else best)
    ⟨0, 0, 0⟩

/-- The number of characters in common parts; `rounds` bounds how often texts are split. -/
def commonWithin : (rounds : Nat) → List Char → List Char → Nat
  | 0, _, _ => 0
  | rounds + 1, a, b =>
    let part := longestPart a b
    if part.length = 0 then 0
    else
      commonWithin rounds (a.take part.left) (b.take part.right) + part.length +
        commonWithin rounds (a.drop (part.left + part.length)) (b.drop (part.right + part.length))

/-- The number of characters of two texts that lie in common parts. Each split shortens the first
text, so its length bounds the number of rounds. -/
def commonCharacters (a b : List Char) : Nat :=
  commonWithin (a.length + 1) a b

/-- How alike two texts are, as twice the common characters and the number of all characters. -/
structure Likeness where
  text : String
  common : Nat
  total : Nat

/-- The likeness of a candidate to a word. -/
def likeness (word candidate : String) : Likeness :=
  ⟨candidate, 2 * commonCharacters candidate.toList word.toList, candidate.length + word.length⟩

/-- The first likeness ranks above the second: it is greater, or equal with a greater text. -/
def Likeness.ranksAbove (x y : Likeness) : Bool :=
  y.common * x.total < x.common * y.total ||
    (y.common * x.total == x.common * y.total && decide (y.text ≤ x.text))

/-- The candidates that are similar to a word, three at most, in alphabetical order. -/
def similarTo (word : String) (candidates : List String) : List String :=
  let similar := (candidates.map (likeness word)).filter fun x => 3 * x.total ≤ 5 * x.common
  let best := (similar.mergeSort Likeness.ranksAbove).take 3
  (best.map Likeness.text).mergeSort fun x y => decide (x ≤ y)

end RegisterLang.Text
