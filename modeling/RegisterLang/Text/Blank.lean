/-!
# Blank characters

The characters that separate words in running text: the ASCII blanks and controls that move the
cursor, the four information separators, and the blanks of the other scripts.
-/

namespace RegisterLang.Text

/-- A character is blank when it is a white-space control, an information separator, the next-line
control, or one of the space, line and paragraph separators of Unicode. -/
def isBlank (c : Char) : Bool :=
  let n := c.toNat
  (9 ≤ n && n ≤ 13) || (28 ≤ n && n ≤ 32) || n == 0x85 || n == 0xA0 || n == 0x1680 ||
    (0x2000 ≤ n && n ≤ 0x200A) || n == 0x2028 || n == 0x2029 || n == 0x202F || n == 0x205F ||
    n == 0x3000

/-- A text without the blank characters at its two ends. -/
def trimBlank (cs : List Char) : List Char :=
  (((cs.dropWhile isBlank).reverse).dropWhile isBlank).reverse

end RegisterLang.Text
