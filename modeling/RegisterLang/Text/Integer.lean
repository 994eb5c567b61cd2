import RegisterLang.Text.Blank

/-!
# Integers as people write them

Reads decimal integers: blanks around them, a sign, digits of any script, and single underscores
between digits.
-/

namespace RegisterLang.Text

/-- The code points of the digits for zero; the digits up to nine follow each of them
(Unicode 14). -/
def zeroDigits : List Nat :=
  [0x30, 0x660, 0x6F0, 0x7C0, 0x966, 0x9E6, 0xA66, 0xAE6, 0xB66, 0xBE6, 0xC66, 0xCE6, 0xD66, 0xDE6,
    0xE50, 0xED0, 0xF20, 0x1040, 0x1090, 0x17E0, 0x1810, 0x1946, 0x19D0, 0x1A80, 0x1A90, 0x1B50,
    0x1BB0, 0x1C40, 0x1C50, 0xA620, 0xA8D0, 0xA900, 0xA9D0, 0xA9F0, 0xAA50, 0xABF0, 0xFF10, 0x104A0,
    0x10D30, 0x11066, 0x110F0, 0x11136, 0x111D0, 0x112F0, 0x11450, 0x114D0, 0x11650, 0x116C0,
    0x11730, 0x118E0, 0x11950, 0x11C50, 0x11D50, 0x11DA0, 0x16A60, 0x16AC0, 0x16B50, 0x1D7CE,
    0x1D7D8, 0x1D7E2, 0x1D7EC, 0x1D7F6, 0x1E140, 0x1E2F0, 0x1E950, 0x1FBF0]

/-- The value of a digit of any script. -/
def digitValue? (c : Char) : Option Nat :=
  zeroDigits.findSome? fun first =>
    if first ≤ c.toNat ∧ c.toNat ≤ first + 9 then some (c.toNat - first) else none

/-- The blanks that may stand around a number: all but the information separators. -/
def isNumberBlank (c : Char) : Bool :=
  isBlank c && !(28 ≤ c.toNat && c.toNat ≤ 31)

/-- The number of digits that a number may have at most. -/
def maxDigits : Nat := 4300

/-- Reads digits. `afterDigit` tells whether an underscore or the end may come next; `value` and
`count` are what the digits read so far amount to. -/
def readDigits (afterDigit : Bool) (value count : Nat) : List Char → Option Nat
  | [] => if afterDigit && count ≤ maxDigits then some value else none
  | c :: cs =>
    if c = '_' then
      if afterDigit then readDigits false value count cs else none
    else
      match digitValue? c with
      | some digit => readDigits true (10 * value + digit) (count + 1) cs
      | none => none

/-- Reads an integer. -/
def readInteger? (s : String) : Option Int :=
  let trimmed :=
    ((s.toList.dropWhile isNumberBlank).reverse.dropWhile isNumberBlank).reverse
  match trimmed with
  | '-' :: cs => (readDigits false 0 0 cs).map fun n => -(n : Int)
  | '+' :: cs => (readDigits false 0 0 cs).map fun n => (n : Int)
  | cs => (readDigits false 0 0 cs).map fun n => (n : Int)

end RegisterLang.Text
