/-!
# Hexadecimal digits of a fixed width

Escapes name a character by its code point, written with a fixed number of hexadecimal digits.
-/

namespace RegisterLang.Text

/-- The last `width` hexadecimal digits of a number, most significant first, in lower case. -/
def hexDigits : Nat → Nat → List Char
  | 0, _ => []
  | width + 1, n => hexDigits width (n / 16) ++ [Nat.digitChar (n % 16)]

/-- A number has as many digits as it is written with. -/
@[simp] theorem length_hexDigits (width n : Nat) : (hexDigits width n).length = width := by
  induction width generalizing n with
  | zero => rfl
  | succ width ih => simp [hexDigits, ih]

/-- The name of a code point: `U+` and at least four hexadecimal digits in upper case. -/
def codePointName (c : Char) : String :=
  let n := c.toNat
  let width := if n < 0x10000 then 4 else if n < 0x100000 then 5 else 6
  "U+" ++ String.ofList ((hexDigits width n).map Char.toUpper)

end RegisterLang.Text
