import RegisterLang.Text.Hex
import RegisterLang.Text.Printable

/-!
# Quoted text

The quoted form of a text shows every character on one line: what has no visible form is written as
an escape, and the quote mark is the one that needs fewer escapes.
-/

namespace RegisterLang.Text

/-- Texts stand between apostrophes, except those that hold an apostrophe and no double quote. -/
def quoteMark (cs : List Char) : Char :=
  if cs.contains '\'' && !cs.contains '"' then '"' else '\''

/-- The escape of a character without a visible form: its code point in two, four or eight
hexadecimal digits, by size. -/
def codePointEscape (c : Char) : List Char :=
  let n := c.toNat
  if n < 0x100 then '\\' :: 'x' :: hexDigits 2 n
  else if n < 0x10000 then '\\' :: 'u' :: hexDigits 4 n
  else '\\' :: 'U' :: hexDigits 8 n

/-- One character inside quotes: backslash and quote mark take a backslash, line feed, carriage
return and tab have letters, and the rest is verbatim if it is printable. -/
def quotedChar (mark c : Char) : List Char :=
  if c = '\\' then ['\\', '\\']
  else if c = mark then ['\\', mark]
  else if c = '\n' then ['\\', 'n']
  else if c = '\r' then ['\\', 'r']
  else if c = '\t' then ['\\', 't']
  else if isPrintable c then [c]
  else codePointEscape c

/-- The characters of a quoted text, quote marks included. -/
def quotedChars (cs : List Char) : List Char :=
  let mark := quoteMark cs
  mark :: (cs.flatMap (quotedChar mark) ++ [mark])

/-- The quoted form of a text. -/
def quoted (s : String) : String :=
  String.ofList (quotedChars s.toList)

end RegisterLang.Text
