/-!
# Strict UTF-8

Bytes are read as UTF-8 with every rule of the encoding in force: no overlong forms, no surrogates,
nothing above U+10FFFF. A refusal names where the ill-formed sequence starts, how many of its bytes
are well formed so far, and why it stops there.
-/

namespace RegisterLang.Text

/-- Why bytes are not UTF-8. -/
inductive Utf8Fault.Reason where
  | invalidStart
  | invalidContinuation
  | unexpectedEnd
  deriving DecidableEq

/-- The wording of a reason. -/
def Utf8Fault.Reason.text : Utf8Fault.Reason → String
  | .invalidStart => "invalid start byte"
  | .invalidContinuation => "invalid continuation byte"
  | .unexpectedEnd => "unexpected end of data"

/-- An ill-formed sequence: its first byte, the offset of that byte, the number of bytes that are
well formed (at least one), and the reason. -/
structure Utf8Fault where
  first : UInt8
  position : Nat
  length : Nat
  reason : Utf8Fault.Reason
  deriving DecidableEq

/-- A byte that may follow another one inside a sequence. -/
def isContinuation (b : UInt8) : Bool :=
  0x80 ≤ b && b ≤ 0xBF

/-- The second byte of a sequence has a narrower range after the first bytes that could otherwise
start an overlong form, a surrogate or a number above U+10FFFF. -/
def isSecondByte (first b : UInt8) : Bool :=
  isContinuation b &&
    (if first == 0xE0 then 0xA0 ≤ b
    else if first == 0xED then b ≤ 0x9F
    else if first == 0xF0 then 0x90 ≤ b
    else if first == 0xF4 then b ≤ 0x8F
    else true)

/-- How many bytes follow a first byte; `none` for a byte that starts no sequence. -/
def followingBytes (first : UInt8) : Option Nat :=
  if first < 0x80 then some 0
  else if 0xC2 ≤ first && first ≤ 0xDF then some 1
  else if 0xE0 ≤ first && first ≤ 0xEF then some 2
  else if 0xF0 ≤ first && first ≤ 0xF4 then some 3
  else none

/-- The payload bits of a first byte that is followed by `count` more. -/
def firstBits (count : Nat) (first : UInt8) : Nat :=
  match count with
  | 0 => first.toNat
  | 1 => first.toNat % 0x20
  | 2 => first.toNat % 0x10
  | _ => first.toNat % 0x08

/-- A sequence that is being read: where and with which byte it started, the bytes read so far, the
bytes still to come, and the payload bits read so far. -/
structure Utf8Sequence where
  first : UInt8
  position : Nat
  length : Nat
  missing : Nat
  bits : Nat

/-- Reads bytes from offset `position`. `sequence` is the one that is open, if any; `before` holds
the characters read so far, the last one first. -/
def decodeUtf8From (position : Nat) (sequence : Option Utf8Sequence) (before : List Char) :
    List UInt8 → Except Utf8Fault (List Char)
  | [] =>
    match sequence with
    | none => .ok before.reverse
    | some s => .error ⟨s.first, s.position, s.length, .unexpectedEnd⟩
  | b :: bytes =>
    match sequence with
    | none =>
      match followingBytes b with
      | none => .error ⟨b, position, 1, .invalidStart⟩
      | some 0 => decodeUtf8From (position + 1) none (Char.ofNat b.toNat :: before) bytes
      | some count =>
        decodeUtf8From (position + 1) (some ⟨b, position, 1, count, firstBits count b⟩) before bytes
    | some s =>
      let continues := if s.length = 1 then isSecondByte s.first b else isContinuation b
      if continues then
        let bits := 0x40 * s.bits + b.toNat % 0x40
        if s.missing = 1 then
          decodeUtf8From (position + 1) none (Char.ofNat bits :: before) bytes
        else
          let longer : Utf8Sequence :=
            ⟨s.first, s.position, s.length + 1, s.missing - 1, bits⟩
          decodeUtf8From (position + 1) (some longer) before bytes
      else .error ⟨s.first, s.position, s.length, .invalidContinuation⟩

/-- Reads bytes as UTF-8. -/
def decodeUtf8 (bytes : List UInt8) : Except Utf8Fault (List Char) :=
  decodeUtf8From 0 none [] bytes

/-- Line ends of text files: a carriage return, alone or before a line feed, becomes a line feed.
`before` holds the characters read so far, the last one first. -/
def unifyLineEndsFrom (before : List Char) : List Char → List Char
  | [] => before.reverse
  | '\r' :: '\n' :: cs => unifyLineEndsFrom ('\n' :: before) cs
  | '\r' :: cs => unifyLineEndsFrom ('\n' :: before) cs
  | c :: cs => unifyLineEndsFrom (c :: before) cs

/-- A text with all its line ends as line feeds. -/
def unifyLineEnds (cs : List Char) : List Char :=
  unifyLineEndsFrom [] cs

end RegisterLang.Text
