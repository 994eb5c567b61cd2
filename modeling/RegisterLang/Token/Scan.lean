import RegisterLang.Sequence
import RegisterLang.Text.Blank
import RegisterLang.Token.Operator
import RegisterLang.Token.ScanError

/-!
# From text to tokens

Scanning is one pass over a text. What starts at the cursor is decided by its first character: blank
space, a comment, a string, a delimiter, a register, a directive, a number, a word or an operator.
The first malformed lexeme ends the pass; the cursor then stays where it was found, and the tokens
in front of it are kept.
-/

namespace RegisterLang

/-- The state of a pass: the text that is still to be read, the position of its first character, and
the tokens found so far, the last one first. -/
structure ScanState where
  rest : List Char
  position : Position
  found : List Token

/-- The state before a text is read. -/
def ScanState.start (source : List Char) : ScanState :=
  ⟨source, Position.start, []⟩

/-- The state after the next `n` characters have been read, or all of them if there are fewer. -/
def ScanState.read (s : ScanState) (n : Nat) : ScanState :=
  { s with rest := s.rest.drop n, position := s.position.afterAll (s.rest.take n) }

/-- Reading splits the text that is left. -/
theorem ScanState.take_append_rest_read (s : ScanState) (n : Nat) :
    s.rest.take n ++ (s.read n).rest = s.rest :=
  List.take_append_drop n s.rest

/-- Reading in two steps is reading at once. -/
theorem ScanState.read_read (s : ScanState) (m n : Nat) :
    (s.read m).read n = s.read (m + n) := by
  simp only [read, List.drop_drop, List.take_add, Position.afterAll_append]

/-- The character that stands for the end of the input. -/
def endMark : Char := '\x00'

/-- The character `n` places after the cursor; behind the text there are only end marks. -/
def ScanState.peek (s : ScanState) (n : Nat) : Char :=
  s.rest.getD n endMark

/-- The character `n` places from the cursor in the text that is read, to either side. -/
def ScanState.charFrom? (s : ScanState) (source : List Char) (n : Int) : Option Char :=
  Sequence.at? source (s.position.offset + n) endMark

/-- The tokens found so far, in the order of the text. -/
def ScanState.tokens (s : ScanState) : List Token :=
  s.found.reverse

/-- A step of scanning. When it fails, the state is kept as it was at the failure. -/
abbrev Scan := EStateM ScanError ScanState

/-- How texts are scanned: under which display name, and in which order the operators of more than
one character are tried. -/
structure Scanner where
  file : String
  operators : List String := Operator.multiChar

namespace Scanner

/-! ### Classes of characters -/

/-- Blank space between tokens. -/
def isSpace (c : Char) : Bool :=
  c == ' ' || c == '\t' || c == '\r' || c == '\n'

/-- The marks that open and close strings. -/
def isQuote (c : Char) : Bool :=
  c == '"' || c == '\''

/-- The characters that start a word. -/
def isLetter (c : Char) : Bool :=
  ('a' ≤ c && c ≤ 'z') || ('A' ≤ c && c ≤ 'Z') || c == '_'

/-- The characters that continue a word. -/
def isWordChar (c : Char) : Bool :=
  isLetter c || c.isDigit

/-- The characters of a type. -/
def isTypeChar (c : Char) : Bool :=
  !Text.isBlank c && c != '%'

variable (scanner : Scanner)

/-! ### The cursor -/

/-- The place of the cursor. -/
def place : Scan Location :=
  return (← get).position.inFile scanner.file

/-- The next character, if there is one. -/
def next? : Scan (Option Char) :=
  return (← get).rest.head?

/-- Reads `n` characters. -/
def skip (n : Nat) : Scan Unit :=
  modify (·.read n)

/-- Reads the longest run of characters of a class. -/
def readWhile (p : Char → Bool) : Scan (List Char) := do
  let word := (← get).rest.takeWhile p
  skip word.length
  return word

/-- Adds a token. -/
def emit (kind : TokenKind) (lexeme : String) (location : Location) : Scan Unit :=
  modify fun s => { s with found := ⟨kind, lexeme, location⟩ :: s.found }

/-- Ends the pass with an error. -/
def fail {α : Type} (cause : ScanError.Cause) (location : Location) : Scan α :=
  throw ⟨cause, location⟩

/-! ### Lexemes -/

/-- Reads a comment, up to the end of its line. -/
def comment : Scan Unit := do
  discard (readWhile (· != '\n'))

/-- Reads a string between two of the same quotes. A string ends on the line where it starts. -/
def string (quote : Char) : Scan Unit := do
  let start ← scanner.place
  skip 1
  let content ← readWhile fun c => c != quote && c != '\n'
  match ← next? with
  | none => fail (.unterminatedString quote) start
  | some c =>
    if c = '\n' then fail .multilineString (← scanner.place)
    else
      skip 1
      emit .string (String.ofList content) start

/-- Reads a delimiter. -/
def delimiter (c : Char) : Scan Unit := do
  let start ← scanner.place
  skip 1
  emit .delimiter c.toString start

/-- Reads a word. -/
def word : Scan Unit := do
  let start ← scanner.place
  let word := String.ofList (← readWhile isWordChar)
  emit (wordKind word) word start

/-- Reads a dot and the member name behind it. -/
def member : Scan Unit := do
  scanner.delimiter '.'
  match ← next? with
  | some c => if isWordChar c then scanner.word else fail .invalidMember (← scanner.place)
  | none => fail .invalidMember (← scanner.place)

/-- Reads members as long as a dot follows, in at most as many rounds as `room` has characters. -/
def members : (room : List Char) → Scan Unit
  | [] => return
  | _ :: room => do
    if (← next?) = some '.' then
      scanner.member
      members room

/-- Reads all members that follow a word or a register. Each has at least one character. -/
def memberChain : Scan Unit := do
  scanner.members (← get).rest

/-- Reads the type behind a register, with its colon and the blanks around it. -/
def typeName : Scan Unit := do
  let start ← scanner.place
  skip 1
  discard (readWhile Text.isBlank)
  let name ← readWhile isTypeChar
  if name.isEmpty then fail .missingType start
  emit .typeName (String.ofList name) start
  discard (readWhile Text.isBlank)

/-- Reads a register and the type that follows it directly. -/
def register : Scan Unit := do
  let start ← scanner.place
  skip 1
  let name ← readWhile isWordChar
  if name.isEmpty then fail (.missingRegisterName (← next?)) (← scanner.place)
  emit .register (String.ofList name) start
  if (← next?) = some ':' then scanner.typeName

/-- Reads a directive. -/
def directive : Scan Unit := do
  let start ← scanner.place
  skip 1
  let word := String.ofList (← readWhile isWordChar)
  if word = "" then fail .missingDirective (← scanner.place)
  if (Directive.ofWord? word).isNone then fail (.unknownDirective word) start
  emit .directive word start

/-- Reads a number that starts with a zero and the letter of a radix. -/
def radixNumber (radix : Radix) : Scan Unit := do
  let start ← scanner.place
  let lead := (← get).rest.take 2
  skip 2
  let digits ← readWhile radix.isDigit
  if digits.isEmpty then fail (.invalidNumber (String.ofList lead) radix) start
  emit radix.kind (String.ofList (lead ++ digits)) start

/-- Reads the fraction of a decimal number. A dot belongs to the number only if a digit follows. -/
def fraction : Scan (List Char) := do
  match (← get).rest with
  | '.' :: c :: _ =>
    if c.isDigit then
      skip 1
      return '.' :: (← readWhile Char.isDigit)
    else return []
  | _ => return []

/-- Reads a decimal number. -/
def decimalNumber : Scan Unit := do
  let start ← scanner.place
  let whole ← readWhile Char.isDigit
  let fraction ← fraction
  emit .number (String.ofList (whole ++ fraction)) start

/-- Reads a number. -/
def number : Scan Unit := do
  match (← get).rest with
  | '0' :: c :: _ =>
    match Radix.ofLetter? c with
    | some radix => scanner.radixNumber radix
    | none => scanner.decimalNumber
  | _ => scanner.decimalNumber

/-- Reads the first multi-character operator that matches, or else the operator of one character.
Nothing else is left to try, so any other character is unexpected. -/
def operator (c : Char) : Scan Unit := do
  let start ← scanner.place
  let rest := (← get).rest
  let op := (scanner.operators.find? fun op => op.toList.isPrefixOf rest).getD c.toString
  match Operator.kind? op with
  | some kind =>
    skip op.length
    emit kind op start
  | none => fail (.unexpectedCharacter c) start

/-! ### The pass -/

/-- Reads what starts at the cursor. At the end of the input that is the end mark, which is an
unexpected character. -/
def step : Scan Unit := do
  let s ← get
  let c := s.peek 0
  if isSpace c then skip 1
  else if c = '#' then comment
  else if isQuote c then scanner.string c
  else if delimiters.contains c || (c == '|' && s.peek 1 != '|') then scanner.delimiter c
  else if c = '$' then
    scanner.register
    scanner.memberChain
  else if c = '@' then scanner.directive
  else if c.isDigit then scanner.number
  else if isLetter c then
    scanner.word
    scanner.memberChain
  else scanner.operator c

/-- Takes steps until the text ends, in at most as many rounds as `room` has characters. -/
def steps : (room : List Char) → Scan Unit
  | [] => return
  | _ :: room => do
    if !(← get).rest.isEmpty then
      scanner.step
      steps room

/-- Reads a whole text from its start. Every step reads at least one character, so there are no more
steps than characters. -/
def tokenize (source : List Char) : Scan Unit := do
  set (ScanState.start source)
  scanner.steps source
  emit .endOfInput "" (← scanner.place)

/-- The tokens of a text, or its first malformed lexeme. -/
def scan (source : String) : Except ScanError (List Token) :=
  match (scanner.tokenize source.toList).run (ScanState.start source.toList) with
  | .ok _ s => .ok s.tokens
  | .error e _ => .error e

end Scanner

/-- The tokens of a text under a display name, or its first malformed lexeme. -/
def scan (source file : String) : Except ScanError (List Token) :=
  ({ file } : Scanner).scan source

end RegisterLang
