import RegisterLang.Proofs.Token.Run

/-!
# One character at a time

The scanner takes whole runs of characters off the text. Here it is written once more, so that it
takes one character at a time, and does something of its own when it asks for one behind the end of
the text. Every question is guarded by a look at the text, so it is the same scanner, whatever is
done there: no character behind the end is ever asked for.
-/

namespace RegisterLang.Scanner

/-! ### The scanner, one character at a time -/

namespace Charwise

variable (beyond : Scan Char) (scanner : Scanner)

/-- Takes the next character. Behind the end of the text, that is `beyond`. -/
def take : Scan Char := do
  match (← get).rest with
  | [] => beyond
  | c :: _ =>
    skip 1
    return c

/-- Takes characters of a class as long as there are any, in at most as many rounds as `room` has
characters. -/
def takeWhile (p : Char → Bool) : (room : List Char) → Scan (List Char)
  | [] => return []
  | _ :: room => do
    if (← next?).any p then
      let c ← take beyond
      return c :: (← takeWhile p room)
    else return []

/-- Takes the longest run of characters of a class. -/
def readWhile (p : Char → Bool) : Scan (List Char) := do
  takeWhile beyond p (← get).rest

/-- Takes `n` characters, or all of them if there are fewer. -/
def takeUpTo : (n : Nat) → Scan Unit
  | 0 => return
  | n + 1 => do
    if !(← get).rest.isEmpty then discard (take beyond)
    takeUpTo n

/-- Takes a string, from its quote on. -/
def string : Scan Unit := do
  let start ← scanner.place
  let quote ← take beyond
  let content ← readWhile beyond fun c => c != quote && c != '\n'
  match ← next? with
  | none => fail (.unterminatedString quote) start
  | some c =>
    if c = '\n' then fail .multilineString (← scanner.place)
    else
      discard (take beyond)
      emit .string (String.ofList content) start

/-- Takes a delimiter. -/
def delimiter : Scan Unit := do
  let start ← scanner.place
  let c ← take beyond
  emit .delimiter c.toString start

/-- Takes a word. -/
def word : Scan Unit := do
  let start ← scanner.place
  let word := String.ofList (← readWhile beyond isWordChar)
  emit (wordKind word) word start

/-- Takes a dot and the member name behind it. -/
def member : Scan Unit := do
  delimiter beyond scanner
  match ← next? with
  | some c => if isWordChar c then word beyond scanner else fail .invalidMember (← scanner.place)
  | none => fail .invalidMember (← scanner.place)

/-- Takes members as long as a dot follows, in at most as many rounds as `room` has characters. -/
def members : (room : List Char) → Scan Unit
  | [] => return
  | _ :: room => do
    if (← next?) = some '.' then
      member beyond scanner
      members room

/-- Takes all members that follow a word or a register. -/
def memberChain : Scan Unit := do
  members beyond scanner (← get).rest

/-- Takes the type behind a register, from its colon on. -/
def typeName : Scan Unit := do
  let start ← scanner.place
  discard (take beyond)
  discard (readWhile beyond Text.isBlank)
  let name ← readWhile beyond isTypeChar
  if name.isEmpty then fail .missingType start
  emit .typeName (String.ofList name) start
  discard (readWhile beyond Text.isBlank)

/-- Takes a register and the type that follows it directly. -/
def register : Scan Unit := do
  let start ← scanner.place
  discard (take beyond)
  let name ← readWhile beyond isWordChar
  if name.isEmpty then fail (.missingRegisterName (← next?)) (← scanner.place)
  emit .register (String.ofList name) start
  if (← next?) = some ':' then typeName beyond scanner

/-- Takes a directive. -/
def directive : Scan Unit := do
  let start ← scanner.place
  discard (take beyond)
  let word := String.ofList (← readWhile beyond isWordChar)
  if word = "" then fail .missingDirective (← scanner.place)
  if (Directive.ofWord? word).isNone then fail (.unknownDirective word) start
  emit .directive word start

/-- Takes a number that starts with a zero and the letter of a radix. -/
def radixNumber (radix : Radix) : Scan Unit := do
  let start ← scanner.place
  let zero ← take beyond
  let letter ← take beyond
  let digits ← readWhile beyond radix.isDigit
  if digits.isEmpty then fail (.invalidNumber (String.ofList [zero, letter]) radix) start
  emit radix.kind (String.ofList ([zero, letter] ++ digits)) start

/-- Takes the fraction of a decimal number. -/
def fraction : Scan (List Char) := do
  let s ← get
  if s.peek 0 = '.' ∧ (s.peek 1).isDigit then
    let dot ← take beyond
    return dot :: (← readWhile beyond Char.isDigit)
  else return []

/-- Takes a decimal number. -/
def decimalNumber : Scan Unit := do
  let start ← scanner.place
  let whole ← readWhile beyond Char.isDigit
  let fraction ← fraction beyond
  emit .number (String.ofList (whole ++ fraction)) start

/-- Takes a number. -/
def number : Scan Unit := do
  let s ← get
  match if s.peek 0 = '0' then Radix.ofLetter? (s.peek 1) else none with
  | some radix => radixNumber beyond scanner radix
  | none => decimalNumber beyond scanner

/-- Takes the first multi-character operator that matches, or else the operator of one character. -/
def operator (c : Char) : Scan Unit := do
  let start ← scanner.place
  let rest := (← get).rest
  let long? := scanner.operators.find? fun op => op.toList.isPrefixOf rest
  let op := long?.getD c.toString
  match Operator.kind? op with
  | some kind =>
    if long?.isSome then takeUpTo beyond op.length else discard (take beyond)
    emit kind op start
  | none => fail (.unexpectedCharacter c) start

/-- Takes what starts at the cursor. -/
def step : Scan Unit := do
  let s ← get
  let c := s.peek 0
  if isSpace c then discard (take beyond)
  else if c = '#' then discard (readWhile beyond (· != '\n'))
  else if isQuote c then string beyond scanner
  else if delimiters.contains c || (c == '|' && s.peek 1 != '|') then delimiter beyond scanner
  else if c = '$' then
    register beyond scanner
    memberChain beyond scanner
  else if c = '@' then directive beyond scanner
  else if c.isDigit then number beyond scanner
  else if isLetter c then
    word beyond scanner
    memberChain beyond scanner
  else operator beyond scanner c

/-- Takes steps until the text ends, in at most as many rounds as `room` has characters. -/
def steps : (room : List Char) → Scan Unit
  | [] => return
  | _ :: room => do
    if !(← get).rest.isEmpty then
      step beyond scanner
      steps room

/-- Takes a whole text from its start. -/
def tokenize (source : List Char) : Scan Unit := do
  set (ScanState.start source)
  steps beyond scanner source
  emit .endOfInput "" (← scanner.place)

/-- The tokens of a text under a display name, or its first malformed lexeme. -/
def scan (source file : String) : Except ScanError (List Token) :=
  match (tokenize beyond { file } source.toList).run (ScanState.start source.toList) with
  | .ok _ s => .ok s.tokens
  | .error e _ => .error e

end Charwise

/-! ### Runs of characters -/

section

variable {beyond : Scan Char} {scanner : Scanner} {s : ScanState} {c : Char} {cs : List Char}
  {β : Type}

/-- A character in the text is taken. -/
theorem take_run (hrest : s.rest = c :: cs) : Charwise.take beyond s = .ok c (s.read 1) := by
  rw [Charwise.take, get_bind_run]
  simp only [hrest]
  rfl

/-- A character in the text is taken and handed on. -/
theorem take_bind_run (hrest : s.rest = c :: cs) (further : Char → Scan β) :
    (Charwise.take beyond >>= further) s = further c (s.read 1) :=
  bind_of_eq_ok (take_run hrest)

/-- A character in the text is taken and dropped. -/
theorem discard_take_run (hrest : s.rest = c :: cs) :
    discard (Charwise.take beyond) s = .ok () (s.read 1) :=
  discard_eq_ok.mpr ⟨c, take_run hrest⟩

/-- A character in the text is taken and dropped, and then the next step runs. -/
theorem discard_take_bind_run (hrest : s.rest = c :: cs) (further : Unit → Scan β) :
    (discard (Charwise.take beyond) >>= further) s = further () (s.read 1) :=
  bind_of_eq_ok (discard_take_run hrest)

/-- At the end of the text, there is nothing more to read. -/
theorem read_of_rest_eq_nil (hrest : s.rest = []) (n : Nat) : s.read n = s := by
  cases s
  subst hrest
  simp [ScanState.read]

/-- In a room that is large enough, characters of a class are taken up to the first other one. -/
theorem charwise_takeWhile (p : Char → Bool) {room : List Char} {s : ScanState}
    (hroom : s.rest.length ≤ room.length) :
    Charwise.takeWhile beyond p room s =
      .ok (s.rest.takeWhile p) (s.read (s.rest.takeWhile p).length) := by
  induction room generalizing s with
  | nil =>
    have hrest : s.rest = [] := List.eq_nil_of_length_eq_zero (Nat.le_zero.mp hroom)
    rw [read_of_rest_eq_nil hrest, hrest]
    rfl
  | cons _ room ih =>
    rw [Charwise.takeWhile, next?_bind_run]
    cases hrest : s.rest with
    | nil =>
      rw [read_of_rest_eq_nil hrest]
      rfl
    | cons c cs =>
      have hread : (s.read 1).rest = cs := by simp [ScanState.read, hrest]
      by_cases hc : p c
      · have hothers := ih (s := s.read 1) (by rw [hread]; simpa [hrest] using hroom)
        rw [if_pos (by simpa using hc), take_bind_run hrest, bind_of_eq_ok hothers, hread,
          List.takeWhile_cons_of_pos hc, List.length_cons, ScanState.read_read, Nat.add_comm]
        rfl
      · rw [if_neg (by simpa using hc), List.takeWhile_cons_of_neg hc]
        rfl

/-- A run of characters is taken as a whole or one by one. -/
theorem charwise_readWhile (p : Char → Bool) : Charwise.readWhile beyond p = readWhile p := by
  funext s
  rw [Charwise.readWhile, get_bind_run, charwise_takeWhile p (Nat.le_refl _)]
  rfl

/-- Some characters are passed as a whole or one by one. -/
theorem charwise_takeUpTo (n : Nat) : Charwise.takeUpTo beyond n = skip n := by
  induction n with
  | zero => rfl
  | succ n ih =>
    funext s
    rw [Charwise.takeUpTo, get_bind_run, ih, skip_run]
    cases hrest : s.rest with
    | nil =>
      rw [read_of_rest_eq_nil hrest]
      exact (skip_run s n).trans (by rw [read_of_rest_eq_nil hrest])
    | cons c cs =>
      rw [if_pos (by simp), discard_take_bind_run hrest]
      exact (skip_run (s.read 1) n).trans (by rw [ScanState.read_read, Nat.add_comm])

end

/-! ### It is the same scanner -/

section

variable {beyond : Scan Char} {scanner : Scanner} {s : ScanState} {c : Char} {cs : List Char}

/-- A string is read alike, one character at a time. -/
theorem charwise_string (hrest : s.rest = c :: cs) :
    Charwise.string beyond scanner s = scanner.string c s := by
  rw [Charwise.string, string, place_bind_run, place_bind_run, take_bind_run hrest, skip_bind_run,
    charwise_readWhile, readWhile_bind_run, readWhile_bind_run, next?_bind_run, next?_bind_run]
  generalize (s.read 1).read _ = s₁
  cases hrest₁ : s₁.rest with
  | nil => rfl
  | cons d ds =>
    simp only [List.head?_cons]
    split
    · rfl
    · rw [discard_take_bind_run hrest₁, skip_bind_run]

/-- A delimiter is read alike, one character at a time. -/
theorem charwise_delimiter (hrest : s.rest = c :: cs) :
    Charwise.delimiter beyond scanner s = scanner.delimiter c s := by
  rw [Charwise.delimiter, delimiter, place_bind_run, place_bind_run, take_bind_run hrest,
    skip_bind_run]

/-- A word is read alike, one character at a time. -/
theorem charwise_word : Charwise.word beyond scanner = scanner.word := by
  rw [Charwise.word, word, charwise_readWhile]

/-- A member is read alike, one character at a time. -/
theorem charwise_member (hrest : s.rest = '.' :: cs) :
    Charwise.member beyond scanner s = scanner.member s := by
  rw [Charwise.member, member, charwise_word]
  exact bind_congr_run (charwise_delimiter hrest)

/-- Members are read alike, one character at a time, in any room. -/
theorem charwise_members (room : List Char) :
    Charwise.members beyond scanner room = scanner.members room := by
  induction room with
  | nil => rfl
  | cons _ room ih =>
    funext s
    rw [Charwise.members, members, next?_bind_run, next?_bind_run, ih]
    by_cases hdot : s.rest.head? = some '.'
    · obtain ⟨cs, hrest⟩ := List.head?_eq_some_iff.mp hdot
      rw [if_pos hdot, if_pos hdot]
      exact bind_congr_run (charwise_member hrest)
    · rw [if_neg hdot, if_neg hdot]

/-- A chain of members is read alike, one character at a time. -/
theorem charwise_memberChain : Charwise.memberChain beyond scanner = scanner.memberChain := by
  funext s
  rw [Charwise.memberChain, memberChain, get_bind_run, get_bind_run, charwise_members]

/-- A type is read alike, one character at a time. -/
theorem charwise_typeName (hrest : s.rest = c :: cs) :
    Charwise.typeName beyond scanner s = scanner.typeName s := by
  rw [Charwise.typeName, typeName, place_bind_run, place_bind_run, discard_take_bind_run hrest,
    skip_bind_run]
  simp only [charwise_readWhile]

/-- A type is only taken where a colon is seen. -/
theorem charwise_typeBehindName :
    (do if (← next?) = some ':' then Charwise.typeName beyond scanner) =
      (do if (← next?) = some ':' then scanner.typeName : Scan Unit) := by
  funext s
  rw [next?_bind_run, next?_bind_run]
  by_cases hcolon : s.rest.head? = some ':'
  · obtain ⟨cs, hrest⟩ := List.head?_eq_some_iff.mp hcolon
    rw [if_pos hcolon, if_pos hcolon, charwise_typeName hrest]
  · rw [if_neg hcolon, if_neg hcolon]

/-- A register is read alike, one character at a time. -/
theorem charwise_register (hrest : s.rest = c :: cs) :
    Charwise.register beyond scanner s = scanner.register s := by
  rw [Charwise.register, register, place_bind_run, place_bind_run, discard_take_bind_run hrest,
    skip_bind_run]
  simp only [charwise_readWhile, charwise_typeBehindName]

/-- A directive is read alike, one character at a time. -/
theorem charwise_directive (hrest : s.rest = c :: cs) :
    Charwise.directive beyond scanner s = scanner.directive s := by
  rw [Charwise.directive, directive, place_bind_run, place_bind_run, discard_take_bind_run hrest,
    skip_bind_run]
  simp only [charwise_readWhile]

/-- A number with a radix is read alike, one character at a time. -/
theorem charwise_radixNumber {zero letter : Char} (radix : Radix)
    (hrest : s.rest = zero :: letter :: cs) :
    Charwise.radixNumber beyond scanner radix s = scanner.radixNumber radix s := by
  have hread : (s.read 1).rest = letter :: cs := by simp [ScanState.read, hrest]
  rw [Charwise.radixNumber, radixNumber, place_bind_run, place_bind_run, take_bind_run hrest,
    take_bind_run hread, get_bind_run, skip_bind_run, ScanState.read_read, hrest,
    charwise_readWhile]
  rfl

/-- A character that is seen at the cursor and is no end mark is the first one left. -/
theorem exists_rest_of_peek_eq (hpeek : s.peek 0 = c) (hne : c ≠ endMark) :
    ∃ cs, s.rest = c :: cs := by
  subst hpeek
  exact exists_rest_of_peek hne

/-- A character that is seen behind the one at the cursor and is no end mark is the second one
left. -/
theorem exists_cons_of_peek_one (hrest : s.rest = c :: cs) (hne : s.peek 1 ≠ endMark) :
    ∃ ds, cs = s.peek 1 :: ds := by
  rw [ScanState.peek, hrest, List.getD_cons_succ] at hne ⊢
  cases cs with
  | nil => exact absurd rfl hne
  | cons d ds => exact ⟨ds, rfl⟩

/-- A fraction is read alike, one character at a time. -/
theorem charwise_fraction : Charwise.fraction beyond = fraction := by
  funext s
  rw [Charwise.fraction, fraction, get_bind_run, get_bind_run, charwise_readWhile]
  by_cases hseen : s.peek 0 = '.' ∧ (s.peek 1).isDigit
  · obtain ⟨cs, hrest⟩ := exists_rest_of_peek_eq hseen.1 (by decide)
    have hne : s.peek 1 ≠ endMark := by
      intro hend
      have hdigit := hseen.2
      rw [hend] at hdigit
      exact absurd hdigit (by decide)
    obtain ⟨ds, rfl⟩ := exists_cons_of_peek_one hrest hne
    rw [if_pos hseen, take_bind_run hrest, hrest]
    simp only [hseen.2, if_true]
    rw [skip_bind_run]
  · rw [if_neg hseen]
    refine congrFun (?_ : (_ : Scan (List Char)) = _) s
    split
    · next d ds hrest =>
      have hdigit : ¬ d.isDigit := by simpa [ScanState.peek, hrest] using hseen
      rw [if_neg hdigit]
    · rfl

/-- A decimal number is read alike, one character at a time. -/
theorem charwise_decimalNumber : Charwise.decimalNumber beyond scanner = scanner.decimalNumber := by
  rw [Charwise.decimalNumber, decimalNumber, charwise_readWhile, charwise_fraction]

/-- Two characters are only taken at once where both are seen. -/
theorem charwise_number : Charwise.number beyond scanner = scanner.number := by
  funext s
  rw [Charwise.number, get_bind_run, charwise_decimalNumber]
  rcases cases_of_radix s with ⟨letter, ys, radix, hrest, hletter⟩ | hnone
  · have hseen : (if s.peek 0 = '0' then Radix.ofLetter? (s.peek 1) else none) = some radix := by
      simpa [ScanState.peek, hrest] using hletter
    rw [number_run_of_radix hrest hletter]
    simp only [hseen]
    exact charwise_radixNumber radix hrest
  · have hseen : (if s.peek 0 = '0' then Radix.ofLetter? (s.peek 1) else none) = none := by
      by_cases hzero : s.peek 0 = '0'
      · rw [if_pos hzero]
        obtain ⟨cs, hrest⟩ := exists_rest_of_peek_eq hzero (by decide)
        by_cases hend : s.peek 1 = endMark
        · rw [hend]
          decide
        · obtain ⟨ds, rfl⟩ := exists_cons_of_peek_one hrest hend
          exact hnone _ ds hrest
      · rw [if_neg hzero]
    rw [number_run_of_not_radix hnone]
    simp only [hseen]

/-- An operator is read alike, one character at a time. -/
theorem charwise_operator (hrest : s.rest = c :: cs) :
    Charwise.operator beyond scanner c s = scanner.operator c s := by
  rw [Charwise.operator, operator, place_bind_run, place_bind_run, get_bind_run, get_bind_run,
    charwise_takeUpTo]
  cases scanner.operators.find? fun op => op.toList.isPrefixOf s.rest with
  | some op => cases hkind : Operator.kind? op <;> simp [hkind]
  | none =>
    have hlength : c.toString.length = 1 := by simp
    cases hkind : Operator.kind? c.toString with
    | none => simp only [Option.getD_none, hkind]
    | some kind =>
      simp only [Option.getD_none, hkind, Option.isSome_none, Bool.false_eq_true, if_false]
      rw [discard_take_bind_run hrest, skip_bind_run, hlength]

/-- Choices run alike if the branch that is taken does. -/
theorem ite_run_congr {test : Prop} [Decidable test] {a b a' b' : Scan Unit}
    (h : test → a s = a' s) (h' : ¬ test → b s = b' s) :
    (if test then a else b) s = (if test then a' else b') s := by
  by_cases htest : test
  · rw [if_pos htest, if_pos htest, h htest]
  · rw [if_neg htest, if_neg htest, h' htest]

/-- A step takes only characters of the text, if there is any at all. -/
theorem charwise_step (hrest : s.rest = c :: cs) :
    Charwise.step beyond scanner s = scanner.step s := by
  have hpeek : s.peek 0 = c := peek_zero hrest
  rw [Charwise.step, step, get_bind_run, get_bind_run]
  simp only [charwise_readWhile, charwise_memberChain, charwise_word, charwise_number, hpeek]
  refine ite_run_congr (fun _ => discard_take_run hrest) fun _ => ?_
  refine ite_run_congr (fun _ => rfl) fun _ => ?_
  refine ite_run_congr (fun _ => charwise_string hrest) fun _ => ?_
  refine ite_run_congr (fun _ => charwise_delimiter hrest) fun _ => ?_
  refine ite_run_congr (fun _ => bind_congr_run (charwise_register hrest)) fun _ => ?_
  refine ite_run_congr (fun _ => charwise_directive hrest) fun _ => ?_
  refine ite_run_congr (fun _ => rfl) fun _ => ?_
  exact ite_run_congr (fun _ => rfl) fun _ => charwise_operator hrest

/-- Steps in a row are alike, one character at a time, in any room. -/
theorem charwise_steps (room : List Char) :
    Charwise.steps beyond scanner room = scanner.steps room := by
  induction room with
  | nil => rfl
  | cons _ room ih =>
    funext s
    rw [Charwise.steps, steps, get_bind_run, get_bind_run, ih]
    refine ite_run_congr (fun hleft => ?_) fun _ => rfl
    obtain ⟨c, cs, hrest⟩ := List.exists_cons_of_ne_nil (show s.rest ≠ [] by simpa using hleft)
    exact bind_congr_run (charwise_step hrest)

/-- A whole pass is alike, one character at a time. -/
theorem charwise_tokenize (source : List Char) :
    Charwise.tokenize beyond scanner source = scanner.tokenize source := by
  rw [Charwise.tokenize, tokenize, charwise_steps]

/-- Whatever is done for a character behind the end of a text, it never is: no text is scanned
differently. -/
theorem charwise_scan (source file : String) :
    Charwise.scan beyond source file = RegisterLang.scan source file := by
  rw [Charwise.scan, charwise_tokenize]
  rfl

end

end RegisterLang.Scanner
