import RegisterLang.Proofs.Steps
import RegisterLang.Proofs.Token.Lexeme

/-!
# Runs of the scanner

What each step of the scanner does to a text of a known form. The lemmas that end in `_run` give the
whole result of a step, with its error if there is one, so that everything else about the scanner
follows from them.
-/

namespace RegisterLang

namespace ScanState

/-- The state after a token has been read that is written as `text`. -/
def take (s : ScanState) (file : String) (text : List Char) (kind : TokenKind) (lexeme : String) :
    ScanState :=
  { s.read text.length with found := ⟨kind, lexeme, s.position.inFile file⟩ :: s.found }

/-- Reading adds no token. -/
@[simp] theorem found_read (s : ScanState) (n : Nat) : (s.read n).found = s.found := rfl

/-- A token that is read stands in front of those found before. -/
@[simp] theorem found_take (s : ScanState) (file : String) (text : List Char) (kind : TokenKind)
    (lexeme : String) :
    (s.take file text kind lexeme).found = ⟨kind, lexeme, s.position.inFile file⟩ :: s.found := rfl

/-- Behind a token, what is left is what is left behind its text. -/
@[simp] theorem rest_take (s : ScanState) (file : String) (text : List Char) (kind : TokenKind)
    (lexeme : String) : (s.take file text kind lexeme).rest = (s.read text.length).rest := rfl

/-- Behind a token, the cursor is where it is behind its text. -/
@[simp] theorem position_take (s : ScanState) (file : String) (text : List Char) (kind : TokenKind)
    (lexeme : String) :
    (s.take file text kind lexeme).position = (s.read text.length).position := rfl

/-- Reading the front of the text leaves what is behind it. -/
theorem rest_read_length {s : ScanState} {text ys : List Char} (h : s.rest = text ++ ys) :
    (s.read text.length).rest = ys := by
  rw [read, h, List.drop_left]

/-- Reading the front of the text brings the cursor behind it. -/
theorem position_read_length {s : ScanState} {text ys : List Char} (h : s.rest = text ++ ys) :
    (s.read text.length).position = s.position.afterAll text := by
  rw [read, h, List.take_left]

end ScanState

namespace Scanner

/-! ### Single actions -/

section

variable {α β : Type} (scanner : Scanner) (s : ScanState)

/-- The state that is looked at is the one the next step runs in. -/
theorem get_bind_run (further : ScanState → Scan β) : (get >>= further) s = further s s := rfl

/-- The place that is asked for is that of the cursor. -/
theorem place_bind_run (further : Location → Scan β) :
    (scanner.place >>= further) s = further (s.position.inFile scanner.file) s := rfl

/-- The character that is looked at is the first of what is left. -/
theorem next?_bind_run (further : Option Char → Scan β) :
    (next? >>= further) s = further s.rest.head? s := rfl

/-- To pass characters is to read them. -/
theorem skip_run (n : Nat) : skip n s = .ok () (s.read n) := rfl

/-- To pass characters is to read them, and then the next step runs. -/
theorem skip_bind_run (n : Nat) (further : Unit → Scan β) :
    (skip n >>= further) s = further () (s.read n) := rfl

/-- A run of characters is read, and the next step gets it. -/
theorem readWhile_bind_run (p : Char → Bool) (further : List Char → Scan β) :
    (readWhile p >>= further) s =
      further (s.rest.takeWhile p) (s.read (s.rest.takeWhile p).length) := rfl

/-- A run of characters is read without getting it. -/
theorem discard_readWhile_run (p : Char → Bool) :
    discard (readWhile p) s = .ok () (s.read (s.rest.takeWhile p).length) := rfl

/-- A run of characters is read without getting it, and then the next step runs. -/
theorem discard_readWhile_bind_run (p : Char → Bool) (further : Unit → Scan β) :
    (discard (readWhile p) >>= further) s =
      further () (s.read (s.rest.takeWhile p).length) := rfl

/-- A token is added to those that are found, and then the next step runs. -/
theorem emit_bind_run (kind : TokenKind) (lexeme : String) (place : Location)
    (further : Unit → Scan β) :
    (emit kind lexeme place >>= further) s =
      further () { s with found := ⟨kind, lexeme, place⟩ :: s.found } := rfl

/-- Nothing runs behind a failure. -/
theorem fail_bind_run (cause : ScanError.Cause) (place : Location) (further : α → Scan β) :
    (fail cause place >>= further) s = .error ⟨cause, place⟩ s := rfl

end

/-! ### Lexemes -/

variable {scanner : Scanner} {s : ScanState}

/-- A comment is read up to the end of its line. -/
theorem comment_run {body ys : List Char} (hrest : s.rest = '#' :: (body ++ ys))
    (hbody : ∀ c ∈ body, c ≠ '\n') (hys : Stops (· != '\n') ys) :
    comment s = .ok () (s.read ('#' :: body).length) := by
  have hrun : s.rest.takeWhile (· != '\n') = '#' :: body := by
    rw [hrest, ← List.cons_append]
    exact takeWhile_append_of_stops (by simpa using hbody) hys
  rw [comment, discard_readWhile_run, hrun]

/-- A string is read up to its quote. It fails at the end of the line or of the text. -/
theorem string_run {quote : Char} {content ys : List Char}
    (hrest : s.rest = quote :: (content ++ ys)) (hcontent : ∀ c ∈ content, c ≠ quote ∧ c ≠ '\n')
    (hys : Stops (fun c => c != quote && c != '\n') ys) :
    scanner.string quote s =
      match ys with
      | [] =>
        .error ⟨.unterminatedString quote, s.position.inFile scanner.file⟩
          (s.read (1 + content.length))
      | c :: _ =>
        if c = '\n' then
          .error ⟨.multilineString, (s.read (1 + content.length)).position.inFile scanner.file⟩
            (s.read (1 + content.length))
        else
          .ok () (s.take scanner.file (quote :: (content ++ [quote])) .string
            (String.ofList content)) := by
  have hread : (s.read 1).rest = content ++ ys := by simp [ScanState.read, hrest]
  have hrun : (s.read 1).rest.takeWhile (fun c => c != quote && c != '\n') = content := by
    rw [hread]
    exact takeWhile_append_of_stops (by simpa using hcontent) hys
  rw [string, place_bind_run, skip_bind_run, readWhile_bind_run, hrun, next?_bind_run,
    ScanState.rest_read_length hread, ScanState.read_read]
  cases ys with
  | nil => rfl
  | cons c ys =>
    simp only [List.head?_cons]
    split
    · rfl
    · rw [skip_bind_run, ScanState.read_read, ScanState.take]
      simp only [List.length_cons, List.length_append, List.length_nil, Nat.add_comm,
        Nat.add_left_comm]
      rfl

/-- A delimiter is read as a token of one character. -/
theorem delimiter_run (c : Char) :
    scanner.delimiter c s = .ok () (s.take scanner.file [c] .delimiter c.toString) := rfl

/-- A word is read as a token, of the kind that it has. -/
theorem word_run {name ys : List Char} (hrest : s.rest = name ++ ys)
    (hname : ∀ c ∈ name, isWordChar c) (hys : Stops isWordChar ys) :
    scanner.word s =
      .ok () (s.take scanner.file name (wordKind (String.ofList name)) (String.ofList name)) := by
  rw [word, place_bind_run, readWhile_bind_run, hrest, takeWhile_append_of_stops hname hys]
  rfl

/-- A member is a dot and a word. Where no word follows, it fails behind the dot. -/
theorem member_run {xs : List Char} (hrest : s.rest = '.' :: xs) :
    scanner.member s =
      if xs.head?.any isWordChar then
        scanner.word (s.take scanner.file ['.'] .delimiter ".")
      else
        .error ⟨.invalidMember, (s.read 1).position.inFile scanner.file⟩
          (s.take scanner.file ['.'] .delimiter ".") := by
  have hread : (s.take scanner.file ['.'] .delimiter ".").rest = xs :=
    @ScanState.rest_read_length s ['.'] xs hrest
  have hdot : scanner.delimiter '.' s = .ok () (s.take scanner.file ['.'] .delimiter ".") := by
    rw [delimiter_run, show '.'.toString = "." from by decide]
  rw [member, bind_of_eq_ok hdot, next?_bind_run, hread]
  cases xs with
  | nil => rfl
  | cons c xs =>
    by_cases hc : isWordChar c
    · simp only [List.head?_cons, Option.any_some, hc, if_true]
    · simp only [List.head?_cons, Option.any_some, hc, if_false, Bool.false_eq_true]
      rfl

/-- A type is read with the blanks around it. Without a name it fails at its colon. -/
theorem typeName_run {colon : Char} {blanks name blanks' ys : List Char}
    (hrest : s.rest = colon :: (blanks ++ (name ++ (blanks' ++ ys))))
    (hblanks : ∀ c ∈ blanks, Text.isBlank c)
    (hblanksStop : Stops Text.isBlank (name ++ (blanks' ++ ys)))
    (hname : ∀ c ∈ name, isTypeChar c) (hnameStops : Stops isTypeChar (blanks' ++ ys))
    (hblanks' : ∀ c ∈ blanks', Text.isBlank c) (hys : Stops Text.isBlank ys) :
    scanner.typeName s =
      if name = [] then
        .error ⟨.missingType, s.position.inFile scanner.file⟩ (s.read (1 + blanks.length))
      else
        .ok () ((s.take scanner.file (colon :: (blanks ++ name)) .typeName
          (String.ofList name)).read blanks'.length) := by
  have hread : (s.read 1).rest = blanks ++ (name ++ (blanks' ++ ys)) := by
    simp [ScanState.read, hrest]
  have hread' := ScanState.rest_read_length hread
  have hrun : (s.read 1).rest.takeWhile Text.isBlank = blanks := by
    rw [hread]
    exact takeWhile_append_of_stops hblanks hblanksStop
  have hrun' : ((s.read 1).read blanks.length).rest.takeWhile isTypeChar = name := by
    rw [hread']
    exact takeWhile_append_of_stops hname hnameStops
  rw [typeName, place_bind_run, skip_bind_run, discard_readWhile_bind_run, hrun, readWhile_bind_run,
    hrun']
  cases name with
  | nil =>
    simp only [List.isEmpty_nil, if_true, fail_bind_run, List.length_nil, ScanState.read_read,
      Nat.add_zero]
  | cons c name =>
    have hrest' := ScanState.rest_read_length hread'
    have hrun'' : (((s.read 1).read blanks.length).read (c :: name).length).rest.takeWhile
        Text.isBlank = blanks' := by
      rw [hrest']
      exact takeWhile_append_of_stops hblanks' hys
    rw [if_neg (by simp), if_neg (by simp)]
    beta_reduce
    rw [emit_bind_run, discard_readWhile_run]
    simp only [ScanState.found_read, hrun'']
    simp only [ScanState.take, ScanState.read_read, List.length_cons, List.length_append,
      Nat.add_comm, Nat.add_left_comm]

/-- A register is read with a type if a colon follows. Without a name it fails behind its sign. -/
theorem register_run {dollar : Char} {name ys : List Char}
    (hrest : s.rest = dollar :: (name ++ ys)) (hname : ∀ c ∈ name, isWordChar c)
    (hys : Stops isWordChar ys) :
    scanner.register s =
      if name = [] then
        .error ⟨.missingRegisterName ys.head?, (s.read 1).position.inFile scanner.file⟩ (s.read 1)
      else
        (if ys.head? = some ':' then scanner.typeName else pure ())
          (s.take scanner.file (dollar :: name) .register (String.ofList name)) := by
  have hread : (s.read 1).rest = name ++ ys := by simp [ScanState.read, hrest]
  have hrun : (s.read 1).rest.takeWhile isWordChar = name := by
    rw [hread]
    exact takeWhile_append_of_stops hname hys
  rw [register, place_bind_run, skip_bind_run, readWhile_bind_run, hrun]
  cases name with
  | nil =>
    simp only [List.isEmpty_nil, if_true, next?_bind_run, place_bind_run, fail_bind_run,
      List.length_nil, ScanState.read_read, Nat.add_zero, hread, List.nil_append]
  | cons c name =>
    have hrest' := ScanState.rest_read_length hread
    have hlength : (dollar :: c :: name).length = 1 + (c :: name).length := Nat.add_comm _ _
    rw [ScanState.read_read] at hrest'
    rw [if_neg (by simp), if_neg (by simp)]
    beta_reduce
    rw [emit_bind_run, next?_bind_run]
    simp only [ScanState.found_read, ScanState.read_read, ScanState.take, hlength, hrest']

/-- A directive is read with its word. Without a word it fails behind its sign, and with an unknown
one at its sign. -/
theorem directive_run {sign : Char} {word ys : List Char} (hrest : s.rest = sign :: (word ++ ys))
    (hword : ∀ c ∈ word, isWordChar c) (hys : Stops isWordChar ys) :
    scanner.directive s =
      if word = [] then
        .error ⟨.missingDirective, (s.read 1).position.inFile scanner.file⟩ (s.read 1)
      else if (Directive.ofWord? (String.ofList word)).isNone then
        .error ⟨.unknownDirective (String.ofList word), s.position.inFile scanner.file⟩
          (s.read (1 + word.length))
      else
        .ok () (s.take scanner.file (sign :: word) .directive (String.ofList word)) := by
  have hread : (s.read 1).rest = word ++ ys := by simp [ScanState.read, hrest]
  have hrun : (s.read 1).rest.takeWhile isWordChar = word := by
    rw [hread]
    exact takeWhile_append_of_stops hword hys
  rw [directive, place_bind_run, skip_bind_run, readWhile_bind_run, hrun]
  cases word with
  | nil => rfl
  | cons c word =>
    have hne : String.ofList (c :: word) ≠ "" := by simp
    rw [if_neg hne, if_neg (List.cons_ne_nil c word)]
    beta_reduce
    by_cases hnone : (Directive.ofWord? (String.ofList (c :: word))).isNone
    · rw [if_pos hnone, if_pos hnone, fail_bind_run, ScanState.read_read]
    · rw [if_neg hnone, if_neg hnone]
      simp only [ScanState.take, ScanState.read_read, List.length_cons, Nat.add_comm]
      rfl

/-- A number with a radix is read with its digits. Without digits it fails where it starts. -/
theorem radixNumber_run {radix : Radix} {zero letter : Char} {digits ys : List Char}
    (hrest : s.rest = zero :: letter :: (digits ++ ys)) (hdigits : ∀ c ∈ digits, radix.isDigit c)
    (hys : Stops radix.isDigit ys) :
    scanner.radixNumber radix s =
      if digits = [] then
        .error ⟨.invalidNumber (String.ofList [zero, letter]) radix,
          s.position.inFile scanner.file⟩ (s.read 2)
      else
        .ok () (s.take scanner.file (zero :: letter :: digits) radix.kind
          (String.ofList (zero :: letter :: digits))) := by
  have hread : (s.read 2).rest = digits ++ ys := by simp [ScanState.read, hrest]
  have hrun : (s.read 2).rest.takeWhile radix.isDigit = digits := by
    rw [hread]
    exact takeWhile_append_of_stops hdigits hys
  rw [radixNumber, place_bind_run, get_bind_run, skip_bind_run, readWhile_bind_run, hrun, hrest]
  cases digits with
  | nil => rfl
  | cons c digits =>
    rw [if_neg (by simp), if_neg (by simp)]
    simp only [ScanState.take, ScanState.read_read, List.length_cons, Nat.add_comm,
      Nat.add_left_comm]
    rfl

/-- An integer is read up to the end of its digits, if no fraction follows. -/
theorem integer_run {digits ys : List Char} (hrest : s.rest = digits ++ ys)
    (hdigits : ∀ c ∈ digits, c.isDigit) (hys : Stops Char.isDigit ys)
    (hfraction : ∀ c zs, ys = '.' :: c :: zs → ¬ c.isDigit) :
    scanner.decimalNumber s =
      .ok () (s.take scanner.file digits .number (String.ofList digits)) := by
  have hrest' := ScanState.rest_read_length hrest
  have hnone (further : List Char → Scan Unit) :
      (fraction >>= further) (s.read digits.length) = further [] (s.read digits.length) := by
    rw [fraction, bind_assoc, get_bind_run, hrest']
    split
    · next c zs => rw [if_neg (hfraction c zs rfl)]; rfl
    · rfl
  rw [decimalNumber, place_bind_run, readWhile_bind_run, hrest,
    takeWhile_append_of_stops hdigits hys, hnone, List.append_nil]
  rfl

/-- A number with a fraction is read up to the end of its digits. -/
theorem decimal_run {whole digits ys : List Char} (hrest : s.rest = whole ++ '.' :: (digits ++ ys))
    (hwhole : ∀ c ∈ whole, c.isDigit) (hne : digits ≠ []) (hdigits : ∀ c ∈ digits, c.isDigit)
    (hys : Stops Char.isDigit ys) :
    scanner.decimalNumber s = .ok () (s.take scanner.file (whole ++ '.' :: digits) .number
      (String.ofList (whole ++ '.' :: digits))) := by
  obtain ⟨digit, digits, rfl⟩ := List.exists_cons_of_ne_nil hne
  have hrest' := ScanState.rest_read_length hrest
  have hread : ((s.read whole.length).read 1).rest = digit :: digits ++ ys := by
    simp [ScanState.read, hrest]
  have hsome (further : List Char → Scan Unit) :
      (fraction >>= further) (s.read whole.length) =
        further ('.' :: digit :: digits)
          (((s.read whole.length).read 1).read (digit :: digits).length) := by
    rw [fraction, bind_assoc, get_bind_run, hrest']
    simp only [List.cons_append, hdigits digit List.mem_cons_self, if_true]
    rw [bind_assoc, skip_bind_run, bind_assoc, readWhile_bind_run, hread,
      takeWhile_append_of_stops hdigits hys]
    rfl
  have hdot : Stops Char.isDigit ('.' :: (digit :: digits ++ ys)) := by simp [Stops]
  rw [decimalNumber, place_bind_run, readWhile_bind_run, hrest,
    takeWhile_append_of_stops hwhole hdot, hsome]
  simp only [ScanState.take, ScanState.read_read, List.length_append, List.length_cons,
    Nat.add_comm, Nat.add_left_comm]
  rfl

/-- The number behind a lone zero in front of the letter of a radix is one of that radix. -/
theorem number_run_of_radix {radix : Radix} {letter : Char} {ys : List Char}
    (hrest : s.rest = '0' :: letter :: ys) (hletter : Radix.ofLetter? letter = some radix) :
    scanner.number s = scanner.radixNumber radix s := by
  rw [number, get_bind_run, hrest]
  simp only [hletter]

/-- A text starts as a number of some radix, or as none. -/
theorem cases_of_radix (s : ScanState) :
    (∃ letter ys radix, s.rest = '0' :: letter :: ys ∧ Radix.ofLetter? letter = some radix) ∨
      ∀ letter ys, s.rest = '0' :: letter :: ys → Radix.ofLetter? letter = none := by
  by_cases hradix : ∃ letter ys radix, s.rest = '0' :: letter :: ys ∧
      Radix.ofLetter? letter = some radix
  · exact .inl hradix
  · refine .inr fun letter ys hrest => ?_
    rw [Option.eq_none_iff_forall_ne_some]
    exact fun radix hletter => hradix ⟨letter, ys, radix, hrest, hletter⟩

/-- Any other number is a decimal one. -/
theorem number_run_of_not_radix
    (hrest : ∀ letter ys, s.rest = '0' :: letter :: ys → Radix.ofLetter? letter = none) :
    scanner.number s = scanner.decimalNumber s := by
  rw [number, get_bind_run]
  refine congrFun (?_ : (_ : Scan Unit) = _) s
  split
  · next letter ys h => simp only [hrest letter ys h]
  · rfl

/-! ### Operators -/

/-- The first operator that matches, and failing that the next character. -/
def operatorAt (rest : List Char) (c : Char) : String :=
  (Operator.multiChar.find? fun op => op.toList.isPrefixOf rest).getD c.toString

/-- The operator at the cursor is read. Where there is none, the character fails. -/
theorem operator_run (hoperators : scanner.operators = Operator.multiChar) (c : Char) :
    scanner.operator c s =
      match Operator.kind? (operatorAt s.rest c) with
      | some kind =>
        .ok () (s.take scanner.file (operatorAt s.rest c).toList kind (operatorAt s.rest c))
      | none => .error ⟨.unexpectedCharacter c, s.position.inFile scanner.file⟩ s := by
  rw [operator, place_bind_run, get_bind_run, hoperators]
  change (match Operator.kind? (operatorAt s.rest c) with
    | some kind => _
    | none => _ : Scan Unit) s = _
  cases Operator.kind? (operatorAt s.rest c) with
  | none => rfl
  | some kind => rfl

/-! ### Steps -/

/-- What a step does to a text, by the first characters of the text. -/
inductive Action (scanner : Scanner) : List Char → Scan Unit → Prop where
  | space {c xs} : isSpace c → Action scanner (c :: xs) (skip 1)
  | comment {xs} : Action scanner ('#' :: xs) comment
  | string {quote xs} : isQuote quote → Action scanner (quote :: xs) (scanner.string quote)
  | delimiter {c xs} :
      c ∈ delimiters ∨ c = '|' ∧ Stops (· == '|') xs →
      Action scanner (c :: xs) (scanner.delimiter c)
  | register {xs} : Action scanner ('$' :: xs) (do scanner.register; scanner.memberChain)
  | directive {xs} : Action scanner ('@' :: xs) scanner.directive
  | number {c xs} : c.isDigit → Action scanner (c :: xs) scanner.number
  | word {c xs} :
      isLetter c → c.isDigit = false →
      Action scanner (c :: xs) (do scanner.word; scanner.memberChain)
  | operator {xs} : Action scanner xs (scanner.operator (xs.getD 0 endMark))

/-- What is looked at without a distance is the next character. -/
theorem peek_zero {c : Char} {xs : List Char} (hrest : s.rest = c :: xs) : s.peek 0 = c := by
  rw [ScanState.peek, hrest, List.getD_cons_zero]

/-- The character at the cursor is the first one left, unless it is the end mark. -/
theorem exists_rest_of_peek (hne : s.peek 0 ≠ endMark) : ∃ xs, s.rest = s.peek 0 :: xs := by
  unfold ScanState.peek at hne ⊢
  cases hrest : s.rest with
  | nil => simp [hrest] at hne
  | cons c xs => exact ⟨xs, by simp⟩

/-- Every step does what the text asks for. -/
theorem exists_action (scanner : Scanner) (s : ScanState) :
    ∃ rest action, s.rest = rest ∧ Action scanner rest action ∧ scanner.step s = action s := by
  have hcons {p : Char → Bool} (hend : p endMark = false) (hp : p (s.peek 0)) :
      ∃ xs, s.rest = s.peek 0 :: xs :=
    exists_rest_of_peek fun heq => by rw [heq, hend] at hp; cases hp
  rw [step, get_bind_run]
  split
  · next hspace =>
    obtain ⟨xs, hrest⟩ := hcons (p := isSpace) (by decide) hspace
    exact ⟨_, _, hrest, .space hspace, rfl⟩
  split
  · next hhash =>
    obtain ⟨xs, hrest⟩ := hcons (p := (· == '#')) (by decide) (by simpa using hhash)
    exact ⟨_, _, hhash ▸ hrest, .comment, rfl⟩
  split
  · next hquote =>
    obtain ⟨xs, hrest⟩ := hcons (p := isQuote) (by decide) hquote
    exact ⟨_, _, hrest, .string hquote, rfl⟩
  split
  · next hdelimiter =>
    simp only [Bool.or_eq_true, Bool.and_eq_true, List.contains_iff_mem, beq_iff_eq,
      bne_iff_ne] at hdelimiter
    obtain ⟨xs, hrest⟩ := hcons (p := fun c => delimiters.contains c || c == '|') (by decide)
      (by simpa using hdelimiter.imp_right And.left)
    refine ⟨_, _, hrest, .delimiter (hdelimiter.imp_right fun ⟨hbar, hnext⟩ =>
      ⟨hbar, stops_of_head?_ne fun hhead => hnext ?_⟩), rfl⟩
    obtain ⟨zs, rfl⟩ := List.head?_eq_some_iff.mp hhead
    rw [ScanState.peek, hrest]
    rfl
  split
  · next hdollar =>
    obtain ⟨xs, hrest⟩ := hcons (p := (· == '$')) (by decide) (by simpa using hdollar)
    exact ⟨_, _, hdollar ▸ hrest, .register, rfl⟩
  split
  · next hat =>
    obtain ⟨xs, hrest⟩ := hcons (p := (· == '@')) (by decide) (by simpa using hat)
    exact ⟨_, _, hat ▸ hrest, .directive, rfl⟩
  split
  · next hdigit =>
    obtain ⟨xs, hrest⟩ := hcons (p := Char.isDigit) (by decide) hdigit
    exact ⟨_, _, hrest, .number hdigit, rfl⟩
  rename_i hdigit
  split
  · next hletter =>
    obtain ⟨xs, hrest⟩ := hcons (p := isLetter) (by decide) hletter
    exact ⟨_, _, hrest, .word hletter (by simpa using hdigit), rfl⟩
  · exact ⟨_, _, rfl, .operator, rfl⟩

end Scanner

end RegisterLang
