import RegisterLang.Proofs.Token.Soundness

/-!
# What is in the text is scanned

The converse of soundness. The scanner goes through the modes in the midst of its steps, so `resume`
says for each mode what is left to do there. Whatever comes next in a mode is read, and then what is
left to do in the next mode remains.
-/

namespace RegisterLang.Scanner

variable {scanner : Scanner} {s s' : ScanState}

/-! ### Loops without bounds -/

/-- Any bound on the rounds that is large enough gives the same members. -/
theorem members_congr {room room' : List Char} (hroom : s.rest.length ≤ room.length)
    (hroom' : s.rest.length ≤ room'.length) :
    scanner.members room s = scanner.members room' s := by
  induction room generalizing s room' with
  | nil =>
    have hnil := List.eq_nil_of_length_eq_zero (Nat.le_zero.mp hroom)
    cases room' with
    | nil => rfl
    | cons _ room' =>
      rw [members, members, next?_bind_run, hnil]
      rfl
  | cons c room ih =>
    cases room' with
    | nil =>
      have hnil := List.eq_nil_of_length_eq_zero (Nat.le_zero.mp hroom')
      rw [members, members, next?_bind_run, hnil]
      rfl
    | cons c' room' =>
      rw [members, members, next?_bind_run, next?_bind_run]
      split
      · next hdot =>
        obtain ⟨xs, hrest⟩ := List.head?_eq_some_iff.mp hdot
        cases hmember : scanner.member s with
        | ok u s' =>
          have hlength := (leads_of_member hrest hmember).2
          simp only [List.length_cons] at hroom hroom'
          rw [bind_of_eq_ok hmember, bind_of_eq_ok hmember]
          exact ih (by omega) (by omega)
        | error e s' => rw [bind_of_eq_error hmember, bind_of_eq_error hmember]
      · rfl

/-- A member is read in a round of its own. -/
theorem memberChain_of_dot {xs : List Char} (hrest : s.rest = '.' :: xs) :
    scanner.memberChain s = (scanner.member >>= fun _ => scanner.memberChain) s := by
  rw [memberChain, get_bind_run, hrest, members, next?_bind_run, hrest]
  rw [if_pos (by rfl)]
  cases hmember : scanner.member s with
  | ok u s' =>
    have hlength := (leads_of_member hrest hmember).2
    rw [hrest, List.length_cons] at hlength
    rw [bind_of_eq_ok hmember, bind_of_eq_ok hmember, get_bind_run]
    exact members_congr (by omega) (Nat.le_refl _)
  | error e s' => rw [bind_of_eq_error hmember, bind_of_eq_error hmember]

/-- Without a dot, no member is read. -/
theorem memberChain_of_stops (h : Stops (· == '.') s.rest) :
    scanner.memberChain s = .ok () s := by
  rw [memberChain, get_bind_run]
  cases hrest : s.rest with
  | nil => rfl
  | cons c xs =>
    rw [members, next?_bind_run, hrest, if_neg]
    · rfl
    · rw [List.head?_cons, Option.some_inj]
      rintro rfl
      have hstop := h '.' (by rw [hrest]; rfl)
      cases hstop

variable (hoperators : scanner.operators = Operator.multiChar)
include hoperators

/-- Any bound on the rounds that is large enough gives the same steps. -/
theorem steps_congr {room room' : List Char} (hroom : s.rest.length ≤ room.length)
    (hroom' : s.rest.length ≤ room'.length) :
    scanner.steps room s = scanner.steps room' s := by
  induction room generalizing s room' with
  | nil =>
    have hnil := List.eq_nil_of_length_eq_zero (Nat.le_zero.mp hroom)
    cases room' with
    | nil => rfl
    | cons _ room' =>
      rw [steps, steps, get_bind_run, hnil]
      rfl
  | cons c room ih =>
    cases room' with
    | nil =>
      have hnil := List.eq_nil_of_length_eq_zero (Nat.le_zero.mp hroom')
      rw [steps, steps, get_bind_run, hnil]
      rfl
    | cons c' room' =>
      rw [steps, steps, get_bind_run, get_bind_run]
      split
      · cases hstep : scanner.step s with
        | ok u s' =>
          have hlength := (leads_of_step hoperators hstep).2
          simp only [List.length_cons] at hroom hroom'
          rw [bind_of_eq_ok hstep, bind_of_eq_ok hstep]
          exact ih (by omega) (by omega)
        | error e s' => rw [bind_of_eq_error hstep, bind_of_eq_error hstep]
      · rfl

omit hoperators

/-! ### What a step does -/

/-- The characters that a step knows one by one. -/
def marks : List Char :=
  [' ', '\t', '\r', '\n', '#', '"', '\'', ',', ';', ':', '(', ')', '\x7b', '\x7d', '.', '|', '$',
    '@']

/-- A character that is no mark of its own starts a number, a word or an operator. -/
theorem step_of_not_mem_marks {c : Char} {xs : List Char} (hrest : s.rest = c :: xs)
    (hc : c ∉ marks) :
    scanner.step s =
      (if c.isDigit then scanner.number
      else if isLetter c then do
        scanner.word
        scanner.memberChain
      else scanner.operator c) s := by
  simp only [marks, List.mem_cons, List.not_mem_nil, or_false, not_or] at hc
  rw [step, get_bind_run, peek_zero hrest]
  simp [isSpace, isQuote, delimiters, hc]

/-- A class that no mark is in has no mark. -/
theorem not_mem_marks {p : Char → Bool} {c : Char} (hp : ∀ d ∈ marks, p d = false) (hc : p c) :
    c ∉ marks := by
  intro hmem
  rw [hp c hmem] at hc
  cases hc

/-- In front of a digit, a step reads a number. -/
theorem step_of_isDigit {c : Char} {xs : List Char} (hrest : s.rest = c :: xs) (hc : c.isDigit) :
    scanner.step s = scanner.number s := by
  rw [step_of_not_mem_marks hrest (not_mem_marks (by decide) hc), if_pos hc]

/-- In front of a letter, a step reads a word and its members. -/
theorem step_of_isLetter {c : Char} {xs : List Char} (hrest : s.rest = c :: xs) (hc : isLetter c)
    (hdigit : c.isDigit = false) :
    scanner.step s = (do scanner.word; scanner.memberChain : Scan Unit) s := by
  rw [step_of_not_mem_marks hrest (not_mem_marks (by decide) hc), if_neg (by simp [hdigit]),
    if_pos hc]

/-- In front of a space, a step passes it. -/
theorem step_of_isSpace {c : Char} {xs : List Char} (hrest : s.rest = c :: xs) (hc : isSpace c) :
    scanner.step s = .ok () (s.read 1) := by
  rw [step, get_bind_run, peek_zero hrest, if_pos hc, skip_run]

/-- In front of a quote, a step reads a string. -/
theorem step_of_isQuote {c : Char} {xs : List Char} (hrest : s.rest = c :: xs) (hc : isQuote c) :
    scanner.step s = scanner.string c s := by
  rw [isQuote, Bool.or_eq_true, beq_iff_eq, beq_iff_eq] at hc
  rw [step, get_bind_run, peek_zero hrest]
  rcases hc with rfl | rfl <;> rfl

/-- In front of a number sign, a step passes a comment. -/
theorem step_of_hash {xs : List Char} (hrest : s.rest = '#' :: xs) :
    scanner.step s = comment s := by
  rw [step, get_bind_run, peek_zero hrest]
  rfl

/-- In front of a dollar sign, a step reads a register and its members. -/
theorem step_of_dollar {xs : List Char} (hrest : s.rest = '$' :: xs) :
    scanner.step s = (do scanner.register; scanner.memberChain : Scan Unit) s := by
  rw [step, get_bind_run, peek_zero hrest]
  rfl

/-- In front of an at sign, a step reads a directive. -/
theorem step_of_at {xs : List Char} (hrest : s.rest = '@' :: xs) :
    scanner.step s = scanner.directive s := by
  rw [step, get_bind_run, peek_zero hrest]
  rfl

/-- In front of a delimiter, a step reads it. -/
theorem step_of_mem_delimiters {c : Char} {xs : List Char} (hrest : s.rest = c :: xs)
    (hc : c ∈ delimiters) : scanner.step s = scanner.delimiter c s := by
  rw [step, get_bind_run, peek_zero hrest]
  simp only [delimiters, List.mem_cons, List.not_mem_nil, or_false] at hc
  rcases hc with rfl | rfl | rfl | rfl | rfl | rfl | rfl | rfl <;> rfl

/-- In front of a single bar, a step reads it as a delimiter. -/
theorem step_of_bar {xs : List Char} (hrest : s.rest = '|' :: xs) (hxs : Stops (· == '|') xs) :
    scanner.step s = scanner.delimiter '|' s := by
  have hsecond : (s.peek 1 != '|') = true := by
    rw [ScanState.peek, hrest, List.getD_cons_succ]
    cases xs with
    | nil => decide
    | cons c xs => simpa using hxs c rfl
  rw [step, get_bind_run, peek_zero hrest, hsecond]
  rfl

/-- The operators are told by their kind. -/
theorem mem_of_kind? {op : String} {kind : TokenKind} (h : Operator.kind? op = some kind) :
    op ∈ Operator.binary ++ Operator.unary ++ Operator.assignment := by
  simp only [List.mem_append]
  unfold Operator.kind? at h
  split at h
  · exact .inl (.inl ‹_›)
  · split at h
    · exact .inl (.inr ‹_›)
    · split at h
      · exact .inr ‹_›
      · cases h

/-- No operator starts with what starts something else, but for those of bars, which come in
twos. -/
theorem step_of_operator {op : String} {kind : TokenKind} {ys : List Char}
    (hkind : Operator.kind? op = some kind) (hrest : s.rest = op.toList ++ ys) :
    scanner.step s = scanner.operator (s.peek 0) s := by
  have hmem := mem_of_kind? hkind
  simp only [Operator.binary, Operator.unary, Operator.assignment, List.mem_append, List.mem_cons,
    List.not_mem_nil, or_false] at hmem
  rw [step, get_bind_run]
  simp only [ScanState.peek, hrest]
  rcases hmem with (h | h) | h <;>
    (repeat' (rcases h with rfl | h)) <;> rfl

/-- An operator is read if no longer one is in the text. -/
theorem operatorAt_eq {op : String} {kind : TokenKind} {ys : List Char}
    (hkind : Operator.kind? op = some kind)
    (hlongest : ∀ longer kind', Operator.kind? longer = some kind' →
      longer.toList <+: op.toList ++ ys → longer.length ≤ op.length) :
    operatorAt (op.toList ++ ys) ((op.toList ++ ys).getD 0 endMark) = op := by
  obtain ⟨c, text, htext⟩ := List.exists_cons_of_ne_nil (Spells.operator hkind hlongest).text_ne_nil
  have hfront : op.toList <+: op.toList ++ ys := List.prefix_append _ _
  have hle := length_le_operatorAt (c := (op.toList ++ ys).getD 0 endMark) hkind hfront
  have hfound : ∃ kind', Operator.kind?
      (operatorAt (op.toList ++ ys) ((op.toList ++ ys).getD 0 endMark)) = some kind' := by
    unfold operatorAt at hle ⊢
    cases hfind : Operator.multiChar.find? fun op' => op'.toList.isPrefixOf (op.toList ++ ys) with
    | some found =>
      have hall : ∀ op ∈ Operator.multiChar, (Operator.kind? op).isSome := by decide
      exact Option.isSome_iff_exists.mp (hall found (List.mem_of_find?_eq_some hfind))
    | none =>
      -- Without a long operator, the one in front is its first character.
      rw [hfind, Option.getD_none, htext, List.cons_append, List.getD_cons_zero,
        Char.toString_eq_singleton, String.length_singleton, ← String.length_toList, htext,
        List.length_cons] at hle
      obtain rfl : text = [] := List.eq_nil_of_length_eq_zero (by omega)
      have hop : op = String.singleton c := by
        rw [← String.toList_inj, htext, String.toList_singleton]
      rw [Option.getD_none, htext, List.cons_append, List.getD_cons_zero,
        Char.toString_eq_singleton, ← hop]
      exact ⟨kind, hkind⟩
  obtain ⟨kind', hkind'⟩ := hfound
  have hfront' := operatorAt_isPrefix hkind'
  have hge := hlongest _ kind' hkind' hfront'
  refine String.toList_inj.mp ?_
  exact List.IsPrefix.eq_of_length (List.prefix_of_prefix_length_le hfront' hfront hge)
    (Nat.le_antisymm hge hle)

/-- A type is written behind a colon and blanks. -/
theorem Spells.exists_type {lexeme : String} {text ys : List Char}
    (h : Spells .typeName lexeme text ys) :
    ∃ blanks name, lexeme = String.ofList name ∧ text = ':' :: (blanks ++ name) ∧
      (∀ c ∈ blanks, Text.isBlank c) ∧ name ≠ [] ∧ (∀ c ∈ name, isTypeChar c) ∧
      Stops isTypeChar ys := by
  generalize hkind : TokenKind.typeName = kind at h
  cases h with
  | typeName hblanks hne hname hys => exact ⟨_, _, rfl, rfl, hblanks, hne, hname, hys⟩
  | word =>
    unfold wordKind at hkind
    split at hkind
    · cases hkind
    · split at hkind <;> cases hkind
  | radix r => cases r <;> cases hkind
  | operator hop => exact absurd hkind.symm (behind_of_kind? hop).2.1
  | _ => cases hkind

/-- A word is written as it is. -/
theorem Spells.of_word {kind : TokenKind} {lexeme : String} {text ys : List Char}
    (h : Spells kind lexeme text ys) (hkind : Mode.behind kind = .name) :
    kind = wordKind lexeme ∧ lexeme = String.ofList text ∧ text ≠ [] ∧
      (∀ c ∈ text, isWordChar c) ∧ Stops isWordChar ys := by
  cases h with
  | word hne hname hys => exact ⟨rfl, rfl, hne, hname, hys⟩
  | radix r => cases r <;> cases hkind
  | operator hop =>
    rw [(behind_of_kind? hop).1] at hkind
    cases hkind
  | _ => cases hkind

/-! ### What is left to do -/

/-- Takes steps until the text ends. -/
def pass (scanner : Scanner) : Scan Unit := do
  scanner.steps (← get).rest

/-- Reads the members behind a name, and then the rest. -/
def passBehindName (scanner : Scanner) : Scan Unit := do
  scanner.memberChain
  scanner.pass

/-- What is left to do in a mode. -/
def resume (scanner : Scanner) : Mode → Scan Unit
  | .free => scanner.pass
  | .register => do
    if (← next?) = some ':' then scanner.typeName
    scanner.passBehindName
  | .type => do
    discard (readWhile Text.isBlank)
    scanner.passBehindName
  | .name => scanner.passBehindName
  | .dot => do
    scanner.word
    scanner.passBehindName

/-- At the end of the text, nothing is left to do. -/
theorem pass_of_nil (hrest : s.rest = []) : scanner.pass s = .ok () s := by
  rw [pass, get_bind_run, hrest]
  rfl

/-- Without a dot, no member is read. -/
theorem passBehindName_of_stops (h : Stops (· == '.') s.rest) :
    scanner.passBehindName s = scanner.pass s := by
  rw [passBehindName, bind_of_eq_ok (memberChain_of_stops h)]

/-- Behind a dot, a word is read as the name of a member. -/
theorem passBehindName_of_dot {c : Char} {xs : List Char} (hrest : s.rest = '.' :: c :: xs)
    (hc : isWordChar c) :
    scanner.passBehindName s = scanner.resume .dot (s.take scanner.file ['.'] .delimiter ".") := by
  have hmember : scanner.member s = scanner.word (s.take scanner.file ['.'] .delimiter ".") := by
    rw [member_run hrest, List.head?_cons, Option.any_some, if_pos hc]
  rw [passBehindName, bind_congr_run (memberChain_of_dot hrest), bind_assoc,
    bind_congr_run hmember]
  rfl

/-- A type is read with the blanks behind it. -/
theorem resume_register_of_typeName {lexeme : String} {text ys : List Char}
    (hrest : s.rest = text ++ ys) (hspells : Spells .typeName lexeme text ys) :
    scanner.resume .register s =
      scanner.resume .type (s.take scanner.file text .typeName lexeme) := by
  obtain ⟨blanks, name, rfl, rfl, hblanks, hne, hname, hys⟩ := hspells.exists_type
  obtain ⟨blanks', zs, rfl, hblanks', hzs⟩ := exists_run Text.isBlank ys
  have hstops : Stops Text.isBlank (name ++ (blanks' ++ zs)) := by
    refine stops_run hne hname (fun c hc => ?_) _
    rw [isTypeChar, Bool.and_eq_true, Bool.not_eq_true'] at hc
    exact hc.1
  have hrest' := ScanState.rest_read_length hrest
  have hrun := @typeName_run scanner s ':' blanks name blanks' zs (by simpa using hrest) hblanks
    hstops hname hys hblanks' hzs
  rw [if_neg hne] at hrun
  rw [resume, next?_bind_run, hrest, if_pos (by rfl), bind_of_eq_ok hrun, resume,
    discard_readWhile_bind_run, ScanState.rest_take, hrest', takeWhile_append_of_stops hblanks' hzs]

section

variable (hoperators : scanner.operators = Operator.multiChar)
include hoperators

/-- As long as there is text, a step is taken. -/
theorem pass_of_cons {c : Char} {xs : List Char} (hrest : s.rest = c :: xs) :
    scanner.pass s = (scanner.step >>= fun _ => scanner.pass) s := by
  rw [pass, get_bind_run, hrest, steps, get_bind_run, hrest, if_pos (by rfl)]
  cases hstep : scanner.step s with
  | ok u s' =>
    have hlength := (leads_of_step hoperators hstep).2
    rw [hrest, List.length_cons] at hlength
    rw [bind_of_eq_ok hstep, bind_of_eq_ok hstep, get_bind_run]
    exact steps_congr hoperators (by omega) (Nat.le_refl _)
  | error e s' => rw [bind_of_eq_error hstep, bind_of_eq_error hstep]

/-- A step that succeeds leaves the rest to do. -/
theorem pass_of_step {s' : ScanState} {c : Char} {xs : List Char} (hrest : s.rest = c :: xs)
    (hstep : scanner.step s = .ok () s') : scanner.pass s = scanner.pass s' := by
  rw [pass_of_cons hoperators hrest, bind_of_eq_ok hstep]

/-- Behind a word, a member may follow. -/
theorem pass_of_word {c : Char} {name ys : List Char} (hrest : s.rest = c :: name ++ ys)
    (hname : ∀ d ∈ c :: name, isWordChar d) (hdigit : c.isDigit = false)
    (hys : Stops isWordChar ys) :
    scanner.pass s = scanner.passBehindName (s.take scanner.file (c :: name)
      (wordKind (String.ofList (c :: name))) (String.ofList (c :: name))) := by
  have hletter : isLetter c := by
    have hc := hname c List.mem_cons_self
    rwa [isWordChar, hdigit, Bool.or_false] at hc
  rw [pass_of_cons hoperators hrest,
    bind_congr_run (@step_of_isLetter scanner s _ _ hrest hletter hdigit), bind_assoc,
    bind_of_eq_ok (word_run hrest hname hys)]
  rfl

/-- Behind a register, a type may follow. -/
theorem pass_of_register {name ys : List Char} (hrest : s.rest = '$' :: name ++ ys)
    (hne : name ≠ []) (hname : ∀ c ∈ name, isWordChar c) (hys : Stops isWordChar ys) :
    scanner.pass s = scanner.resume .register
      (s.take scanner.file ('$' :: name) .register (String.ofList name)) := by
  have hrest' := @ScanState.rest_read_length s ('$' :: name) ys hrest
  have hregister : scanner.register s = (next? >>= fun next =>
      if next = some ':' then scanner.typeName else pure ())
      (s.take scanner.file ('$' :: name) .register (String.ofList name)) := by
    rw [register_run hrest hname hys, if_neg hne, next?_bind_run, ScanState.rest_take, hrest']
  rw [pass_of_cons hoperators hrest, bind_congr_run (@step_of_dollar scanner s _ hrest),
    bind_assoc, bind_congr_run hregister, bind_assoc, resume, next?_bind_run, next?_bind_run]
  split <;> rfl

omit hoperators in
/-- No digit is the letter of a radix. -/
theorem ofLetter?_of_isDigit {c : Char} (hc : c.isDigit) : Radix.ofLetter? c = none := by
  have hne {d : Char} (hd : d.isDigit = false) : c ≠ d := by
    rintro rfl
    rw [hd] at hc
    cases hc
  simp [Radix.ofLetter?, hne (d := 'x'), hne (d := 'X'), hne (d := 'b'), hne (d := 'B'),
    hne (d := 'o'), hne (d := 'O')]

omit hoperators in
/-- Digits are read as a decimal number if no letter of a radix follows a lone zero. -/
theorem step_of_digits {digits ys : List Char} (hrest : s.rest = digits ++ ys)
    (hne : digits ≠ []) (hdigits : ∀ c ∈ digits, c.isDigit)
    (hzero : digits = ['0'] → ∀ letter ∈ ys.head?, Radix.ofLetter? letter = none) :
    scanner.step s = scanner.decimalNumber s := by
  obtain ⟨c, digits, rfl⟩ := List.exists_cons_of_ne_nil hne
  rw [step_of_isDigit hrest (hdigits c List.mem_cons_self), number_run_of_not_radix]
  intro letter zs hrest'
  rw [hrest', List.cons_append, List.cons.injEq] at hrest
  obtain ⟨rfl, hrest⟩ := hrest
  cases digits with
  | nil =>
    obtain rfl : letter :: zs = ys := hrest
    exact hzero rfl letter rfl
  | cons d digits =>
    obtain rfl : letter = d := (List.cons.inj hrest).1
    exact ofLetter?_of_isDigit (hdigits letter (by simp))

/-- A token behind which anything may come is read in one step. -/
theorem step_of_spells {kind : TokenKind} {lexeme : String} {text ys : List Char}
    (hrest : s.rest = text ++ ys) (h : Spells kind lexeme text ys) (hkind : kind ≠ .typeName)
    (hbehind : Mode.behind kind = .free) :
    scanner.step s = .ok () (s.take scanner.file text kind lexeme) := by
  cases h with
  | @string quote content ys hquote hcontent =>
    have hstops : Stops (fun c => c != quote && c != '\n') (quote :: ys) := by simp [Stops]
    have hrest' : s.rest = quote :: (content ++ quote :: ys) := by simpa using hrest
    have hne : quote ≠ '\n' := by
      rintro rfl
      exact absurd hquote (by decide)
    rw [step_of_isQuote hrest' hquote, string_run hrest' hcontent hstops]
    exact if_neg hne
  | register => cases hbehind
  | directive d hys =>
    have hword : ∀ c ∈ d.word.toList, isWordChar c := by cases d <;> decide
    have hne : d.word.toList ≠ [] := by cases d <;> decide
    have hknown : Directive.ofWord? (String.ofList d.word.toList) = some d := by
      rw [String.ofList_toList, Directive.ofWord?_eq_some_iff]
    rw [step_of_at hrest, directive_run hrest hword hys, if_neg hne, hknown, String.ofList_toList]
    rfl
  | typeName => exact absurd rfl hkind
  | integer hne hdigits hys hfraction hzero =>
    rw [step_of_digits hrest hne hdigits hzero, integer_run hrest hdigits hys hfraction]
  | @decimal whole digits ys hne hwhole hne' hdigits hys =>
    have hrest' : s.rest = whole ++ '.' :: (digits ++ ys) := by simpa using hrest
    have hdot : ∀ letter ∈ ('.' :: (digits ++ ys)).head?, Radix.ofLetter? letter = none := by
      rintro letter ⟨⟩
      decide
    rw [step_of_digits hrest' hne hwhole fun _ => hdot, decimal_run hrest' hwhole hne' hdigits hys]
  | radix r hletter hne hdigits hys =>
    rw [step_of_isDigit hrest (by decide), number_run_of_radix hrest hletter,
      radixNumber_run hrest hdigits hys, if_neg hne]
  | word =>
    unfold wordKind at hbehind
    split at hbehind
    · cases hbehind
    · split at hbehind <;> cases hbehind
  | delimiter hc => rw [step_of_mem_delimiters hrest hc, delimiter_run]
  | bar hys => rw [step_of_bar hrest hys, delimiter_run, show '|'.toString = "|" from by decide]
  | operator hop hlongest =>
    have hfound := operatorAt_eq hop hlongest
    rw [step_of_operator hop hrest, operator_run hoperators, hrest, ScanState.peek, hrest, hfound,
      hop]

/-- Whatever comes next is read, and then the rest is left to do. -/
theorem resume_of_skip {mode mode' : Mode} {text ys : List Char} (hrest : s.rest = text ++ ys)
    (h : Takes mode text none mode' ys) :
    scanner.resume mode s = scanner.resume mode' (s.read text.length) := by
  cases h with
  | space hc => exact pass_of_step hoperators hrest (step_of_isSpace hrest hc)
  | comment hbody hys =>
    refine pass_of_step hoperators hrest ?_
    rw [step_of_hash hrest, comment_run hrest hbody hys]
  | untyped hys =>
    have hnone : s.rest.head? ≠ some ':' := by
      rw [hrest]
      intro hhead
      cases hys ':' hhead
    rw [resume, next?_bind_run, if_neg hnone]
    rfl
  | blanks htext hys =>
    rw [resume, discard_readWhile_bind_run, hrest, takeWhile_append_of_stops htext hys]
    rfl
  | unchained hys => exact passBehindName_of_stops (by rwa [hrest])

/-- What is left to do in front of a token is to take it and to go on in the mode behind it. -/
theorem resume_of_token {mode mode' : Mode} {kind : TokenKind} {lexeme : String}
    {text ys : List Char} (hrest : s.rest = text ++ ys)
    (h : Takes mode text (some (kind, lexeme)) mode' ys) :
    scanner.resume mode s = scanner.resume mode' (s.take scanner.file text kind lexeme) := by
  cases h with
  | token hspells hkind hname =>
    by_cases hbehind : Mode.behind kind = .free
    · obtain ⟨c, text, rfl⟩ := List.exists_cons_of_ne_nil hspells.text_ne_nil
      rw [hbehind]
      exact pass_of_step hoperators hrest
        (step_of_spells hoperators hrest hspells hkind hbehind)
    · cases hspells with
      | register hne hword hys => exact pass_of_register hoperators hrest hne hword hys
      | @word name ys hne hword hys =>
        obtain ⟨c, name, rfl⟩ := List.exists_cons_of_ne_nil hne
        rw [behind_wordKind]
        exact pass_of_word hoperators hrest hword (hname (behind_wordKind _) c rfl) hys
      | radix r => cases r <;> exact absurd rfl hbehind
      | operator hop => exact absurd (behind_of_kind? hop).1 hbehind
      | _ => exact absurd rfl hbehind
  | typed hspells => exact resume_register_of_typeName hrest hspells
  | dot hnext =>
    obtain ⟨c, hhead, hc⟩ := hnext
    obtain ⟨xs, rfl⟩ := List.head?_eq_some_iff.mp hhead
    exact passBehindName_of_dot hrest hc
  | member hspells =>
    obtain ⟨_, hlexeme, _, hname, hys⟩ := hspells.of_word (behind_wordKind _)
    have hrun := @word_run scanner s _ _ hrest hname hys
    rw [← hlexeme] at hrun
    change (scanner.word >>= fun _ => scanner.passBehindName) s = _
    rw [bind_of_eq_ok hrun]
    rfl

end

/-! ### The whole text -/

/-- Whatever is in a text is read to its end. -/
theorem resume_of_scans (hoperators : scanner.operators = Operator.multiChar) {mode : Mode}
    {p : Position} {xs : List Char} {ts : List Token} (h : Scans scanner.file mode p xs ts)
    (hposition : s.position = p) (hrest : s.rest = xs) :
    scanner.resume mode s = .ok () ⟨[], p.afterAll xs, ts.reverse ++ s.found⟩ := by
  induction h generalizing s with
  | done =>
    rw [resume, pass_of_nil hrest]
    obtain ⟨rest, position, found⟩ := s
    obtain rfl : rest = [] := hrest
    subst hposition
    rfl
  | skip htakes _ ih =>
    rw [resume_of_skip hoperators hrest htakes,
      ih (by rw [ScanState.position_read_length hrest, hposition])
        (ScanState.rest_read_length hrest), Position.afterAll_append]
    rfl
  | @token mode mode' p kind lexeme text ys ts htakes _ ih =>
    rw [resume_of_token hoperators hrest htakes,
      ih (by rw [ScanState.position_take, ScanState.position_read_length hrest, hposition])
        (by rw [ScanState.rest_take, ScanState.rest_read_length hrest]), Position.afterAll_append]
    simp [hposition]

/-- A text is scanned exactly as the tokens in it and its end. -/
theorem scan_eq_ok_iff {source file : String} {tokens : List Token} :
    RegisterLang.scan source file = .ok tokens ↔
      ∃ ts, tokens = ts ++ [endOfInput file source.toList] ∧
        Scans file .free Position.start source.toList ts := by
  refine ⟨scans_of_scan, ?_⟩
  rintro ⟨ts, rfl, hscans⟩
  have hpass := @resume_of_scans { file } (ScanState.start source.toList) rfl _ _ _ _ hscans rfl
    rfl
  have hsteps : Scanner.steps { file } source.toList (ScanState.start source.toList) = .ok () _ :=
    hpass
  unfold RegisterLang.scan scan
  have hrun : (Scanner.tokenize { file } source.toList).run (ScanState.start source.toList) =
      .ok () ⟨[], Position.start.afterAll source.toList,
        endOfInput file source.toList :: ts.reverse⟩ := by
    change (Scanner.steps { file } source.toList >>= fun _ => _) (ScanState.start source.toList) = _
    rw [bind_of_eq_ok hsteps]
    simp [ScanState.start]
    rfl
  rw [hrun]
  simp [ScanState.tokens]

end RegisterLang.Scanner
