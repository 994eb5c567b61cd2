import RegisterLang.Proofs.Token.Completeness
import RegisterLang.Proofs.Token.Session
import RegisterLang.Proofs.Token.Tiling

/-!
# Malformed lexemes

The texts that no lexeme can be made of, described without a scanner: `Malformed` lists them with
the code, the cause and the place of their errors. A step of the scanner fails exactly in front of
these texts, and it fails as the list says.
-/

namespace RegisterLang

namespace Scanner

/-! ### What is malformed -/

/-- The characters that are operators of their own, or start one whatever follows. -/
def operatorStarts : List Char :=
  ['+', '-', '*', '/', '%', '^', '=', '!', '<', '>']

/-- A character starts a lexeme: blank space, a comment, a string, a delimiter, a register, a
directive, a number, a word or an operator. An ampersand does in front of another one only. -/
def StartsLexeme (c : Char) (xs : List Char) : Prop :=
  isSpace c ∨ c = '#' ∨ isQuote c ∨ c ∈ delimiters ∨ c = '|' ∨ c = '$' ∨ c = '@' ∨ c.isDigit ∨
    isLetter c ∨ c ∈ operatorStarts ∨ c = '&' ∧ xs.head? = some '&'

/-- Members in a row, each a dot and a name. -/
inductive Chain : List Char → Prop where
  | nothing : Chain []
  | member {name text} :
      name ≠ [] → (∀ c ∈ name, isWordChar c) → Chain text → Chain ('.' :: (name ++ text))

/-- What members may be chained to: a word, or a register with or without a type. A dot that follows
a type directly would belong to it, so there are blanks in front of the dot. -/
inductive Chainable : List Char → Prop where
  | word {first name} :
      isLetter first → (∀ c ∈ name, isWordChar c) → Chainable (first :: name)
  | register {name} : name ≠ [] → (∀ c ∈ name, isWordChar c) → Chainable ('$' :: name)
  | typed {name blanks type blanks'} :
      name ≠ [] → (∀ c ∈ name, isWordChar c) → (∀ c ∈ blanks, Text.isBlank c) →
      type ≠ [] → (∀ c ∈ type, isTypeChar c) → blanks' ≠ [] → (∀ c ∈ blanks', Text.isBlank c) →
      Chainable ('$' :: (name ++ ':' :: (blanks ++ (type ++ blanks'))))

/-- `Malformed code cause front back`: a text that starts with `front` and goes on with `back` is
malformed at its start. The error has this code and this cause, and it is located behind `front`. -/
inductive Malformed : String → ScanError.Cause → List Char → List Char → Prop where
  | unexpectedCharacter {c xs} :
      ¬ StartsLexeme c xs → Malformed "L001" (.unexpectedCharacter c) [] (c :: xs)
  /-- The string has no end, on its line or elsewhere. -/
  | unterminatedString {quote xs} :
      isQuote quote → (∀ c ∈ xs, c ≠ quote ∧ c ≠ '\n') →
      Malformed "L002" (.unterminatedString quote) [] (quote :: xs)
  | multilineString {quote content xs} :
      isQuote quote → (∀ c ∈ content, c ≠ quote ∧ c ≠ '\n') →
      Malformed "L003" .multilineString (quote :: content) ('\n' :: xs)
  | missingRegisterName {xs} :
      Stops isWordChar xs → Malformed "L004" (.missingRegisterName xs.head?) ['$'] xs
  | missingDirective {xs} : Stops isWordChar xs → Malformed "L005" .missingDirective ['@'] xs
  | unknownDirective {word xs} :
      word ≠ [] → (∀ c ∈ word, isWordChar c) → Stops isWordChar xs →
      (∀ d : Directive, d.word ≠ String.ofList word) →
      Malformed "L006" (.unknownDirective (String.ofList word)) [] ('@' :: (word ++ xs))
  /-- Behind the colon there are only blanks, up to a percent sign or the end of the text. -/
  | missingType {name blanks xs} :
      name ≠ [] → (∀ c ∈ name, isWordChar c) → (∀ c ∈ blanks, Text.isBlank c) →
      (∀ c ∈ xs.head?, c = '%') →
      Malformed "L007" .missingType ('$' :: name) (':' :: (blanks ++ xs))
  | invalidMember {lead chain xs} :
      Chainable lead → Chain chain → Stops isWordChar xs →
      Malformed "L008" .invalidMember (lead ++ (chain ++ ['.'])) xs
  | invalidNumber {letter radix xs} :
      Radix.ofLetter? letter = some radix → Stops radix.isDigit xs →
      Malformed "L009" (.invalidNumber (String.ofList ['0', letter]) radix) [] ('0' :: letter :: xs)

/-- The code of a malformed text is that of its cause. -/
theorem Malformed.code_eq {code : String} {cause : ScanError.Cause} {front back : List Char}
    (h : Malformed code cause front back) : cause.code = code := by
  cases h <;> rfl

/-- A step that fails in a state because the text there is malformed: the error `e` is the one that
is listed, at its place. -/
def Rejects (file : String) (s : ScanState) (e : ScanError) : Prop :=
  ∃ code front back, s.rest = front ++ back ∧ Malformed code e.cause front back ∧
    e.location = (s.position.afterAll front).inFile file

variable {scanner : Scanner} {s s' s₁ : ScanState} {e : ScanError} {c : Char}
  {lead chain xs : List Char}

/-! ### Characters -/

/-- No letter is a digit. -/
theorem isDigit_of_isLetter (h : isLetter c) : c.isDigit = false := by
  simp only [isLetter, Bool.or_eq_true, Bool.and_eq_true, decide_eq_true_eq, beq_iff_eq,
    Char.le_def, UInt32.le_iff_toNat_le] at h
  by_contra hdigit
  simp only [Bool.not_eq_false, Char.isDigit, Bool.and_eq_true, decide_eq_true_eq, ge_iff_le,
    UInt32.le_iff_toNat_le] at hdigit
  rcases h with (h | h) | rfl
  · simp at h hdigit
    omega
  · simp at h hdigit
    omega
  · simp at hdigit

/-- What ends a run of blanks may belong to a type, and what ends a type may be a blank. -/
theorem isBlank_of_isTypeChar (h : isTypeChar c) : Text.isBlank c = false := by
  rw [isTypeChar, Bool.and_eq_true, Bool.not_eq_true'] at h
  exact h.1

/-- A blank is no character of types. -/
theorem isTypeChar_of_isBlank (h : Text.isBlank c) : isTypeChar c = false := by
  rw [isTypeChar, h]
  rfl

/-- A text in front of which no type goes on and that starts with no blank starts with a percent
sign. -/
theorem head?_eq_percent (htype : Stops isTypeChar xs) (hblank : Stops Text.isBlank xs) :
    ∀ c ∈ xs.head?, c = '%' := by
  intro c hc
  have hstop := htype c hc
  simpa [isTypeChar, hblank c hc] using hstop

/-! ### Operators -/

/-- Where an operator starts, one is found. -/
theorem exists_kind?_operatorAt
    (h : c ∈ operatorStarts ∨ ∃ op ∈ Operator.multiChar, op.toList <+: c :: xs) :
    ∃ kind, Operator.kind? (operatorAt (c :: xs) c) = some kind := by
  unfold operatorAt
  cases hfind : Operator.multiChar.find? fun op => op.toList.isPrefixOf (c :: xs) with
  | some op =>
    have hall : ∀ op ∈ Operator.multiChar, (Operator.kind? op).isSome := by decide
    exact Option.isSome_iff_exists.mp (hall op (List.mem_of_find?_eq_some hfind))
  | none =>
    rcases h with hstart | ⟨op, hop, hfront⟩
    · have hall : ∀ c ∈ operatorStarts, (Operator.kind? c.toString).isSome := by decide
      exact Option.isSome_iff_exists.mp (hall c hstart)
    · exact absurd (List.isPrefixOf_iff_prefix.mpr hfront) (List.find?_eq_none.mp hfind op hop)

/-- Where no lexeme starts, no operator is found. -/
theorem kind?_operatorAt_eq_none (h : ¬ StartsLexeme c xs) :
    Operator.kind? (operatorAt (c :: xs) c) = none := by
  cases hkind : Operator.kind? (operatorAt (c :: xs) c) with
  | none => rfl
  | some kind =>
    have hstarts : ∀ op ∈ Operator.binary ++ Operator.unary ++ Operator.assignment,
        op.toList.head?.any fun c => operatorStarts.contains c || c == '|' ||
          c == '&' && op.toList[1]? == some '&' := by
      decide
    have hfront : (operatorAt (c :: xs) c).toList <+: c :: xs :=
      @operatorAt_isPrefix (c :: xs) kind hkind
    obtain ⟨d, hd, hstart⟩ := (Option.any_eq_true _ _).mp (hstarts _ (mem_of_kind? hkind))
    obtain ⟨text, htext⟩ := List.head?_eq_some_iff.mp hd
    simp only [Bool.or_eq_true, Bool.and_eq_true, beq_iff_eq, List.contains_iff_mem, or_assoc]
      at hstart
    rw [htext, List.cons_prefix_cons] at hfront
    obtain ⟨rfl, hfront⟩ := hfront
    refine absurd ?_ h
    unfold StartsLexeme
    rcases hstart with hstart | hbar | ⟨hamp, hsecond⟩
    · simp [hstart]
    · simp [hbar]
    · rw [htext, List.getElem?_cons_succ] at hsecond
      obtain ⟨d, text, rfl⟩ := List.exists_cons_of_ne_nil (l := text) (by
        rintro rfl
        cases hsecond)
      obtain ⟨rest, rfl⟩ := hfront
      simp_all

section

variable (hoperators : scanner.operators = Operator.multiChar)
include hoperators

/-- Where no lexeme starts, a step fails. -/
theorem step_of_not_startsLexeme (hrest : s.rest = c :: xs) (h : ¬ StartsLexeme c xs) :
    scanner.step s = .error ⟨.unexpectedCharacter c, s.position.inFile scanner.file⟩ s := by
  have hnone := kind?_operatorAt_eq_none h
  simp only [StartsLexeme, not_or] at h
  obtain ⟨hspace, hhash, hquote, hdelimiter, hbar, hdollar, hat, hdigit, hletter, _⟩ := h
  have hmarks : c ∉ marks := by
    intro hc
    have hall : ∀ c ∈ marks, isSpace c ∨ c = '#' ∨ isQuote c ∨ c ∈ delimiters ∨ c = '|' ∨
        c = '$' ∨ c = '@' := by
      decide
    have hmark := hall c hc
    simp_all
  rw [step_of_not_mem_marks hrest hmarks, if_neg hdigit, if_neg hletter, operator_run hoperators,
    hrest, hnone]

/-- An operator is read. -/
theorem exists_operator_run (hrest : s.rest = c :: xs)
    (h : c ∈ operatorStarts ∨ ∃ op ∈ Operator.multiChar, op.toList <+: c :: xs) :
    ∃ s', scanner.operator c s = .ok () s' := by
  obtain ⟨kind, hkind⟩ := exists_kind?_operatorAt h
  rw [operator_run hoperators, hrest, hkind]
  exact ⟨_, rfl⟩

end

/-! ### Members -/

/-- A dot without a name fails behind the dot. -/
theorem exists_member_run_of_stops (scanner : Scanner) (hrest : s.rest = '.' :: xs)
    (hxs : Stops isWordChar xs) :
    ∃ s', scanner.member s =
      .error ⟨.invalidMember, (s.position.afterAll ['.']).inFile scanner.file⟩ s' := by
  have hfirst : xs.head?.any isWordChar = false := by
    cases xs with
    | nil => rfl
    | cons x xs => exact hxs x rfl
  have hread : (s.read 1).position = s.position.afterAll ['.'] :=
    @ScanState.position_read_length s ['.'] xs hrest
  rw [member_run hrest, hfirst, if_neg Bool.false_ne_true, hread]
  exact ⟨_, rfl⟩

/-- A dot and a name are read. -/
theorem exists_member_run (scanner : Scanner) {name : List Char}
    (hrest : s.rest = '.' :: (name ++ xs)) (hne : name ≠ []) (hname : ∀ c ∈ name, isWordChar c)
    (hxs : Stops isWordChar xs) :
    ∃ s', scanner.member s = .ok () s' ∧ s'.rest = xs ∧
      s'.position = s.position.afterAll ('.' :: name) := by
  let s₁ := s.take scanner.file ['.'] .delimiter "."
  have hrest₁ : s₁.rest = name ++ xs := @ScanState.rest_read_length s ['.'] _ hrest
  have hposition₁ : s₁.position = s.position.afterAll ['.'] :=
    @ScanState.position_read_length s ['.'] _ hrest
  have hfirst : (name ++ xs).head?.any isWordChar := by
    obtain ⟨first, name, rfl⟩ := List.exists_cons_of_ne_nil hne
    exact hname first List.mem_cons_self
  refine ⟨s₁.take scanner.file name (wordKind (String.ofList name)) (String.ofList name), ?_,
    ScanState.rest_read_length hrest₁, ?_⟩
  · rw [member_run hrest, if_pos hfirst]
    exact word_run hrest₁ hname hxs
  · rw [ScanState.position_take, ScanState.position_read_length hrest₁, hposition₁,
      ← Position.afterAll_append]
    rfl

/-- Only a dot without a name fails in a chain of members. -/
theorem exists_chain_of_members {room : List Char} (h : scanner.members room s = .error e s') :
    ∃ chain xs, s.rest = chain ++ '.' :: xs ∧ Chain chain ∧ Stops isWordChar xs ∧
      e = ⟨.invalidMember, (s.position.afterAll (chain ++ ['.'])).inFile scanner.file⟩ := by
  induction room generalizing s with
  | nil => cases h
  | cons _ room ih =>
    rw [members, next?_bind_run] at h
    split at h
    · next hdot =>
      obtain ⟨xs, hrest⟩ := List.head?_eq_some_iff.mp hdot
      obtain ⟨name, ys, rfl, hname, hys⟩ := exists_run isWordChar xs
      by_cases hne : name = []
      · subst hne
        obtain ⟨s₁, hmember⟩ := exists_member_run_of_stops scanner hrest hys
        rw [bind_of_eq_error hmember] at h
        cases h
        exact ⟨[], ys, hrest, .nothing, hys, rfl⟩
      · obtain ⟨s₁, hmember, hrest₁, hposition₁⟩ :=
          exists_member_run scanner hrest hne hname hys
        rw [bind_of_eq_ok hmember] at h
        obtain ⟨chain, zs, hsplit, hchain, hzs, rfl⟩ := ih h
        refine ⟨'.' :: (name ++ chain), zs, ?_, .member hne hname hchain, hzs, ?_⟩
        · rw [hrest, ← hrest₁, hsplit]
          simp
        · rw [hposition₁, ← Position.afterAll_append]
          simp
    · cases h

/-- A chain of members ends the word in front of it. -/
theorem Chain.stops (h : Chain chain) (xs : List Char) : Stops isWordChar (chain ++ '.' :: xs) := by
  cases h <;> exact stops_cons (by decide)

/-- A chain of members with a dot behind it that has no name fails there. -/
theorem exists_memberChain_run (scanner : Scanner) (hchain : Chain chain)
    (hrest : s.rest = chain ++ '.' :: xs) (hxs : Stops isWordChar xs) :
    ∃ s', scanner.memberChain s =
      .error ⟨.invalidMember, (s.position.afterAll (chain ++ ['.'])).inFile scanner.file⟩ s' := by
  induction hchain generalizing s with
  | nothing =>
    obtain ⟨s₁, hmember⟩ := exists_member_run_of_stops scanner hrest hxs
    rw [memberChain_of_dot hrest, bind_of_eq_error hmember]
    exact ⟨s₁, rfl⟩
  | @member name text hne hname htext ih =>
    have hsplit : s.rest = '.' :: (name ++ (text ++ '.' :: xs)) := by simp [hrest]
    obtain ⟨s₁, hmember, hrest₁, hposition₁⟩ :=
      exists_member_run scanner hsplit hne hname (htext.stops xs)
    obtain ⟨s₂, hrun⟩ := ih hrest₁
    rw [memberChain_of_dot hsplit, bind_of_eq_ok hmember, hrun, hposition₁,
      ← Position.afterAll_append]
    exact ⟨s₂, by simp⟩

/-- Behind something that members may be chained to, a chain that fails is malformed. -/
theorem rejects_of_memberChain (hrest : s.rest = lead ++ s₁.rest)
    (hposition : s₁.position = s.position.afterAll lead)
    (hlead : ∀ ys, s₁.rest = '.' :: ys → Chainable lead)
    (h : scanner.memberChain s₁ = .error e s') : Rejects scanner.file s e := by
  rw [memberChain, get_bind_run] at h
  obtain ⟨chain, xs, hsplit, hchain, hxs, rfl⟩ := exists_chain_of_members h
  have hdot : ∃ ys, s₁.rest = '.' :: ys := by
    rw [hsplit]
    cases hchain <;> exact ⟨_, rfl⟩
  obtain ⟨ys, hys⟩ := hdot
  refine ⟨_, lead ++ (chain ++ ['.']), xs, ?_, .invalidMember (hlead ys hys) hchain hxs, ?_⟩
  · rw [hrest, hsplit]
    simp
  · rw [hposition, ← Position.afterAll_append]

/-! ### Registers -/

/-- Reading a text in three parts brings the cursor behind it. -/
theorem read_in_parts {l m n : Nat} (hrest : s.rest = lead ++ xs)
    (hlength : lead.length = l + m + n) :
    (((s.read l).read m).read n).rest = xs ∧
      (((s.read l).read m).read n).position = s.position.afterAll lead := by
  rw [ScanState.read_read, ScanState.read_read, ← Nat.add_assoc, ← hlength]
  constructor
  · exact ScanState.rest_read_length hrest
  · exact ScanState.position_read_length hrest

/-- A register that is read may have members behind it. -/
theorem exists_lead_of_register (hrest : s.rest = '$' :: xs)
    (h : scanner.register s = .ok () s₁) :
    ∃ lead, s.rest = lead ++ s₁.rest ∧ s₁.position = s.position.afterAll lead ∧
      ∀ ys, s₁.rest = '.' :: ys → Chainable lead := by
  obtain ⟨name, ys, rfl, hname, hys⟩ := exists_run isWordChar xs
  rw [register_run hrest hname hys] at h
  split at h
  · cases h
  next hne =>
  have hsplit : s.rest = ('$' :: name) ++ ys := hrest
  have hrest₂ := ScanState.rest_read_length hsplit
  have hposition₂ := ScanState.position_read_length hsplit
  split at h
  · next hcolon =>
    obtain ⟨zs, rfl⟩ := List.head?_eq_some_iff.mp hcolon
    obtain ⟨blanks, zs, rfl, hblanks, hblanksStop⟩ := exists_run Text.isBlank zs
    obtain ⟨type, zs, rfl, htype, htypeStops⟩ := exists_run isTypeChar zs
    obtain ⟨blanks', zs, rfl, hblanks', hzs⟩ := exists_run Text.isBlank zs
    rw [typeName_run (s := s.take scanner.file _ _ _) hrest₂ hblanks hblanksStop htype htypeStops
      hblanks' hzs] at h
    split at h
    · cases h
    next hne' =>
    cases h
    have hall : s.rest = ('$' :: (name ++ ':' :: (blanks ++ (type ++ blanks')))) ++ zs := by
      simp [hrest]
    have hread := read_in_parts (l := ('$' :: name).length)
      (m := (':' :: (blanks ++ type)).length) (n := blanks'.length) hall (by simp; omega)
    refine ⟨_, hall.trans (congrArg _ hread.1.symm), hread.2, fun ys hys => ?_⟩
    refine .typed hne hname hblanks hne' htype ?_ hblanks'
    rintro rfl
    have hdot := htypeStops '.' (by
      rw [List.nil_append, ← hread.1]
      exact congrArg List.head? hys)
    revert hdot
    decide
  · obtain ⟨_, rfl⟩ := pure_eq_ok.mp h
    exact ⟨'$' :: name, by rw [ScanState.rest_take, hrest₂, hsplit], hposition₂,
      fun _ _ => .register hne hname⟩

/-- A register that fails has no name, or no type behind its colon. -/
theorem rejects_of_register (hrest : s.rest = '$' :: xs)
    (h : scanner.register s = .error e s') : Rejects scanner.file s e := by
  obtain ⟨name, ys, rfl, hname, hys⟩ := exists_run isWordChar xs
  rw [register_run hrest hname hys] at h
  split at h
  · next hnil =>
    subst hnil
    cases h
    refine ⟨_, ['$'], ys, hrest, .missingRegisterName hys, ?_⟩
    rw [← @ScanState.position_read_length s ['$'] ys hrest]
    rfl
  next hne =>
  have hsplit : s.rest = ('$' :: name) ++ ys := hrest
  split at h
  · next hcolon =>
    obtain ⟨zs, rfl⟩ := List.head?_eq_some_iff.mp hcolon
    obtain ⟨blanks, zs, rfl, hblanks, hblanksStop⟩ := exists_run Text.isBlank zs
    obtain ⟨type, zs, rfl, htype, htypeStops⟩ := exists_run isTypeChar zs
    obtain ⟨blanks', zs, rfl, hblanks', hzs⟩ := exists_run Text.isBlank zs
    rw [typeName_run (s := s.take scanner.file _ _ _) (ScanState.rest_read_length hsplit) hblanks
      hblanksStop htype htypeStops hblanks' hzs] at h
    split at h
    · next hnil =>
      subst hnil
      cases h
      refine ⟨_, '$' :: name, _, hrest, .missingType hne hname hblanks ?_, ?_⟩
      · exact head?_eq_percent htypeStops hblanksStop
      · rw [ScanState.position_take, ScanState.position_read_length hsplit]
    · cases h
  · cases h

/-! ### Steps that fail -/

/-- Where a string fails, the text is malformed there. -/
theorem rejects_of_string (hrest : s.rest = c :: xs) (hc : isQuote c)
    (h : scanner.string c s = .error e s') : Rejects scanner.file s e := by
  obtain ⟨content, ys, rfl, hcontent, hys⟩ := exists_run (fun d => d != c && d != '\n') xs
  have hcontent' : ∀ d ∈ content, d ≠ c ∧ d ≠ '\n' := by simpa using hcontent
  rw [string_run hrest hcontent' hys] at h
  cases ys with
  | nil =>
    cases h
    exact ⟨_, [], _, hrest, .unterminatedString hc (by simpa using hcontent'), rfl⟩
  | cons d ys =>
    simp only at h
    split at h
    · next hd =>
      subst hd
      cases h
      refine ⟨_, c :: content, _, hrest, .multilineString hc hcontent', ?_⟩
      rw [← @ScanState.position_read_length s (c :: content) _ hrest, List.length_cons,
        Nat.add_comm]
    · cases h

/-- Where a directive fails, the text is malformed there. -/
theorem rejects_of_directive (hrest : s.rest = '@' :: xs)
    (h : scanner.directive s = .error e s') : Rejects scanner.file s e := by
  obtain ⟨word, ys, rfl, hword, hys⟩ := exists_run isWordChar xs
  rw [directive_run hrest hword hys] at h
  split at h
  · next hnil =>
    subst hnil
    cases h
    refine ⟨_, ['@'], ys, hrest, .missingDirective hys, ?_⟩
    rw [← @ScanState.position_read_length s ['@'] ys hrest]
    rfl
  next hne =>
  split at h
  · next hnone =>
    cases h
    refine ⟨_, [], _, hrest, .unknownDirective hne hword hys fun d hd => ?_, rfl⟩
    rw [Directive.ofWord?_eq_some_iff.mpr hd.symm] at hnone
    cases hnone
  · cases h

/-- A number that fails is one of another radix. -/
theorem rejects_of_number (hrest : s.rest = c :: xs) (hc : c.isDigit)
    (h : scanner.number s = .error e s') : Rejects scanner.file s e := by
  rcases cases_of_radix s with ⟨letter, ys, radix, hzero, hletter⟩ | hnone
  · obtain ⟨digits, zs, rfl, hdigits, hzs⟩ := exists_run radix.isDigit ys
    rw [number_run_of_radix hzero hletter, radixNumber_run hzero hdigits hzs] at h
    split at h
    · next hnil =>
      subst hnil
      cases h
      exact ⟨_, [], _, hzero, .invalidNumber hletter hzs, rfl⟩
    · cases h
  · obtain ⟨s₁, hrun, _⟩ := exists_decimalNumber_run hrest hc hnone
    rw [number_run_of_not_radix hnone, hrun] at h
    cases h

/-- A word is read, so what fails is the chain of members behind it. -/
theorem rejects_of_wordChain (hrest : s.rest = c :: xs) (hc : isLetter c)
    (h : (do scanner.word; scanner.memberChain : Scan Unit) s = .error e s') :
    Rejects scanner.file s e := by
  obtain ⟨name, ys, rfl, hname, hys⟩ := exists_run isWordChar xs
  have hsplit : s.rest = (c :: name) ++ ys := hrest
  have hword : ∀ d ∈ c :: name, isWordChar d :=
    List.forall_mem_cons.mpr ⟨by simp [isWordChar, hc], hname⟩
  rw [bind_of_eq_ok (word_run hsplit hword hys)] at h
  refine @rejects_of_memberChain scanner s _ _ _ (c :: name) ?_ ?_ (fun _ _ => .word hc hname) h
  · rw [ScanState.rest_take, ScanState.rest_read_length hsplit, hsplit]
  · rw [ScanState.position_take, ScanState.position_read_length hsplit]

section

variable (hoperators : scanner.operators = Operator.multiChar)
include hoperators

/-- A step fails only where the text is malformed. -/
theorem rejects_of_step (hrest : s.rest = c :: xs) (h : scanner.step s = .error e s') :
    Rejects scanner.file s e := by
  by_cases hstarts : StartsLexeme c xs
  · rcases hstarts with hc | rfl | hc | hc | rfl | rfl | rfl | hc | hc | hc | ⟨rfl, hc⟩
    · rw [step_of_isSpace hrest hc] at h
      cases h
    · rw [step_of_hash hrest] at h
      cases h
    · rw [step_of_isQuote hrest hc] at h
      exact rejects_of_string hrest hc h
    · rw [step_of_mem_delimiters hrest hc] at h
      cases h
    · by_cases hbar : xs.head? = some '|'
      · obtain ⟨ys, rfl⟩ := List.head?_eq_some_iff.mp hbar
        obtain ⟨s₁, hrun⟩ := exists_operator_run hoperators hrest
          (.inr ⟨"||", by decide, by simp⟩)
        rw [@step_of_operator scanner s "||" _ _ rfl hrest, peek_zero hrest, hrun] at h
        cases h
      · rw [step_of_bar hrest (stops_of_head?_ne hbar)] at h
        cases h
    · rw [step_of_dollar hrest] at h
      rcases bind_eq_error.mp h with h | ⟨_, s₁, hregister, h⟩
      · exact rejects_of_register hrest h
      · obtain ⟨lead, hsplit, hposition, hlead⟩ := exists_lead_of_register hrest hregister
        exact rejects_of_memberChain hsplit hposition hlead h
    · rw [step_of_at hrest] at h
      exact rejects_of_directive hrest h
    · rw [step_of_isDigit hrest hc] at h
      exact rejects_of_number hrest hc h
    · rw [step_of_isLetter hrest hc (isDigit_of_isLetter hc)] at h
      exact rejects_of_wordChain hrest hc h
    · have hmarks : c ∉ marks := not_mem_marks (p := operatorStarts.contains) (by decide) (by simpa)
      have hall : ∀ c ∈ operatorStarts, c.isDigit = false ∧ isLetter c = false := by decide
      obtain ⟨s₁, hrun⟩ := exists_operator_run hoperators hrest (.inl hc)
      rw [step_of_not_mem_marks hrest hmarks, (hall c hc).1, (hall c hc).2] at h
      cases hrun.symm.trans h
    · obtain ⟨ys, rfl⟩ := List.head?_eq_some_iff.mp hc
      obtain ⟨s₁, hrun⟩ := exists_operator_run hoperators hrest (.inr ⟨"&&", by decide, by simp⟩)
      rw [@step_of_operator scanner s "&&" _ _ rfl hrest, peek_zero hrest, hrun] at h
      cases h
  · rw [step_of_not_startsLexeme hoperators hrest hstarts] at h
    cases h
    exact ⟨_, [], _, hrest, .unexpectedCharacter hstarts, rfl⟩

end

/-! ### Texts that are malformed -/

/-- What members are chained to is read in front of them. -/
theorem exists_step_of_chainable (scanner : Scanner) {ys : List Char} (hlead : Chainable lead)
    (hrest : s.rest = lead ++ '.' :: ys) :
    ∃ s₁, scanner.step s = scanner.memberChain s₁ ∧ s₁.rest = '.' :: ys ∧
      s₁.position = s.position.afterAll lead := by
  have hdot : Stops isWordChar ('.' :: ys) := stops_cons (by decide)
  have hread := ScanState.rest_read_length hrest
  have hread' := ScanState.position_read_length hrest
  cases hlead with
  | @word first name hfirst hname =>
    have hword : ∀ d ∈ first :: name, isWordChar d :=
      List.forall_mem_cons.mpr ⟨by simp [isWordChar, hfirst], hname⟩
    rw [step_of_isLetter hrest hfirst (isDigit_of_isLetter hfirst),
      bind_of_eq_ok (word_run hrest hword hdot)]
    exact ⟨_, rfl, hread, hread'⟩
  | @register name hne hname =>
    have hrun := @register_run scanner s '$' name _ hrest hname hdot
    rw [if_neg hne, List.head?_cons, if_neg (by decide)] at hrun
    rw [step_of_dollar hrest, bind_of_eq_ok hrun]
    exact ⟨_, rfl, hread, hread'⟩
  | @typed name blanks type blanks' hne hname hblanks hne' htype hne'' hblanks' =>
    have hsplit : s.rest =
        ('$' :: name) ++ (':' :: (blanks ++ (type ++ (blanks' ++ '.' :: ys)))) := by
      simp [hrest]
    have hrun := @register_run scanner s '$' name _ hsplit hname (stops_cons (by decide))
    have hrun' := @typeName_run scanner (s.take scanner.file ('$' :: name) .register
      (String.ofList name)) _ _ _ _ _ (ScanState.rest_read_length hsplit) hblanks
      (stops_run hne' htype (fun _ => isBlank_of_isTypeChar) _) htype
      (stops_run hne'' hblanks' (fun _ => isTypeChar_of_isBlank) _) hblanks'
      (stops_cons (by decide))
    rw [if_neg hne, List.head?_cons, if_pos rfl, hrun', if_neg hne'] at hrun
    rw [step_of_dollar hrest, bind_of_eq_ok hrun]
    exact ⟨_, rfl, read_in_parts (l := ('$' :: name).length)
      (m := (':' :: (blanks ++ type)).length) (n := blanks'.length) hrest (by simp; omega)⟩

/-- In front of a malformed text, a step fails as it is listed. -/
theorem exists_step_of_malformed (hoperators : scanner.operators = Operator.multiChar)
    {code : String} {cause : ScanError.Cause} {front back : List Char}
    (h : Malformed code cause front back) (hrest : s.rest = front ++ back) :
    ∃ s', scanner.step s =
      .error ⟨cause, (s.position.afterAll front).inFile scanner.file⟩ s' := by
  rw [← ScanState.position_read_length hrest]
  cases h with
  | unexpectedCharacter h =>
    rw [step_of_not_startsLexeme hoperators hrest h]
    exact ⟨_, rfl⟩
  | @unterminatedString quote xs hquote hxs =>
    have hrun := @string_run scanner s quote xs []
      (by rw [hrest, List.append_nil]; rfl) hxs (by simp [Stops])
    rw [step_of_isQuote hrest hquote, hrun]
    exact ⟨_, rfl⟩
  | @multilineString quote content xs hquote hcontent =>
    have hrun := @string_run scanner s quote content ('\n' :: xs) hrest hcontent
      (stops_cons (by simp))
    rw [step_of_isQuote hrest hquote, hrun, List.length_cons, Nat.add_comm]
    exact ⟨_, rfl⟩
  | missingRegisterName hxs =>
    have hrun := @register_run scanner s '$' [] _ hrest (by simp) hxs
    rw [step_of_dollar hrest, bind_of_eq_error hrun]
    exact ⟨_, rfl⟩
  | missingDirective hxs =>
    have hrun := @directive_run scanner s '@' [] _ hrest (by simp) hxs
    rw [step_of_at hrest, hrun]
    exact ⟨_, rfl⟩
  | @unknownDirective word xs hne hword hxs hunknown =>
    have hnone : (Directive.ofWord? (String.ofList word)).isNone := by
      cases hd : Directive.ofWord? (String.ofList word) with
      | none => rfl
      | some d => exact absurd (Directive.ofWord?_eq_some_iff.mp hd).symm (hunknown d)
    have hrun := @directive_run scanner s _ _ _ hrest hword hxs
    rw [if_neg hne, if_pos hnone] at hrun
    rw [step_of_at hrest, hrun]
    exact ⟨_, rfl⟩
  | @missingType name blanks xs hne hname hblanks hxs =>
    have hrun := @register_run scanner s _ _ _ hrest hname (stops_cons (by decide))
    have hpercent {p : Char → Bool} (hp : p '%' = false) : Stops p xs := by
      intro c hc
      rw [hxs c hc]
      exact hp
    have hrun' := @typeName_run scanner (s.take scanner.file ('$' :: name) .register
      (String.ofList name)) ':' blanks [] [] xs (ScanState.rest_read_length hrest) hblanks
      (hpercent (by decide)) (by simp) (hpercent (by decide)) (by simp) (hpercent (by decide))
    rw [if_neg hne, List.head?_cons, if_pos rfl, hrun'] at hrun
    rw [step_of_dollar hrest, bind_of_eq_error hrun]
    exact ⟨_, rfl⟩
  | @invalidMember lead chain _ hlead hchain hxs =>
    have hdot : ∃ ys, chain ++ '.' :: back = '.' :: ys := by
      cases hchain <;> exact ⟨_, rfl⟩
    obtain ⟨ys, hys⟩ := hdot
    have hsplit : s.rest = lead ++ '.' :: ys := by simp [hrest, ← hys]
    obtain ⟨s₁, hstep, hrest₁, hposition₁⟩ :=
      exists_step_of_chainable scanner hlead hsplit
    obtain ⟨s', hrun⟩ :=
      exists_memberChain_run scanner hchain (hrest₁.trans hys.symm) hxs
    rw [hstep, hrun, hposition₁, ScanState.position_read_length hrest, ← Position.afterAll_append]
    exact ⟨s', rfl⟩
  | invalidNumber hletter hxs =>
    have hrun := @radixNumber_run scanner s _ _ _ [] _ hrest (by simp) hxs
    rw [step_of_isDigit hrest (by decide), number_run_of_radix hrest hletter, hrun]
    exact ⟨_, rfl⟩

/-! ### A whole pass -/

/-- The states in which a pass over a text starts a step. -/
inductive Dispatched (scanner : Scanner) (source : List Char) : ScanState → Prop where
  | first : source ≠ [] → Dispatched scanner source (ScanState.start source)
  | next {s s' : ScanState} :
      Dispatched scanner source s → scanner.step s = .ok () s' → s'.rest ≠ [] →
      Dispatched scanner source s'

namespace Dispatched

variable {source : List Char}

/-- Where a step starts, there is something left of the text. -/
theorem rest_ne_nil (h : Dispatched scanner source s) : s.rest ≠ [] := by
  cases h with
  | first hne => exact hne
  | next _ _ hne => exact hne

variable (hoperators : scanner.operators = Operator.multiChar)
include hoperators

/-- Where a step starts, the scanner is in the text. -/
theorem inText (h : Dispatched scanner source s) : InText scanner.file source s := by
  suffices hmoves : Moves scanner.file (ScanState.start source) s from
    (hmoves.inText (inText_start scanner.file source) (allPassed_start source)).1
  induction h with
  | first => exact .refl
  | @next s s' _ hstep _ ih =>
    have houtcome := outcome_step (s := s) hoperators
    rw [hstep] at houtcome
    exact ih.trans houtcome

/-- The pass goes on from every state in which it starts a step. -/
theorem pass_eq (h : Dispatched scanner source s) :
    scanner.pass (ScanState.start source) = scanner.pass s := by
  induction h with
  | first => rfl
  | next h hstep _ ih =>
    obtain ⟨c, xs, hrest⟩ := List.exists_cons_of_ne_nil h.rest_ne_nil
    exact ih.trans (pass_of_step hoperators hrest hstep)

/-- Where a pass fails, a step of it does. -/
theorem exists_of_pass (h : Dispatched scanner source s) (hpass : scanner.pass s = .error e s') :
    ∃ s₁, Dispatched scanner source s₁ ∧ scanner.step s₁ = .error e s' := by
  induction hlength : s.rest.length using Nat.strongRecOn generalizing s with
  | ind n ih =>
    obtain ⟨c, xs, hrest⟩ := List.exists_cons_of_ne_nil h.rest_ne_nil
    rw [pass_of_cons hoperators hrest] at hpass
    rcases bind_eq_error.mp hpass with hstep | ⟨_, s₁, hstep, hpass⟩
    · exact ⟨s, h, hstep⟩
    · by_cases hnil : s₁.rest = []
      · rw [pass_of_nil hnil] at hpass
        cases hpass
      · have hshorter := (leads_of_step hoperators hstep).2
        exact ih _ (hlength ▸ hshorter) (h.next hstep hnil) hpass rfl

end Dispatched

/-- A text fails to be scanned when a pass over it does. -/
theorem scan_eq_error_iff {source file : String} :
    RegisterLang.scan source file = .error e ↔
      ∃ s, Scanner.pass { file } (ScanState.start source.toList) = .error e s := by
  let scanner : Scanner := { file }
  have hrun : (scanner.tokenize source.toList).run (ScanState.start source.toList) =
      (scanner.pass >>= fun _ => scanner.place >>= emit .endOfInput "")
        (ScanState.start source.toList) := rfl
  unfold RegisterLang.scan scan
  rw [hrun]
  cases hpass : scanner.pass (ScanState.start source.toList) with
  | ok u s =>
    rw [bind_of_eq_ok hpass]
    constructor
    · nofun
    · rintro ⟨_, h⟩
      cases h
  | error e' s =>
    rw [bind_of_eq_error hpass]
    constructor
    · rintro ⟨⟩
      exact ⟨s, rfl⟩
    · rintro ⟨_, h⟩
      cases h
      rfl

/-- The place behind the front of what is left of a text. -/
theorem InText.place_behind {file : String} {source front back : List Char}
    (h : InText file source s) (hsplit : s.rest = front ++ back) :
    (s.position.afterAll front).inFile file =
      placeAt file source (s.position.offset + front.length) := by
  rw [placeAt, afterAll_take_add_length (h.rest ▸ hsplit), ← h.position]

end Scanner

open Scanner in
/-- Scanning errors are exactly those of malformed texts. Wherever a pass over a source starts a
step, the step fails if the text there is malformed at its start, with the code and the cause that
are listed and at the place that is listed, and it does not fail otherwise. And a source fails to be
scanned only in this way. -/
theorem scan_fails_iff_malformed (source file : String) :
    (∀ s, Dispatched { file } source.toList s →
      s.position.offset < source.length ∧ s.rest = source.toList.drop s.position.offset ∧
      ∀ e, (∃ s', Scanner.step { file } s = .error e s') ↔
        ∃ code front back, s.rest = front ++ back ∧ Malformed code e.cause front back ∧
          e.diagnostic.code = some code ∧
          e.location = placeAt file source.toList (s.position.offset + front.length)) ∧
    ∀ e, scan source file = .error e ↔
      ∃ s s', Dispatched { file } source.toList s ∧ Scanner.step { file } s = .error e s' := by
  constructor
  · intro s h
    have hin := h.inText rfl
    obtain ⟨c, xs, hrest⟩ := List.exists_cons_of_ne_nil h.rest_ne_nil
    refine ⟨?_, hin.rest, fun e => ?_⟩
    · have hlength := hin.offset_add_length
      rw [hrest, List.length_cons, String.length_toList] at hlength
      omega
    · constructor
      · rintro ⟨s', hstep⟩
        obtain ⟨code, front, back, hsplit, hmalformed, hlocation⟩ :=
          @rejects_of_step { file } s s' e c xs rfl hrest hstep
        exact ⟨code, front, back, hsplit, hmalformed, congrArg some hmalformed.code_eq,
          hlocation.trans (hin.place_behind hsplit)⟩
      · rintro ⟨code, front, back, hsplit, hmalformed, _, hlocation⟩
        obtain ⟨s', hstep⟩ := @exists_step_of_malformed { file } s rfl _ _ _ _ hmalformed hsplit
        refine ⟨s', hstep.trans ?_⟩
        rw [hin.place_behind hsplit, ← hlocation]
  · intro e
    rw [scan_eq_error_iff]
    constructor
    · rintro ⟨s', hpass⟩
      have hne : source.toList ≠ [] := by
        intro hnil
        rw [pass_of_nil (s := ScanState.start source.toList) hnil] at hpass
        cases hpass
      obtain ⟨s, hs, hstep⟩ := (Dispatched.first hne).exists_of_pass rfl hpass
      exact ⟨s, s', hs, hstep⟩
    · rintro ⟨s, s', h, hstep⟩
      obtain ⟨c, xs, hrest⟩ := List.exists_cons_of_ne_nil h.rest_ne_nil
      rw [h.pass_eq rfl, pass_of_cons rfl hrest, bind_of_eq_error hstep]
      exact ⟨s', rfl⟩

open Scanner in
/-- Behind a type and its blanks, the second dot of `$a: T .b.` has no name. -/
theorem scan_fails_iff_malformed_chain :
    Dispatched { file := "f" } "$a: T .b.".toList (ScanState.start "$a: T .b.".toList) ∧
      scan "$a: T .b." "f" = .error ⟨.invalidMember, ⟨"f", 1, 10, 9⟩⟩ := by
  have hstart : Dispatched { file := "f" } "$a: T .b.".toList
      (ScanState.start "$a: T .b.".toList) :=
    .first (by decide)
  have hlead : Chainable "$a: T ".toList :=
    @Chainable.typed ['a'] [' '] ['T'] [' '] (by decide) (by decide) (by decide) (by decide)
      (by decide) (by decide) (by decide)
  have hchain : Chain ".b".toList := @Chain.member ['b'] [] (by decide) (by decide) .nothing
  obtain ⟨hsteps, hscan⟩ := scan_fails_iff_malformed "$a: T .b." "f"
  obtain ⟨s', hstep⟩ := ((hsteps _ hstart).2.2 ⟨.invalidMember, ⟨"f", 1, 10, 9⟩⟩).mpr
    ⟨_, "$a: T ".toList ++ (".b".toList ++ ['.']), [], by decide,
      .invalidMember hlead hchain (by simp [Stops]), rfl, by decide⟩
  exact ⟨hstart, (hscan _).mpr ⟨_, s', hstart, hstep⟩⟩

end RegisterLang
