import RegisterLang.Proofs.Token.Run

/-!
# What is scanned is in the text

Whenever the scanner succeeds, the text that it read holds the tokens that it added. Each step only
leads to what is left of the text, so its statement is about any way to go on from there.
-/

namespace RegisterLang.Scanner

/-- The tokens added between two states are those of the text between them: whatever is scanned from
the second state on is scanned behind them from the first state on. -/
structure Leads (file : String) (mode : Mode) (s : ScanState) (mode' : Mode) (s' : ScanState) :
    Prop where
  reads : ∃ text, s.rest = text ++ s'.rest ∧ s'.position = s.position.afterAll text
  scans : ∃ added, s'.found = added.reverse ++ s.found ∧
    ∀ ts, Scans file mode' s'.position s'.rest ts → Scans file mode s.position s.rest (added ++ ts)

namespace Leads

variable {file : String} {mode mode' mode'' : Mode} {s s' s'' : ScanState}

/-- Nothing is read between a state and itself. -/
theorem refl (mode : Mode) (s : ScanState) : Leads file mode s mode s :=
  ⟨⟨[], rfl, rfl⟩, [], rfl, fun _ h => h⟩

/-- What is read between three states is read between the outer two. -/
theorem trans (h : Leads file mode s mode' s') (h' : Leads file mode' s' mode'' s'') :
    Leads file mode s mode'' s'' := by
  obtain ⟨⟨text, hrest, hposition⟩, added, hfound, hscans⟩ := h
  obtain ⟨⟨text', hrest', hposition'⟩, added', hfound', hscans'⟩ := h'
  refine ⟨⟨text ++ text', ?_, ?_⟩, added ++ added', ?_, fun ts hts => ?_⟩
  · rw [hrest, hrest', List.append_assoc]
  · rw [hposition', hposition, Position.afterAll_append]
  · rw [hfound', hfound, List.reverse_append, List.append_assoc]
  · rw [List.append_assoc]
    exact hscans _ (hscans' ts hts)

/-- What is passed leads to the state behind it. -/
theorem skip {text ys : List Char} (hrest : s.rest = text ++ ys)
    (h : Takes mode text none mode' ys) : Leads file mode s mode' (s.read text.length) := by
  have hrest' := ScanState.rest_read_length hrest
  have hposition := ScanState.position_read_length hrest
  refine ⟨⟨text, by rw [hrest', hrest], hposition⟩, [], rfl, fun ts hts => ?_⟩
  rw [hposition, hrest'] at hts
  rw [hrest]
  exact .skip h hts

/-- A token leads to the state behind it. -/
theorem token {kind : TokenKind} {lexeme : String} {text ys : List Char}
    (hrest : s.rest = text ++ ys) (h : Takes mode text (some (kind, lexeme)) mode' ys) :
    Leads file mode s mode' (s.take file text kind lexeme) := by
  have hrest' := ScanState.rest_read_length hrest
  have hposition := ScanState.position_read_length hrest
  refine ⟨⟨text, by rw [ScanState.rest_take, hrest', hrest], hposition⟩,
    [⟨kind, lexeme, s.position.inFile file⟩], rfl, fun ts hts => ?_⟩
  rw [ScanState.position_take, hposition, ScanState.rest_take, hrest'] at hts
  rw [hrest]
  exact .token h hts

/-- Reading makes no text longer. -/
theorem length_le (h : Leads file mode s mode' s') : s'.rest.length ≤ s.rest.length := by
  obtain ⟨text, hrest, _⟩ := h.reads
  rw [hrest, List.length_append]
  omega

end Leads

/-- Between two states, one token of this kind is read and added. -/
def Adds (file : String) (s : ScanState) (kind : TokenKind) (s' : ScanState) : Prop :=
  ∃ lexeme text ys, s.rest = text ++ ys ∧ Spells kind lexeme text ys ∧
    s' = s.take file text kind lexeme

/-- Reading a token makes the text shorter. -/
theorem Adds.length_lt {file : String} {s s' : ScanState} {kind : TokenKind}
    (h : Adds file s kind s') : s'.rest.length < s.rest.length := by
  obtain ⟨lexeme, text, ys, hrest, hspells, rfl⟩ := h
  have hpos := List.length_pos_iff.mpr hspells.text_ne_nil
  rw [ScanState.rest_take, ScanState.rest_read_length hrest, hrest, List.length_append]
  omega

/-- Where anything may come, the token is one that comes there. -/
theorem Adds.leads {file : String} {s s' : ScanState} {kind : TokenKind}
    (h : Adds file s kind s') (hkind : kind ≠ .typeName)
    (hname : Mode.behind kind = .name → ∀ c ∈ s.rest.head?, c.isDigit = false) :
    Leads file .free s (.behind kind) s' := by
  obtain ⟨lexeme, text, ys, hrest, hspells, rfl⟩ := h
  refine .token hrest (.token hspells hkind fun hbehind c hc => hname hbehind c ?_)
  obtain ⟨first, text, rfl⟩ := List.exists_cons_of_ne_nil hspells.text_ne_nil
  rw [hrest]
  exact hc

variable {scanner : Scanner} {s s' : ScanState}

/-! ### Tokens -/

/-- A string that is read is in the text. -/
theorem adds_of_string {quote : Char} {xs : List Char} (hrest : s.rest = quote :: xs)
    (hquote : isQuote quote) (h : scanner.string quote s = .ok () s') :
    Adds scanner.file s .string s' := by
  obtain ⟨content, ys, rfl, hcontent, hys⟩ :=
    exists_run (fun c => c != quote && c != '\n') xs
  have hcontent' : ∀ c ∈ content, c ≠ quote ∧ c ≠ '\n' := by simpa using hcontent
  rw [string_run hrest hcontent' hys] at h
  cases ys with
  | nil => cases h
  | cons c ys =>
    simp only at h
    split at h
    · cases h
    · next hc =>
      cases h
      have hclosing : c = quote := by
        have hstop := hys c rfl
        simpa [hc] using hstop
      subst hclosing
      exact ⟨_, _, ys, by simp [hrest], .string hquote hcontent', rfl⟩

/-- A delimiter that is read is in the text. -/
theorem adds_of_delimiter {c : Char} {xs : List Char} (hrest : s.rest = c :: xs)
    (hc : c ∈ delimiters ∨ c = '|' ∧ Stops (· == '|') xs)
    (h : scanner.delimiter c s = .ok () s') : Adds scanner.file s .delimiter s' := by
  rw [delimiter_run] at h
  cases h
  rcases hc with hmem | ⟨rfl, hstops⟩
  · exact ⟨_, _, xs, hrest, .delimiter hmem, rfl⟩
  · exact ⟨_, _, xs, hrest, .bar hstops, rfl⟩

/-- A run that does not go on is not empty if the text starts with a character of its class. -/
theorem ne_nil_of_stops {p : Char → Bool} {xs run ys : List Char} (hfirst : ∃ c ∈ xs.head?, p c)
    (hsplit : xs = run ++ ys) (hys : Stops p ys) : run ≠ [] := by
  rintro rfl
  obtain ⟨c, hc, hp⟩ := hfirst
  rw [hsplit, List.nil_append] at hc
  rw [hys c hc] at hp
  cases hp

/-- A word that is read is in the text, and a name is behind it. -/
theorem adds_of_word (hfirst : ∃ c ∈ s.rest.head?, isWordChar c)
    (h : scanner.word s = .ok () s') :
    ∃ kind, Mode.behind kind = .name ∧ Adds scanner.file s kind s' := by
  obtain ⟨name, ys, hrest, hname, hys⟩ := exists_run isWordChar s.rest
  rw [word_run hrest hname hys] at h
  cases h
  have hne := ne_nil_of_stops hfirst hrest hys
  exact ⟨_, behind_wordKind _, _, _, ys, hrest, .word hne hname hys, rfl⟩

/-- A directive that is read is in the text. -/
theorem adds_of_directive {xs : List Char} (hrest : s.rest = '@' :: xs)
    (h : scanner.directive s = .ok () s') : Adds scanner.file s .directive s' := by
  obtain ⟨word, ys, rfl, hword, hys⟩ := exists_run isWordChar xs
  rw [directive_run hrest hword hys] at h
  split at h
  · cases h
  · split at h
    · cases h
    · next hknown =>
      cases h
      cases hd : Directive.ofWord? (String.ofList word) with
      | none => simp [hd] at hknown
      | some d =>
        have hlexeme : String.ofList word = d.word := Directive.ofWord?_eq_some_iff.mp hd
        have hword' : word = d.word.toList := by rw [← hlexeme, String.toList_ofList]
        rw [hlexeme]
        exact ⟨_, _, ys, hrest, hword' ▸ .directive d hys, rfl⟩

/-- A decimal number can always be read. -/
theorem exists_decimalNumber_run {c : Char} {xs : List Char} (hrest : s.rest = c :: xs)
    (hc : c.isDigit) (hradix : ∀ letter ys, s.rest = '0' :: letter :: ys →
      Radix.ofLetter? letter = none) :
    ∃ s', scanner.decimalNumber s = .ok () s' ∧ Adds scanner.file s .number s' := by
  obtain ⟨whole, ys, hsplit, hwhole, hys⟩ := exists_run Char.isDigit s.rest
  have hne : whole ≠ [] := ne_nil_of_stops ⟨c, by rw [hrest]; rfl, hc⟩ hsplit hys
  by_cases hfraction : ∃ d zs, ys = '.' :: d :: zs ∧ d.isDigit
  · obtain ⟨d, zs, rfl, hd⟩ := hfraction
    obtain ⟨digits, zs', hzs, hdigits, hzs'⟩ := exists_run Char.isDigit (d :: zs)
    have hne' : digits ≠ [] := ne_nil_of_stops ⟨d, rfl, hd⟩ hzs hzs'
    rw [hzs] at hsplit
    exact ⟨_, decimal_run hsplit hwhole hne' hdigits hzs', _, _, zs', by simp [hsplit],
      .decimal hne hwhole hne' hdigits hzs', rfl⟩
  · have hnone : ∀ d zs, ys = '.' :: d :: zs → ¬ d.isDigit :=
      fun d zs heq hd => hfraction ⟨d, zs, heq, hd⟩
    refine ⟨_, integer_run hsplit hwhole hys hnone, _, _, ys, hsplit,
      .integer hne hwhole hys hnone ?_, rfl⟩
    rintro rfl letter hletter
    cases ys with
    | nil => cases hletter
    | cons letter' ys =>
      obtain rfl : letter' = letter := by simpa using hletter
      exact hradix letter' ys hsplit

/-- A number that is read is in the text. -/
theorem adds_of_number {c : Char} {xs : List Char} (hrest : s.rest = c :: xs) (hc : c.isDigit)
    (h : scanner.number s = .ok () s') :
    ∃ kind, Mode.behind kind = .free ∧ kind ≠ .typeName ∧ Adds scanner.file s kind s' := by
  rcases cases_of_radix s with ⟨letter, ys, radix, hzero, hletter⟩ | hnone
  · obtain ⟨digits, ys, rfl, hdigits, hys⟩ := exists_run radix.isDigit ys
    rw [number_run_of_radix hzero hletter, radixNumber_run hzero hdigits hys] at h
    split at h
    · cases h
    · next hne =>
      cases h
      refine ⟨radix.kind, ?_, ?_, _, _, ys, hzero, .radix radix hletter hne hdigits hys, rfl⟩ <;>
        cases radix <;> decide
  · obtain ⟨s₁, hrun, hadds⟩ := exists_decimalNumber_run hrest hc hnone
    rw [number_run_of_not_radix hnone, hrun] at h
    cases h
    exact ⟨.number, rfl, by decide, hadds⟩

/-- Longer operators are tried first. -/
theorem pairwise_length_multiChar :
    Operator.multiChar.Pairwise fun op op' => op'.length ≤ op.length := by
  decide

/-- The operator that is read is in the text, unless the character is no operator. -/
theorem operatorAt_isPrefix {rest : List Char} {kind : TokenKind}
    (h : Operator.kind? (operatorAt rest (rest.getD 0 endMark)) = some kind) :
    (operatorAt rest (rest.getD 0 endMark)).toList <+: rest := by
  unfold operatorAt at h ⊢
  cases hfind : Operator.multiChar.find? fun op => op.toList.isPrefixOf rest with
  | some op =>
    have hfront := List.find?_some hfind
    exact List.isPrefixOf_iff_prefix.mp hfront
  | none =>
    rw [hfind, Option.getD_none] at h
    cases rest with
    | nil =>
      rw [show Operator.kind? (([] : List Char).getD 0 endMark).toString = none from by decide] at h
      cases h
    | cons c rest => simp

/-- An operator of more than one character is one of the long ones. -/
theorem mem_multiChar_of_kind? {op : String} {kind : TokenKind} (h : Operator.kind? op = some kind)
    (hlong : 1 < op.length) : op ∈ Operator.multiChar := by
  rw [Operator.mem_multiChar_iff]
  refine ⟨?_, hlong⟩
  unfold Operator.kind? at h
  split at h
  · exact .inl ‹_›
  · split at h
    · next hunary =>
      have hall : ∀ op ∈ Operator.unary, op.length ≤ 1 := by decide
      have hle := hall op hunary
      omega
    · split at h
      · exact .inr ‹_›
      · cases h

/-- Where longer texts are tried first, the first one that is found is a longest one. -/
theorem length_le_of_find? {operators : List String} {p : String → Bool} {op found : String}
    (hsorted : operators.Pairwise fun op op' => op'.length ≤ op.length)
    (hfind : operators.find? p = some found) (hmem : op ∈ operators) (hop : p op) :
    op.length ≤ found.length := by
  obtain ⟨_, before, after, hsplit, hbefore⟩ := List.find?_eq_some_iff_append.mp hfind
  rw [hsplit] at hmem hsorted
  rcases List.mem_append.mp hmem with hmem | hmem
  · have hnot := hbefore op hmem
    rw [hop] at hnot
    cases hnot
  · rcases List.mem_cons.mp hmem with rfl | hmem
    · exact Nat.le_refl _
    · exact List.rel_of_pairwise_cons (List.pairwise_append.mp hsorted).2.1 hmem

/-- No operator in the text is longer than the one that is read. -/
theorem length_le_operatorAt {rest : List Char} {c : Char} {op : String} {kind : TokenKind}
    (hkind : Operator.kind? op = some kind) (hfront : op.toList <+: rest) :
    op.length ≤ (operatorAt rest c).length := by
  unfold operatorAt
  have hop : op.toList.isPrefixOf rest = true := List.isPrefixOf_iff_prefix.mpr hfront
  cases hfind : Operator.multiChar.find? fun op => op.toList.isPrefixOf rest with
  | none =>
    by_contra hlong
    have hlength : c.toString.length = 1 := String.length_singleton
    rw [Option.getD_none, hlength] at hlong
    exact List.find?_eq_none.mp hfind op (mem_multiChar_of_kind? hkind (by omega)) hop
  | some found =>
    by_contra hlong
    rw [Option.getD_some] at hlong
    have hfound := ((Operator.mem_multiChar_iff found).mp (List.mem_of_find?_eq_some hfind)).2
    have hmem := mem_multiChar_of_kind? hkind (by omega)
    exact hlong (length_le_of_find? pairwise_length_multiChar hfind hmem hop)

/-- Operators are of an operator kind. -/
theorem isOperator_of_kind? {op : String} {kind : TokenKind} (h : Operator.kind? op = some kind) :
    kind.isOperator := by
  unfold Operator.kind? at h
  split at h
  · cases h
    rfl
  split at h
  · cases h
    rfl
  split at h
  · cases h
    rfl
  · cases h

/-- Operators are followed by anything. -/
theorem behind_of_kind? {op : String} {kind : TokenKind} (h : Operator.kind? op = some kind) :
    Mode.behind kind = .free ∧ kind ≠ .typeName ∧ kind ≠ .endOfInput := by
  have hoperator := isOperator_of_kind? h
  cases kind <;> first | decide | cases hoperator

/-- No end of the input is in a text. -/
theorem Spells.kind_ne_endOfInput {kind : TokenKind} {lexeme : String} {text ys : List Char}
    (h : Spells kind lexeme text ys) : kind ≠ .endOfInput := by
  cases h with
  | word =>
    intro hkind
    have hbehind := congrArg Mode.behind hkind
    rw [behind_wordKind] at hbehind
    cases hbehind
  | radix r => cases r <;> decide
  | operator hkind => exact (behind_of_kind? hkind).2.2
  | _ => decide

/-- An operator that is read is in the text. -/
theorem adds_of_operator (hoperators : scanner.operators = Operator.multiChar)
    (h : scanner.operator (s.peek 0) s = .ok () s') :
    ∃ kind, Mode.behind kind = .free ∧ kind ≠ .typeName ∧ Adds scanner.file s kind s' := by
  rw [operator_run hoperators] at h
  cases hkind : Operator.kind? (operatorAt s.rest (s.peek 0)) with
  | none =>
    rw [hkind] at h
    cases h
  | some kind =>
    rw [hkind] at h
    cases h
    obtain ⟨ys, hys⟩ := operatorAt_isPrefix hkind
    obtain ⟨hbehind, hne, _⟩ := behind_of_kind? hkind
    refine ⟨kind, hbehind, hne, _, _, ys, hys.symm, .operator hkind ?_, rfl⟩
    intro longer kind' hlonger hfront
    exact length_le_operatorAt hlonger (hys ▸ hfront)

/-! ### Types and members -/

/-- A type that is read is in the text, behind its register. -/
theorem leads_of_typeName {xs : List Char} (hrest : s.rest = ':' :: xs)
    (h : scanner.typeName s = .ok () s') : Leads scanner.file .register s .name s' := by
  obtain ⟨blanks, xs, rfl, hblanks, hblanksStop⟩ := exists_run Text.isBlank xs
  obtain ⟨name, xs, rfl, hname, hnameStops⟩ := exists_run isTypeChar xs
  obtain ⟨blanks', ys, rfl, hblanks', hys⟩ := exists_run Text.isBlank xs
  rw [typeName_run hrest hblanks hblanksStop hname hnameStops hblanks' hys] at h
  split at h
  · cases h
  · next hne =>
    cases h
    have hsplit : s.rest = (':' :: (blanks ++ name)) ++ (blanks' ++ ys) := by simp [hrest]
    have htyped : Leads scanner.file .register s .type _ :=
      .token hsplit (.typed (.typeName hblanks hne hname hnameStops))
    exact htyped.trans (.skip (ScanState.rest_read_length hsplit) (.blanks hblanks' hys))

/-- Behind a name, nothing needs to follow. -/
theorem leads_unchained (h : Stops (· == '.') s.rest) : Leads scanner.file .name s .free s :=
  @Leads.skip _ _ _ s [] _ rfl (.unchained h)

/-- A name behind a dot may start with a digit. -/
theorem leads_of_word_behind_dot (hfirst : ∃ c ∈ s.rest.head?, isWordChar c)
    (h : scanner.word s = .ok () s') : Leads scanner.file .dot s .name s' := by
  obtain ⟨name, ys, hrest, hname, hys⟩ := exists_run isWordChar s.rest
  rw [word_run hrest hname hys] at h
  cases h
  exact .token hrest (.member (.word (ne_nil_of_stops hfirst hrest hys) hname hys))

/-- A member that is read is in the text, behind a name. -/
theorem leads_of_member {xs : List Char} (hrest : s.rest = '.' :: xs)
    (h : scanner.member s = .ok () s') :
    Leads scanner.file .name s .name s' ∧ s'.rest.length < s.rest.length := by
  rw [member_run hrest] at h
  split at h
  · next hfirst =>
    have hxs : (s.take scanner.file ['.'] .delimiter ".").rest = xs :=
      @ScanState.rest_read_length s ['.'] xs hrest
    have hfirst' : ∃ c ∈ xs.head?, isWordChar c := by simpa [Option.any_eq_true] using hfirst
    have hdot : Leads scanner.file .name s .dot (s.take scanner.file ['.'] .delimiter ".") :=
      .token hrest (.dot hfirst')
    have hleads := leads_of_word_behind_dot (by rwa [hxs]) h
    refine ⟨hdot.trans hleads, Nat.lt_of_le_of_lt hleads.length_le ?_⟩
    rw [hxs, hrest]
    exact Nat.lt_succ_self _
  · cases h

/-- Members that are read are in the text, and behind the last one no other follows. -/
theorem leads_of_members {room : List Char} (hroom : s.rest.length ≤ room.length)
    (h : scanner.members room s = .ok () s') : Leads scanner.file .name s .free s' := by
  induction room generalizing s with
  | nil =>
    obtain ⟨_, rfl⟩ := pure_eq_ok.mp h
    have hnil := List.eq_nil_of_length_eq_zero (Nat.le_zero.mp hroom)
    exact leads_unchained (by simp [hnil, Stops])
  | cons _ room ih =>
    rw [members, next?_bind_run] at h
    split at h
    · next hdot =>
      obtain ⟨xs, hrest⟩ := List.head?_eq_some_iff.mp hdot
      obtain ⟨_, s₁, hmember, hmembers⟩ := bind_eq_ok.mp h
      obtain ⟨hleads, hlength⟩ := leads_of_member hrest hmember
      simp only [List.length_cons] at hroom
      exact hleads.trans (ih (by omega) hmembers)
    · next hdot =>
      obtain ⟨_, rfl⟩ := pure_eq_ok.mp h
      exact leads_unchained (stops_of_head?_ne hdot)

/-- A chain of members that is read is in the text. -/
theorem leads_of_memberChain (h : scanner.memberChain s = .ok () s') :
    Leads scanner.file .name s .free s' := by
  rw [memberChain, get_bind_run] at h
  exact leads_of_members (Nat.le_refl _) h

/-- A register that is read is in the text, with its type if it has one. -/
theorem leads_of_register {xs : List Char} (hrest : s.rest = '$' :: xs)
    (h : scanner.register s = .ok () s') :
    Leads scanner.file .free s .name s' ∧ s'.rest.length < s.rest.length := by
  obtain ⟨name, ys, rfl, hname, hys⟩ := exists_run isWordChar xs
  rw [register_run hrest hname hys] at h
  split at h
  · cases h
  · next hne =>
    have hadds : Adds scanner.file s .register
        (s.take scanner.file ('$' :: name) .register (String.ofList name)) :=
      ⟨_, _, ys, hrest, .register hne hname hys, rfl⟩
    have hleads : Leads scanner.file .free s .register _ :=
      hadds.leads (by decide) fun hbehind => by cases hbehind
    have hrest' := @ScanState.rest_read_length s ('$' :: name) ys hrest
    have hfurther : Leads scanner.file .register
        (s.take scanner.file ('$' :: name) .register (String.ofList name)) .name s' := by
      split at h
      · next hcolon =>
        obtain ⟨zs, rfl⟩ := List.head?_eq_some_iff.mp hcolon
        exact leads_of_typeName hrest' h
      · next hcolon =>
        obtain ⟨_, rfl⟩ := pure_eq_ok.mp h
        refine @Leads.skip _ _ _ _ [] ys hrest' (.untyped ?_)
        exact stops_of_head?_ne hcolon
    exact ⟨hleads.trans hfurther, Nat.lt_of_le_of_lt hfurther.length_le hadds.length_lt⟩

/-! ### The pass -/

/-- A token behind which anything may come leads there. -/
theorem leads_of_adds {kind : TokenKind} (h : Adds scanner.file s kind s')
    (hkind : kind ≠ .typeName) (hbehind : Mode.behind kind = .free) :
    Leads scanner.file .free s .free s' ∧ s'.rest.length < s.rest.length := by
  have hleads := h.leads hkind fun hname => by rw [hbehind] at hname; cases hname
  rw [hbehind] at hleads
  exact ⟨hleads, h.length_lt⟩

/-- A comment that is passed is in the text. -/
theorem leads_of_comment {xs : List Char} (hrest : s.rest = '#' :: xs)
    (h : comment s = .ok () s') :
    Leads scanner.file .free s .free s' ∧ s'.rest.length < s.rest.length := by
  obtain ⟨body, ys, rfl, hbody, hys⟩ := exists_run (· != '\n') xs
  have hbody' : ∀ c ∈ body, c ≠ '\n' := by simpa using hbody
  rw [comment_run hrest hbody' hys] at h
  cases h
  have hsplit : s.rest = ('#' :: body) ++ ys := hrest
  refine ⟨.skip hsplit (.comment hbody' hys), ?_⟩
  rw [ScanState.rest_read_length hsplit, hsplit, List.length_append, List.length_cons]
  omega

/-- A word and the members behind it. -/
theorem leads_of_wordChain {c : Char} {xs : List Char} (hrest : s.rest = c :: xs)
    (hletter : isLetter c) (hdigit : c.isDigit = false)
    (h : (do scanner.word; scanner.memberChain : Scan Unit) s = .ok () s') :
    Leads scanner.file .free s .free s' ∧ s'.rest.length < s.rest.length := by
  obtain ⟨_, s₁, hword, hchain⟩ := bind_eq_ok.mp h
  obtain ⟨kind, hbehind, hadds⟩ :=
    adds_of_word ⟨c, by rw [hrest]; rfl, by simp [isWordChar, hletter]⟩ hword
  have hleads := hadds.leads (by rintro rfl; cases hbehind) fun _ d hd => by
    obtain rfl : c = d := by simpa [hrest] using hd
    exact hdigit
  rw [hbehind] at hleads
  have hleads' := leads_of_memberChain hchain
  exact ⟨hleads.trans hleads', Nat.lt_of_le_of_lt hleads'.length_le hadds.length_lt⟩

/-- A step reads something that may come next. -/
theorem leads_of_step (hoperators : scanner.operators = Operator.multiChar)
    (h : scanner.step s = .ok () s') :
    Leads scanner.file .free s .free s' ∧ s'.rest.length < s.rest.length := by
  obtain ⟨rest, action, hrest, haction, hrun⟩ := exists_action scanner s
  rw [hrun] at h
  cases haction with
  | @space c xs hspace =>
    cases h
    refine ⟨@Leads.skip _ _ _ s [c] xs hrest (.space hspace), ?_⟩
    change (s.rest.drop 1).length < s.rest.length
    rw [hrest]
    exact Nat.lt_succ_self _
  | comment => exact leads_of_comment hrest h
  | string hquote => exact leads_of_adds (adds_of_string hrest hquote h) (by decide) rfl
  | delimiter hc => exact leads_of_adds (adds_of_delimiter hrest hc h) (by decide) rfl
  | register =>
    obtain ⟨_, s₁, hregister, hchain⟩ := bind_eq_ok.mp h
    obtain ⟨hleads, hlength⟩ := leads_of_register hrest hregister
    have hleads' := leads_of_memberChain hchain
    exact ⟨hleads.trans hleads', Nat.lt_of_le_of_lt hleads'.length_le hlength⟩
  | directive => exact leads_of_adds (adds_of_directive hrest h) (by decide) rfl
  | number hdigit =>
    obtain ⟨kind, hbehind, hkind, hadds⟩ := adds_of_number hrest hdigit h
    exact leads_of_adds hadds hkind hbehind
  | word hletter hdigit => exact leads_of_wordChain hrest hletter hdigit h
  | operator =>
    rw [← hrest] at h
    obtain ⟨kind, hbehind, hkind, hadds⟩ := adds_of_operator hoperators h
    exact leads_of_adds hadds hkind hbehind

/-- The pass stops only at the end of the text. -/
theorem leads_of_steps (hoperators : scanner.operators = Operator.multiChar) {room : List Char}
    (hroom : s.rest.length ≤ room.length) (h : scanner.steps room s = .ok () s') :
    Leads scanner.file .free s .free s' ∧ s'.rest = [] := by
  induction room generalizing s with
  | nil =>
    obtain ⟨_, rfl⟩ := pure_eq_ok.mp h
    exact ⟨.refl _ _, List.eq_nil_of_length_eq_zero (Nat.le_zero.mp hroom)⟩
  | cons _ room ih =>
    rw [steps, get_bind_run] at h
    split at h
    · obtain ⟨_, s₁, hstep, hsteps⟩ := bind_eq_ok.mp h
      obtain ⟨hleads, hlength⟩ := leads_of_step hoperators hstep
      simp only [List.length_cons] at hroom
      obtain ⟨hleads', hend⟩ := ih (by omega) hsteps
      exact ⟨hleads.trans hleads', hend⟩
    · next hempty =>
      obtain ⟨_, rfl⟩ := pure_eq_ok.mp h
      exact ⟨.refl _ _, by simpa using hempty⟩

/-- The end of a text, as the last of its tokens. -/
def endOfInput (file : String) (source : List Char) : Token :=
  ⟨.endOfInput, "", (Position.start.afterAll source).inFile file⟩

/-- No token of a text is the end of the input. -/
theorem Scans.kind_ne_endOfInput {file : String} {mode : Mode} {p : Position} {xs : List Char}
    {ts : List Token} (h : Scans file mode p xs ts) : ∀ t ∈ ts, t.kind ≠ .endOfInput := by
  induction h with
  | done => simp
  | skip _ _ ih => exact ih
  | token htakes _ ih => exact List.forall_mem_cons.mpr ⟨htakes.spells.kind_ne_endOfInput, ih⟩

/-- What a text is scanned as are the tokens in it, and its end. -/
theorem scans_of_scan {source file : String} {tokens : List Token}
    (h : RegisterLang.scan source file = .ok tokens) :
    ∃ ts, tokens = ts ++ [endOfInput file source.toList] ∧
      Scans file .free Position.start source.toList ts := by
  unfold RegisterLang.scan scan at h
  split at h
  · next s' hrun =>
    cases h
    obtain ⟨_, s₁, hsteps, hemit⟩ := bind_eq_ok.mp (show (Scanner.steps { file } source.toList >>=
      fun _ => _) (ScanState.start source.toList) = .ok () s' from hrun)
    obtain ⟨⟨⟨text, hrest, hposition⟩, added, hfound, hscans⟩, hend⟩ :=
      leads_of_steps (s := ScanState.start source.toList) rfl (Nat.le_refl _) hsteps
    cases hemit
    rw [hend, List.append_nil] at hrest
    rw [hend] at hscans
    have hadded := hscans [] .done
    rw [List.append_nil] at hadded
    refine ⟨added, ?_, hadded⟩
    simp only [ScanState.tokens, hfound, hposition, ← hrest, List.reverse_cons]
    rw [List.reverse_append, List.reverse_reverse]
    rfl
  · cases h

end RegisterLang.Scanner
