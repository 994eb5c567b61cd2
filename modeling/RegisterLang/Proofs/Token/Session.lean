import RegisterLang.Proofs.Token.Place
import RegisterLang.Proofs.Token.Soundness

/-!
# Sessions with a scanner

A scanner may be used step by step, and also after it has failed. Whatever is done with it is made
of two moves: it reads some characters, or it reads a token and adds it. So the places of tokens
and errors stay exact through all of a session.
-/

namespace RegisterLang.Scanner

/-- What can be done with a scanner: a whole pass, one step, reading `n` characters, or reading a
run of blanks. -/
inductive Operation where
  | tokenize
  | step
  | advanceBy (n : Int)
  | skipBlanks

/-- Does one operation on a scanner of a text. -/
def Operation.run (scanner : Scanner) (source : List Char) : Operation → Scan Unit
  | tokenize => scanner.tokenize source
  | step => scanner.step
  | advanceBy n => skip n.toNat
  | skipBlanks => discard (readWhile Text.isBlank)

/-- Does one operation after another, and collects the errors that are raised. An error leaves the
scanner as it is. -/
def session (scanner : Scanner) (source : List Char) : List Operation → ScanState →
    ScanState × List ScanError
  | [], s => (s, [])
  | operation :: operations, s =>
    match operation.run scanner source s with
    | .ok _ s' => session scanner source operations s'
    | .error e s' =>
      let (end', errors) := session scanner source operations s'
      (end', e :: errors)

/-! ### Moves -/

/-- The second state is reached from the first one by reading characters and tokens. -/
inductive Moves (file : String) (s : ScanState) : ScanState → Prop where
  | refl : Moves file s s
  | read {s'} (n : Nat) : Moves file s s' → Moves file s (s'.read n)
  | token {s' kind lexeme text ys} :
      Moves file s s' → s'.rest = text ++ ys → text ≠ [] →
      Moves file s (s'.take file text kind lexeme)

/-- Moves behind moves are moves. -/
theorem Moves.trans {file : String} {s s' s'' : ScanState} (h : Moves file s s')
    (h' : Moves file s' s'') : Moves file s s'' := by
  induction h' with
  | refl => exact h
  | read n _ ih => exact .read n ih
  | token _ hrest hne ih => exact .token ih hrest hne

/-- The result of a step that is made of moves; an error is located where the scanner has been. -/
def Outcome {α : Type} (file : String) (s : ScanState) :
    EStateM.Result ScanError ScanState α → Prop
  | .ok _ s' => Moves file s s'
  | .error e s' =>
    Moves file s s' ∧ ∃ s₁, Moves file s s₁ ∧ e.location = s₁.position.inFile file

section

variable {scanner : Scanner} {s s' : ScanState} {α β : Type}

/-- Moves in front of a step that is made of moves. -/
theorem Outcome.of_moves {file : String} {result : EStateM.Result ScanError ScanState α}
    (h : Moves file s s') (h' : Outcome file s' result) : Outcome file s result := by
  cases result with
  | ok a s'' => exact h.trans h'
  | error e s'' =>
    obtain ⟨hmoves, s₁, hmoves₁, hlocation⟩ := h'
    exact ⟨h.trans hmoves, s₁, h.trans hmoves₁, hlocation⟩

/-- Two steps in a row are made of moves if each of them is. -/
theorem Outcome.bind {file : String} {step : Scan α} {further : α → Scan β}
    (h : Outcome file s (step s))
    (h' : ∀ a s', step s = .ok a s' → Outcome file s' (further a s')) :
    Outcome file s ((step >>= further) s) := by
  cases hstep : step s with
  | ok a s' =>
    rw [hstep] at h
    rw [bind_of_eq_ok hstep]
    exact .of_moves h (h' a s' hstep)
  | error e s' =>
    rw [hstep] at h
    rw [bind_of_eq_error hstep]
    exact h

/-- An error where a token starts, while the cursor is already further. -/
theorem Outcome.error_at_start {file : String} {cause : ScanError.Cause} (n : Nat) :
    @Outcome α file s (.error ⟨cause, s.position.inFile file⟩ (s.read n)) :=
  ⟨.read n .refl, s, .refl, rfl⟩

/-- An error at the cursor. -/
theorem Outcome.error_here {file : String} {cause : ScanError.Cause} (n : Nat) :
    @Outcome α file s (.error ⟨cause, (s.read n).position.inFile file⟩ (s.read n)) :=
  ⟨.read n .refl, _, .read n .refl, rfl⟩

/-- To read a token is a move. -/
theorem Outcome.take {file : String} {kind : TokenKind} {lexeme : String} {text ys : List Char}
    (hrest : s.rest = text ++ ys) (hne : text ≠ []) :
    Outcome file s (.ok () (s.take file text kind lexeme)) :=
  .token .refl hrest hne

/-- A string is made of moves. -/
theorem outcome_string {quote : Char} {xs : List Char} (hrest : s.rest = quote :: xs) :
    Outcome scanner.file s (scanner.string quote s) := by
  obtain ⟨content, ys, rfl, hcontent, hys⟩ :=
    exists_run (fun c => c != quote && c != '\n') xs
  rw [string_run hrest (by simpa using hcontent) hys]
  cases ys with
  | nil => exact .error_at_start _
  | cons c ys =>
    simp only
    split
    · exact .error_here _
    · next hc =>
      have hclosing : c = quote := by
        have hstop := hys c rfl
        simpa [hc] using hstop
      subst hclosing
      have hsplit : s.rest = c :: (content ++ [c]) ++ ys := by simp [hrest]
      exact .take hsplit (by simp)

/-- A word is made of moves. -/
theorem outcome_word (hfirst : ∃ c ∈ s.rest.head?, isWordChar c) :
    Outcome scanner.file s (scanner.word s) := by
  obtain ⟨name, ys, hrest, hname, hys⟩ := exists_run isWordChar s.rest
  rw [word_run hrest hname hys]
  exact .take hrest (ne_nil_of_stops hfirst hrest hys)

/-- A member is made of moves. -/
theorem outcome_member {xs : List Char} (hrest : s.rest = '.' :: xs) :
    Outcome scanner.file s (scanner.member s) := by
  have hxs : (s.take scanner.file ['.'] .delimiter ".").rest = xs :=
    @ScanState.rest_read_length s ['.'] xs hrest
  have hdot : Moves scanner.file s (s.take scanner.file ['.'] .delimiter ".") :=
    .token .refl hrest (by simp)
  rw [member_run hrest]
  split
  · next hfirst =>
    have hfirst' : ∃ c ∈ xs.head?, isWordChar c := by simpa [Option.any_eq_true] using hfirst
    exact .of_moves hdot (outcome_word (by rwa [hxs]))
  · exact ⟨hdot, _, .read 1 .refl, rfl⟩

/-- Members in a row are made of moves. -/
theorem outcome_members (room : List Char) : Outcome scanner.file s (scanner.members room s) := by
  induction room generalizing s with
  | nil => exact Moves.refl
  | cons _ room ih =>
    rw [members, next?_bind_run]
    split
    · next hdot =>
      obtain ⟨xs, hrest⟩ := List.head?_eq_some_iff.mp hdot
      exact .bind (outcome_member hrest) fun _ _ _ => ih
    · exact Moves.refl

/-- A chain of members is made of moves. -/
theorem outcome_memberChain : Outcome scanner.file s (scanner.memberChain s) := by
  rw [memberChain, get_bind_run]
  exact outcome_members _

/-- A type is made of moves. -/
theorem outcome_typeName {xs : List Char} (hrest : s.rest = ':' :: xs) :
    Outcome scanner.file s (scanner.typeName s) := by
  obtain ⟨blanks, xs, rfl, hblanks, hblanksStop⟩ := exists_run Text.isBlank xs
  obtain ⟨name, xs, rfl, hname, hnameStops⟩ := exists_run isTypeChar xs
  obtain ⟨blanks', ys, rfl, hblanks', hys⟩ := exists_run Text.isBlank xs
  rw [typeName_run hrest hblanks hblanksStop hname hnameStops hblanks' hys]
  split
  · exact .error_at_start _
  · have hsplit : s.rest = (':' :: (blanks ++ name)) ++ (blanks' ++ ys) := by simp [hrest]
    exact Moves.read _ (.token .refl hsplit (by simp))

/-- A register is made of moves. -/
theorem outcome_register {xs : List Char} (hrest : s.rest = '$' :: xs) :
    Outcome scanner.file s (scanner.register s) := by
  obtain ⟨name, ys, rfl, hname, hys⟩ := exists_run isWordChar xs
  rw [register_run hrest hname hys]
  split
  · exact .error_here _
  · have hrest' := @ScanState.rest_read_length s ('$' :: name) ys hrest
    have hname : Moves scanner.file s
        (s.take scanner.file ('$' :: name) .register (String.ofList name)) :=
      .token .refl hrest (by simp)
    refine .of_moves hname ?_
    split
    · next hcolon =>
      obtain ⟨zs, rfl⟩ := List.head?_eq_some_iff.mp hcolon
      exact outcome_typeName hrest'
    · exact Moves.refl

/-- A directive is made of moves. -/
theorem outcome_directive {xs : List Char} (hrest : s.rest = '@' :: xs) :
    Outcome scanner.file s (scanner.directive s) := by
  obtain ⟨word, ys, rfl, hword, hys⟩ := exists_run isWordChar xs
  rw [directive_run hrest hword hys]
  split
  · exact .error_here _
  · split
    · exact .error_at_start _
    · exact @Outcome.take s _ _ _ ('@' :: word) ys hrest (by simp)

/-- To add a token is a move. -/
theorem Adds.moves {file : String} {kind : TokenKind} (h : Adds file s kind s') :
    Moves file s s' := by
  obtain ⟨lexeme, text, ys, hrest, hspells, rfl⟩ := h
  exact .token .refl hrest hspells.text_ne_nil

/-- A number is made of moves. -/
theorem outcome_number {c : Char} {xs : List Char} (hrest : s.rest = c :: xs) (hc : c.isDigit) :
    Outcome scanner.file s (scanner.number s) := by
  rcases cases_of_radix s with ⟨letter, ys, radix, hzero, hletter⟩ | hnone
  · obtain ⟨digits, ys, rfl, hdigits, hys⟩ := exists_run radix.isDigit ys
    rw [number_run_of_radix hzero hletter, radixNumber_run hzero hdigits hys]
    split
    · exact .error_at_start 2
    · exact @Outcome.take s _ _ _ ('0' :: letter :: digits) ys hzero (by simp)
  · obtain ⟨s', hrun, hadds⟩ := exists_decimalNumber_run hrest hc hnone
    rw [number_run_of_not_radix hnone, hrun]
    exact hadds.moves

/-- An operator is made of moves. -/
theorem outcome_operator (hoperators : scanner.operators = Operator.multiChar) :
    Outcome scanner.file s (scanner.operator (s.peek 0) s) := by
  cases hrun : scanner.operator (s.peek 0) s with
  | ok u s' =>
    obtain ⟨_, _, _, hadds⟩ := adds_of_operator hoperators hrun
    exact hadds.moves
  | error e s' =>
    rw [operator_run hoperators] at hrun
    cases hkind : Operator.kind? (operatorAt s.rest (s.peek 0)) with
    | none =>
      rw [hkind] at hrun
      cases hrun
      exact .error_at_start 0
    | some kind =>
      rw [hkind] at hrun
      cases hrun

/-- A step of the scanner is made of moves. -/
theorem outcome_step (hoperators : scanner.operators = Operator.multiChar) :
    Outcome scanner.file s (scanner.step s) := by
  obtain ⟨rest, action, hrest, haction, hrun⟩ := exists_action scanner s
  rw [hrun]
  cases haction with
  | space => exact Moves.read 1 .refl
  | comment => exact Moves.read _ .refl
  | string => exact outcome_string hrest
  | @delimiter c xs => exact @Outcome.take s _ _ _ [c] xs hrest (by simp)
  | register => exact .bind (outcome_register hrest) fun _ _ _ => outcome_memberChain
  | directive => exact outcome_directive hrest
  | number hdigit => exact outcome_number hrest hdigit
  | @word c xs hletter _ =>
    refine .bind (outcome_word ⟨c, by rw [hrest]; rfl, ?_⟩) fun _ _ _ => outcome_memberChain
    simp [isWordChar, hletter]
  | operator =>
    rw [← hrest]
    exact outcome_operator hoperators

/-- Steps in a row are made of moves. -/
theorem outcome_steps (hoperators : scanner.operators = Operator.multiChar) (room : List Char) :
    Outcome scanner.file s (scanner.steps room s) := by
  induction room generalizing s with
  | nil => exact Moves.refl
  | cons _ room ih =>
    rw [steps, get_bind_run]
    split
    · exact .bind (outcome_step hoperators) fun _ _ _ => ih
    · exact Moves.refl

end

/-! ### Places through a session -/

/-- The cursor stands in the source: what is left to read is the source from the cursor's offset on.
Its line and its column and the tokens found so far may be any. -/
structure InSource (source : List Char) (s : ScanState) : Prop where
  offset_le : s.position.offset ≤ source.length
  rest : s.rest = source.drop s.position.offset

/-- The state is one in the text: the cursor stands where its position says, and the tokens found so
far are in front of it, in the order of the text. -/
structure InText (file : String) (source : List Char) (s : ScanState) : Prop where
  offset_le : s.position.offset ≤ source.length
  position : s.position = Position.start.afterAll (source.take s.position.offset)
  rest : s.rest = source.drop s.position.offset
  placed : ∀ t ∈ s.found, ∃ n ≤ s.position.offset, t.location = placeAt file source n
  sorted : s.found.Pairwise fun t u => Before u.location t.location

/-- All tokens found so far start in front of the cursor. -/
def AllPassed (s : ScanState) : Prop :=
  ∀ t ∈ s.found, t.location.offset < s.position.offset

/-- No token can be added at the place of another one: either all of them start in front of the
cursor, or the text has ended. -/
def Settled (s : ScanState) : Prop :=
  AllPassed s ∨ s.rest = []

section

variable {file : String} {source : List Char} {s s' : ScanState}

/-- In a text, the place of the cursor is that of its offset. -/
theorem InText.place (h : InText file source s) :
    s.position.inFile file = placeAt file source s.position.offset := by
  rw [placeAt, ← h.position]

/-- In a text, the place of the cursor is exact. -/
theorem InText.isExact (h : InText file source s) :
    IsExact source (s.position.inFile file) := by
  rw [h.place]
  exact isExact_placeAt file h.offset_le

/-- In a source, the offset of the cursor and the length of what is left add up. -/
theorem InSource.offset_add_length (h : InSource source s) :
    s.position.offset + s.rest.length = source.length := by
  have hle := h.offset_le
  rw [h.rest, List.length_drop]
  omega

/-- In a text, the offset of the cursor and the length of what is left add up. -/
theorem InText.offset_add_length (h : InText file source s) :
    s.position.offset + s.rest.length = source.length :=
  InSource.offset_add_length ⟨h.offset_le, h.rest⟩

/-- A scanner starts in its text. -/
theorem inText_start (file : String) (source : List Char) :
    InText file source (ScanState.start source) :=
  ⟨Nat.zero_le _, rfl, rfl, by simp [ScanState.start], .nil⟩

/-- At the start, there are no tokens to pass. -/
theorem allPassed_start (source : List Char) : AllPassed (ScanState.start source) := by
  simp [AllPassed, ScanState.start]

/-- Reading moves the cursor on by as many characters as there are. -/
theorem offset_read (s : ScanState) (n : Nat) :
    (s.read n).position.offset = s.position.offset + min n s.rest.length := by
  rw [ScanState.read, Position.offset_afterAll, List.length_take]

/-- To read characters stays in the text. -/
theorem InText.read (h : InText file source s) (n : Nat) : InText file source (s.read n) := by
  have hlength := h.offset_add_length
  have hoffset := offset_read s n
  have hmin : source.drop (s.position.offset + min n s.rest.length) = s.rest.drop n := by
    rw [← List.drop_drop, ← h.rest]
    rcases Nat.le_total n s.rest.length with hle | hle
    · rw [Nat.min_eq_left hle]
    · rw [Nat.min_eq_right hle, List.drop_length, List.drop_of_length_le hle]
  refine ⟨by rw [hoffset]; omega, ?_, by rw [hoffset, hmin]; rfl, ?_, h.sorted⟩
  · have htake : s.rest.take (min n s.rest.length) = s.rest.take n := by
      rw [← List.take_take, List.take_length]
    rw [hoffset, List.take_add, Position.afterAll_append, ← h.position, ← h.rest, htake]
    rfl
  · intro t ht
    obtain ⟨m, hm, hlocation⟩ := h.placed t ht
    exact ⟨m, by rw [hoffset]; omega, hlocation⟩

/-- A token that is read is the last one in the text. -/
theorem InText.take (h : InText file source s) (hpassed : AllPassed s) {kind : TokenKind}
    {lexeme : String} {text : List Char} :
    InText file source (s.take file text kind lexeme) := by
  have hread := h.read text.length
  refine ⟨hread.offset_le, hread.position, hread.rest, ?_, ?_⟩
  · intro t ht
    rcases List.mem_cons.mp ht with rfl | ht
    · exact ⟨s.position.offset, by rw [ScanState.position_take, offset_read]; omega, h.place⟩
    · exact hread.placed t ht
  · refine List.pairwise_cons.mpr ⟨fun t ht => ?_, h.sorted⟩
    obtain ⟨n, hn, hlocation⟩ := h.placed t ht
    have hlt := hpassed t ht
    rw [hlocation, offset_placeAt file (Nat.le_trans hn h.offset_le)] at hlt
    change Before t.location (s.position.inFile file)
    rw [hlocation, h.place]
    exact before_placeAt file (by omega) h.offset_le

/-- Moves keep a state in the text, and they keep all tokens in front of the cursor. -/
theorem Moves.inText (hmoves : Moves file s s') (h : InText file source s) (hs : AllPassed s) :
    InText file source s' ∧ AllPassed s' := by
  induction hmoves with
  | refl => exact ⟨h, hs⟩
  | @read s' n _ ih =>
    refine ⟨ih.1.read n, fun t ht => ?_⟩
    have hlt := ih.2 t ht
    rw [offset_read]
    omega
  | @token s' kind lexeme text ys _ hrest hne ih =>
    refine ⟨ih.1.take ih.2, fun t ht => ?_⟩
    have hpos := List.length_pos_iff.mpr hne
    have hoffset : (s'.take file text kind lexeme).position.offset =
        s'.position.offset + text.length := by
      rw [ScanState.position_take, offset_read, hrest, List.length_append]
      omega
    rw [hoffset]
    rcases List.mem_cons.mp ht with rfl | ht
    · change (s'.position.offset : Int) < _
      omega
    · have hlt := ih.2 t ht
      omega

/-- At the end of a text, moves leave a state as it is. -/
theorem Moves.eq_of_rest_nil (hmoves : Moves file s s') (hs : s.rest = []) : s' = s := by
  induction hmoves with
  | refl => rfl
  | read n _ ih =>
    rw [ih, ScanState.read, hs, List.drop_nil, List.take_nil, Position.afterAll_nil, ← hs]
  | token _ hrest hne ih =>
    rw [ih, hs] at hrest
    exact absurd (List.append_eq_nil_iff.mp hrest.symm).1 hne

/-- Moves keep a state in the text, and they keep it settled. -/
theorem Moves.settled (hmoves : Moves file s s') (h : InText file source s) (hs : Settled s) :
    InText file source s' ∧ Settled s' := by
  rcases hs with hpassed | hend
  · obtain ⟨hin, hpassed'⟩ := hmoves.inText h hpassed
    exact ⟨hin, .inl hpassed'⟩
  · rw [hmoves.eq_of_rest_nil hend]
    exact ⟨h, .inr hend⟩

end

/-- What an operation leaves: a state in the text, and an error at an exact location if there is
one. -/
def Exact (file : String) (source : List Char) :
    EStateM.Result ScanError ScanState Unit → Prop
  | .ok _ s => InText file source s ∧ Settled s
  | .error e s => InText file source s ∧ Settled s ∧ IsExact source e.location

/-- Steps that are made of moves leave what is exact. -/
theorem Outcome.exact {file : String} {source : List Char} {s : ScanState}
    {result : EStateM.Result ScanError ScanState Unit} (hresult : Outcome file s result)
    (h : InText file source s) (hs : Settled s) : Exact file source result := by
  cases result with
  | ok u s' => exact hresult.settled h hs
  | error e s' =>
    obtain ⟨hmoves, s₁, hmoves₁, hlocation⟩ := hresult
    obtain ⟨hin, hsettled⟩ := hmoves.settled h hs
    refine ⟨hin, hsettled, ?_⟩
    rw [hlocation]
    exact (hmoves₁.settled h hs).1.isExact

/-- A whole pass starts anew, and adds the end of the input behind all other tokens. -/
theorem exact_tokenize (file : String) (source : List Char) (s : ScanState) :
    Exact file source (Scanner.tokenize { file } source s) := by
  let scanner : Scanner := { file }
  have hrun : scanner.tokenize source s =
      (scanner.steps source >>= fun _ => scanner.place >>= emit .endOfInput "")
        (ScanState.start source) := rfl
  have hsteps : Outcome file (ScanState.start source)
      (scanner.steps source (ScanState.start source)) := outcome_steps rfl source
  have hstart := inText_start file source
  have hpassed := allPassed_start source
  rw [hrun]
  cases hresult : scanner.steps source (ScanState.start source) with
  | ok u s' =>
    rw [hresult] at hsteps
    rw [bind_of_eq_ok hresult]
    obtain ⟨hin, hpassed'⟩ := Moves.inText hsteps hstart hpassed
    obtain ⟨_, hend⟩ := leads_of_steps (s := ScanState.start source) rfl (Nat.le_refl _) hresult
    exact ⟨@InText.take file source s' hin hpassed' .endOfInput "" [], .inr hend⟩
  | error e s' =>
    rw [hresult] at hsteps
    have hexact := hsteps.exact hstart (.inl hpassed)
    rw [bind_of_eq_error hresult]
    exact hexact

/-- An operation keeps the state in the text, whatever it is and however it ends. -/
theorem exact_run {file : String} {source : List Char} {s : ScanState} (operation : Operation)
    (h : InText file source s) (hs : Settled s) :
    Exact file source (operation.run { file } source s) := by
  cases operation with
  | tokenize => exact exact_tokenize file source s
  | step =>
    have hstep : Outcome file s (Scanner.step { file } s) := outcome_step rfl
    exact hstep.exact h hs
  | advanceBy n => exact Outcome.exact (.read n.toNat .refl) h hs
  | skipBlanks => exact Outcome.exact (.read _ .refl) h hs

/-- Through every session, the cursor, all tokens and all errors are at exact places, and the tokens
stand in the order of the text. -/
theorem isExact_session (file : String) (source : List Char) (operations : List Operation) :
    let (s, errors) := session { file } source operations (ScanState.start source)
    IsExact source (s.position.inFile file) ∧ (∀ e ∈ errors, IsExact source e.location) ∧
      (∀ t ∈ s.tokens, IsExact source t.location) ∧
      s.tokens.Pairwise fun t u => Before t.location u.location := by
  suffices hall : ∀ s, InText file source s → Settled s →
      InText file source (session { file } source operations s).1 ∧
        ∀ e ∈ (session { file } source operations s).2, IsExact source e.location by
    obtain ⟨hin, herrors⟩ := hall _ (inText_start file source) (.inl (allPassed_start source))
    refine ⟨hin.isExact, herrors, fun t ht => ?_, ?_⟩
    · obtain ⟨n, hn, hlocation⟩ := hin.placed t (List.mem_reverse.mp ht)
      rw [hlocation]
      exact isExact_placeAt file (Nat.le_trans hn hin.offset_le)
    · exact List.pairwise_reverse.mpr hin.sorted
  intro s h hs
  induction operations generalizing s with
  | nil => exact ⟨h, by simp [session]⟩
  | cons operation operations ih =>
    have hexact := exact_run operation h hs
    rw [session]
    cases hresult : operation.run { file } source s with
    | ok u s' =>
      rw [hresult] at hexact
      exact ih s' hexact.1 hexact.2
    | error e s' =>
      rw [hresult] at hexact
      obtain ⟨hin, hsettled, hlocation⟩ := hexact
      obtain ⟨hin', herrors⟩ := ih s' hin hsettled
      refine ⟨hin', fun e' he' => ?_⟩
      rcases List.mem_cons.mp he' with rfl | he'
      · exact hlocation
      · exact herrors e' he'

end RegisterLang.Scanner
