import RegisterLang.Proofs.Token.LineBreak
import RegisterLang.Proofs.Token.Session

/-!
# The scan loop goes on and ends

Wherever the cursor stands in a source, a step that succeeds takes it on, and every token that is
added has a character of its own among those that were read. So the loop of a pass ends on every
source, without a bound on its rounds, and a source has no more tokens than characters, besides the
end of the input.
-/

namespace RegisterLang

namespace Scanner

/-- From the first state to the second one, the cursor stays in the source, and there are at least
as many characters between its two places as tokens are added behind those that were found
before. -/
structure Advances (source : List Char) (s s' : ScanState) : Prop where
  inSource : InSource source s'
  added : ∃ added, s'.tokens = s.tokens ++ added ∧
    s.position.offset + added.length ≤ s'.position.offset

/-- The loop of a pass, without a bound on its rounds: as long as the text has not ended, a step is
taken, until one fails. There is a result only if the loop ends. -/
inductive Loops (scanner : Scanner) :
    ScanState → EStateM.Result ScanError ScanState Unit → Prop where
  | ended {s} : s.rest = [] → Loops scanner s (.ok () s)
  | failed {s e s'} : s.rest ≠ [] → scanner.step s = .error e s' → Loops scanner s (.error e s')
  | round {s s' result} :
      s.rest ≠ [] → scanner.step s = .ok () s' → Loops scanner s' result → Loops scanner s result

variable {scanner : Scanner} {source : List Char} {s s' : ScanState}

/-! ### Steps -/

/-- What moves read and what they add. -/
theorem Moves.exists_read {file : String} (h : Moves file s s') :
    ∃ text added, s.rest = text ++ s'.rest ∧ s'.position = s.position.afterAll text ∧
      s'.tokens = s.tokens ++ added ∧ added.length ≤ text.length := by
  induction h with
  | refl => exact ⟨[], [], rfl, rfl, (List.append_nil _).symm, Nat.le_refl 0⟩
  | @read s' n _ ih =>
    obtain ⟨text, added, hrest, hposition, htokens, hlength⟩ := ih
    refine ⟨text ++ s'.rest.take n, added, ?_, ?_, htokens, ?_⟩
    · rw [List.append_assoc, ScanState.take_append_rest_read, hrest]
    · rw [Position.afterAll_append, ← hposition]
      rfl
    · rw [List.length_append]
      omega
  | @token s' kind lexeme front ys _ hfront hne ih =>
    obtain ⟨text, added, hrest, hposition, htokens, hlength⟩ := ih
    have hpos := List.length_pos_iff.mpr hne
    refine ⟨text ++ front, added ++ [⟨kind, lexeme, s'.position.inFile file⟩], ?_, ?_, ?_, ?_⟩
    · rw [ScanState.rest_take, ScanState.rest_read_length hfront, hrest, hfront, List.append_assoc]
    · rw [ScanState.position_take, ScanState.position_read_length hfront, hposition,
        Position.afterAll_append]
    · rw [ScanState.tokens, ScanState.found_take, List.reverse_cons, ← List.append_assoc, ← htokens]
      rfl
    · rw [List.length_append, List.length_append, List.length_singleton]
      omega

/-- Moves keep the cursor in the source. -/
theorem InSource.advances {file : String} (h : InSource source s) (hmoves : Moves file s s') :
    Advances source s s' := by
  obtain ⟨text, added, hrest, hposition, htokens, hlength⟩ := hmoves.exists_read
  have hoffset : s'.position.offset = s.position.offset + text.length := by
    rw [hposition, Position.offset_afterAll]
  have hin := h.offset_add_length
  rw [hrest, List.length_append] at hin
  refine ⟨⟨by omega, ?_⟩, added, htokens, by omega⟩
  rw [hoffset, ← List.drop_drop, ← h.rest, hrest, List.drop_left]

/-- In front of the end of the source a step takes the cursor on, unless it fails. -/
theorem InSource.offset_lt_of_step (hoperators : scanner.operators = Operator.multiChar)
    (h : InSource source s) (h' : InSource source s') (hstep : scanner.step s = .ok () s') :
    s.position.offset < s'.position.offset := by
  have hshorter := (leads_of_step hoperators hstep).2
  have hlength := h.offset_add_length
  have hlength' := h'.offset_add_length
  omega

/-- At the end of the source a step fails, and it changes nothing. -/
theorem step_of_rest_eq_nil (hoperators : scanner.operators = Operator.multiChar)
    (hrest : s.rest = []) :
    scanner.step s = .error ⟨.unexpectedCharacter endMark, s.position.inFile scanner.file⟩ s := by
  have hpeek (n : Nat) : s.peek n = endMark := by rw [ScanState.peek, hrest, List.getD_nil]
  have hnone : Operator.kind? (operatorAt s.rest endMark) = none := by
    rw [hrest]
    decide
  have hoperator := operator_run hoperators endMark (s := s)
  rw [hnone] at hoperator
  rw [step, get_bind_run, hpeek]
  exact hoperator

/-! ### The loop -/

/-- A pass is what its loop comes to. -/
theorem loops_pass (hoperators : scanner.operators = Operator.multiChar) (s : ScanState) :
    Loops scanner s (scanner.pass s) := by
  induction hlength : s.rest.length using Nat.strongRecOn generalizing s with
  | ind n ih =>
    subst hlength
    cases hrest : s.rest with
    | nil =>
      rw [pass_of_nil hrest]
      exact .ended hrest
    | cons c xs =>
      have hne : s.rest ≠ [] := by simp [hrest]
      rw [pass_of_cons hoperators hrest]
      cases hstep : scanner.step s with
      | ok u s' =>
        rw [bind_of_eq_ok hstep]
        exact .round hne hstep (ih _ (leads_of_step hoperators hstep).2 s' rfl)
      | error e s' =>
        rw [bind_of_eq_error hstep]
        exact .failed hne hstep

/-- The cursor starts in the source. -/
theorem inSource_start (source : List Char) : InSource source (ScanState.start source) :=
  ⟨Nat.zero_le _, rfl⟩

/-- A pass that succeeds reads the whole source, and it adds at most one token for a character. -/
theorem length_tokens_le_of_pass (hoperators : scanner.operators = Operator.multiChar)
    (h : scanner.pass (ScanState.start source) = .ok () s) :
    s.position.offset = source.length ∧ s.tokens.length ≤ source.length := by
  have houtcome : Outcome scanner.file (ScanState.start source)
      (scanner.pass (ScanState.start source)) := outcome_steps hoperators source
  rw [h] at houtcome
  obtain ⟨hin, added, htokens, hadded⟩ := (inSource_start source).advances houtcome
  obtain ⟨_, hend⟩ := leads_of_steps hoperators (Nat.le_refl _) h
  have hlength := hin.offset_add_length
  rw [hend, List.length_nil, Nat.add_zero] at hlength
  refine ⟨hlength, ?_⟩
  rw [htokens, ← hlength]
  simpa [ScanState.start, ScanState.tokens, Position.start] using hadded

/-- Behind a pass, the scan only adds the end of the input. -/
theorem scan_eq_ok_of_pass {source file : String}
    (h : Scanner.pass { file } (ScanState.start source.toList) = .ok () s) :
    RegisterLang.scan source file =
      .ok (s.tokens ++ [⟨.endOfInput, "", s.position.inFile file⟩]) := by
  rw [scan_eq_finish, finish, bind_of_eq_ok h]
  simp only [place_bind_run]
  exact congrArg Except.ok List.reverse_cons

end Scanner

open Scanner

/-- Scanning makes progress on every source, and it ends. Wherever the cursor stands in front of the
end of a source, a step fails, or it takes the cursor on and not beyond the end; in either case it
adds no more tokens than it reads characters. At the end of the source a step finds the end mark,
which is an unexpected character, and leaves everything as it is. So the loop of a pass comes to a
result, and this is the result of the scan: the first error, or at most one token for every
character and the end of the input. -/
theorem scan_advances_and_ends (source file : String) :
    (∀ s, InSource source.toList s →
      if s.position.offset < source.length then
        match Scanner.step { file } s with
        | .ok _ s' => s.position.offset < s'.position.offset ∧ Advances source.toList s s'
        | .error _ s' => Advances source.toList s s'
      else
        ∃ e, Scanner.step { file } s = .error e s ∧ e.cause = .unexpectedCharacter '\x00' ∧
          e.diagnostic.code = some "L001" ∧ e.location = s.position.inFile file) ∧
    ∃ result, Loops { file } (ScanState.start source.toList) result ∧
      match result with
      | .ok _ s =>
        s.position.offset = source.length ∧
          ∃ tokens, scan source file = .ok tokens ∧
            tokens = s.tokens ++ [⟨.endOfInput, "", s.position.inFile file⟩] ∧
            tokens.length ≤ source.length + 1
      | .error e _ => scan source file = .error e := by
  let scanner : Scanner := { file }
  have hoperators : scanner.operators = Operator.multiChar := rfl
  constructor
  · intro s hs
    have hlength := hs.offset_add_length
    rw [String.length_toList] at hlength
    split
    · have houtcome := outcome_step hoperators (s := s)
      cases hstep : scanner.step s with
      | ok u s' =>
        rw [hstep] at houtcome
        have hadvances := hs.advances houtcome
        exact ⟨hs.offset_lt_of_step hoperators hadvances.inSource hstep, hadvances⟩
      | error e s' =>
        rw [hstep] at houtcome
        exact hs.advances houtcome.1
    · have hrest : s.rest = [] := List.eq_nil_of_length_eq_zero (by omega)
      exact ⟨_, step_of_rest_eq_nil hoperators hrest, rfl, rfl, rfl⟩
  · refine ⟨_, loops_pass hoperators (ScanState.start source.toList), ?_⟩
    cases hpass : scanner.pass (ScanState.start source.toList) with
    | ok u s =>
      obtain ⟨hend, hle⟩ := length_tokens_le_of_pass hoperators hpass
      rw [String.length_toList] at hend hle
      exact ⟨hend, _, scan_eq_ok_of_pass hpass, rfl, by simpa using hle⟩
    | error e s =>
      change scan source file = .error e
      rw [scan_eq_finish, finish, bind_of_eq_error hpass]

/-- In front of `$a.b` a step takes the cursor on, and behind it a step finds the end mark. -/
theorem scan_advances_and_ends_member :
    let start := ScanState.start "$a.b".toList
    InSource "$a.b".toList start ∧ InSource "$a.b".toList (start.read 4) ∧
      (match Scanner.step { file := "f" } start with
        | .ok _ s' => 0 < s'.position.offset ∧ Advances "$a.b".toList start s'
        | .error _ s' => Advances "$a.b".toList start s') ∧
      (∃ e, Scanner.step { file := "f" } (start.read 4) = .error e (start.read 4) ∧
        e.cause = .unexpectedCharacter '\x00' ∧ e.diagnostic.code = some "L001" ∧
        e.location = (start.read 4).position.inFile "f") := by
  have hstart := inSource_start "$a.b".toList
  have hend : InSource "$a.b".toList ((ScanState.start "$a.b".toList).read 4) :=
    ⟨by decide, by decide⟩
  obtain ⟨hsteps, _⟩ := scan_advances_and_ends "$a.b" "f"
  exact ⟨hstart, hend, hsteps _ hstart, hsteps _ hend⟩

end RegisterLang
