import RegisterLang.Proofs.Token.Layout
import RegisterLang.Proofs.Token.Moved
import RegisterLang.Proofs.Token.Place

/-!
# Line breaks

A line break is a boundary for the scanner. Nothing that starts in front of one goes on behind it,
but for the blanks behind a type, so what is in front is scanned as if the text ended there, and
what is behind is scanned as a text of its own that is moved down.
-/

namespace RegisterLang

namespace Scanner

variable {scanner : Scanner} {s : ScanState} {file : String} {mode mode' : Mode} {p : Position}
  {text xs ys zs : List Char} {ts : List Token}

/-! ### In front of a line break -/

/-- There are no tokens in no text. -/
theorem Scans.eq_nil (h : Scans file mode p [] ts) : ts = [] := by
  generalize hxs : ([] : List Char) = xs at h
  induction h with
  | done => rfl
  | skip _ _ ih => exact ih (List.append_eq_nil_iff.mp hxs.symm).2.symm
  | token htakes => exact absurd (List.append_eq_nil_iff.mp hxs.symm).1 htakes.spells.text_ne_nil

/-- A line break stands apart. -/
theorem apart_line (zs : List Char) : Apart ('\n' :: zs) := by
  rintro c ⟨⟩
  decide

/-- A token at the end of a text, other than a type, is also one at the end of a line. -/
theorem Spells.append_line {lexeme : String} (h : Spells kind lexeme text []) (zs : List Char)
    (hkind : kind ≠ .typeName) : Spells kind lexeme text ('\n' :: zs) := by
  have hfront : Spells kind lexeme text ([] ++ []) := h
  exact hfront.append_apart (apart_line zs) fun htype => absurd htype hkind

/-- Only the blanks behind a type go on behind a line break. -/
theorem Takes.append_line {token : Option (TokenKind × String)}
    (h : Takes mode text token mode' ys) (zs : List Char) (htype : mode = .type → ys ≠ [])
    (htype' : mode' = .type → ys ≠ []) : Takes mode text token mode' (ys ++ '\n' :: zs) := by
  by_cases hys : ys = []
  · subst hys
    have hline {q : Char → Bool} (hq : q '\n' = false) : Stops q ([] ++ '\n' :: zs) := stops_cons hq
    cases h with
    | space hc => exact .space hc
    | comment hbody _ => exact .comment hbody (hline (by decide))
    | token hspells hkind hname => exact .token (hspells.append_line zs hkind) hkind hname
    | untyped => exact .untyped (hline (by decide))
    | typed => exact absurd rfl (htype' rfl)
    | blanks => exact absurd rfl (htype rfl)
    | unchained => exact .unchained (hline (by decide))
    | dot hnext =>
      obtain ⟨c, hc, _⟩ := hnext
      cases hc
    | member hspells =>
      refine .member (hspells.append_line zs fun h => ?_)
      have hbehind := congrArg Mode.behind h
      rw [behind_wordKind] at hbehind
      cases hbehind
  · have hfront : Takes mode text token mode' (ys ++ []) := by rwa [List.append_nil]
    exact hfront.append_apart (apart_line zs) fun _ => hys

/-- In front of a line break, a text is read to its end, unless it ends in a type. -/
theorem resume_of_scans_line (hoperators : scanner.operators = Operator.multiChar)
    (h : Scans scanner.file mode p xs ts) (zs : List Char) (hposition : s.position = p)
    (hrest : s.rest = xs ++ '\n' :: zs) (hlast : ∀ last ∈ ts.getLast?, last.kind ≠ .typeName)
    (hmode : mode = .type → ts ≠ []) :
    scanner.resume mode s =
      scanner.pass ⟨'\n' :: zs, p.afterAll xs, ts.reverse ++ s.found⟩ := by
  induction h generalizing s with
  | done =>
    obtain ⟨rest, position, found⟩ := s
    obtain rfl : rest = '\n' :: zs := hrest
    subst hposition
    rfl
  | @skip mode mode' p text ys ts htakes hys ih =>
    have hfree : mode' ≠ .type := by cases htakes <;> decide
    have htakes' := htakes.append_line zs (fun htype => by
      rintro rfl
      exact hmode htype hys.eq_nil) fun htype => absurd htype hfree
    rw [List.append_assoc] at hrest
    rw [resume_of_skip hoperators hrest htakes',
      ih (by rw [ScanState.position_read_length hrest, hposition])
        (ScanState.rest_read_length hrest) hlast fun htype => absurd htype hfree,
      Position.afterAll_append]
    rfl
  | @token mode mode' p kind lexeme text ys ts htakes hys ih =>
    have htype' : mode' = .type → ts ≠ [] := by
      rintro hmode' rfl
      exact htakes.ne_type (hlast _ rfl) hmode'
    have hlast' : ∀ last ∈ ts.getLast?, last.kind ≠ .typeName := by
      intro last hmem
      exact hlast last (by rw [List.getLast?_cons, Option.mem_def.mp hmem]; rfl)
    have hread : mode ≠ .type := by cases htakes <;> decide
    have htakes' := htakes.append_line zs (fun htype => absurd htype hread) fun htype => by
      rintro rfl
      exact htype' htype hys.eq_nil
    rw [List.append_assoc] at hrest
    rw [resume_of_token hoperators hrest htakes',
      ih (by rw [ScanState.position_take, ScanState.position_read_length hrest, hposition])
        (by rw [ScanState.rest_take, ScanState.rest_read_length hrest]) hlast' htype',
      Position.afterAll_append]
    simp [hposition]

/-! ### Behind a line break -/

/-- Reads what is left of a text, and then its end. -/
def finish (scanner : Scanner) : Scan Unit := do
  scanner.pass
  emit .endOfInput "" (← scanner.place)

/-- What scanning a text comes to is what is left to do at its start. -/
theorem scan_eq_finish (source file : String) :
    RegisterLang.scan source file =
      match Scanner.finish { file } (ScanState.start source.toList) with
      | .ok _ s => .ok s.tokens
      | .error e _ => .error e := rfl

/-- The end of the input is added at the moved place. -/
theorem carries_finish {d : Displacement} {before : List Token} :
    (moving d before).Carries id scanner.finish scanner.finish :=
  Renaming.Carries.bind (Renaming.Carries.get.bind fun s => carries_steps s.rest) fun _ =>
    carries_place.bind fun _ => carries_emit _ _ _

/-- Behind a text and a line break, the cursor is where the start of a text is moved to. -/
theorem afterAll_line (a : String) :
    Position.start.afterAll (a.toList ++ ['\n']) = Position.start.moved (.behind a) := by
  rw [Position.afterAll_append, Position.afterAll_start]
  simp [Position.after, Position.moved, Position.start, Displacement.behind, String.length_toList]
  omega

/-- What is left to do once a text and a line break are read is what there is to do at the start of
the text behind them, moved. -/
theorem pass_append_line (hoperators : scanner.operators = Operator.multiChar) {a : String}
    (ha : Scans scanner.file .free Position.start a.toList ts)
    (hlast : ∀ last ∈ ts.getLast?, last.kind ≠ .typeName) (zs : List Char) :
    scanner.pass (ScanState.start (a.toList ++ '\n' :: zs)) =
      scanner.pass ((moving (.behind a) ts.reverse).state (ScanState.start zs)) := by
  have hfront := resume_of_scans_line (s := ScanState.start (a.toList ++ '\n' :: zs)) hoperators ha
    zs rfl rfl hlast nofun
  have hline : scanner.step ⟨'\n' :: zs, Position.start.afterAll a.toList, ts.reverse⟩ =
      .ok () ((moving (.behind a) ts.reverse).state (ScanState.start zs)) := by
    rw [step_of_isSpace rfl (by decide)]
    simp [ScanState.read, ScanState.start, moving, ← afterAll_line, Position.afterAll_append]
  rw [ScanState.start, List.append_nil] at hfront
  rw [← pass_of_step hoperators rfl hline]
  exact hfront

/-- Behind a line break, a text is scanned as one of its own. -/
theorem scan_append_line {a b file : String} {ts : List Token}
    (ha : Scans file .free Position.start a.toList ts)
    (hlast : ∀ last ∈ ts.getLast?, last.kind ≠ .typeName) :
    RegisterLang.scan (a ++ "\n" ++ b) file =
      match RegisterLang.scan b file with
      | .ok us => .ok (ts ++ us.map (·.moved (.behind a)))
      | .error e => .error (e.moved (.behind a)) := by
  let scanner : Scanner := { file }
  have htext : (a ++ "\n" ++ b).toList = a.toList ++ '\n' :: b.toList := by simp
  have hfinish : scanner.finish (ScanState.start (a ++ "\n" ++ b).toList) =
      (moving (.behind a) ts.reverse).result id (scanner.finish (ScanState.start b.toList)) := by
    rw [← carries_finish.run _ trivial, htext]
    exact bind_congr_run (pass_append_line rfl ha hlast b.toList)
  rw [scan_eq_finish, scan_eq_finish, hfinish]
  cases scanner.finish (ScanState.start b.toList) with
  | ok u s => simp [Renaming.result, ScanState.tokens, moving]
  | error e s => rfl

/-- The tokens of a text, without its end. -/
theorem filter_append_endOfInput {source : List Char} (h : Scans file mode p xs ts) :
    (ts ++ [endOfInput file source]).filter (·.kind != .endOfInput) = ts := by
  rw [List.filter_append, List.filter_eq_self.mpr (by simpa using h.kind_ne_endOfInput)]
  simp [endOfInput]

end Scanner

/-- A line break is a boundary for the scanner. Behind a line break and a text that is scanned and
does not end in a type, every text is scanned as one of its own: as the same tokens, or to the same
error, moved down by the text in front. -/
theorem scan_lineBreak {a b file : String} {tokens : List Token} (ha : scan a file = .ok tokens)
    (hlast : ∀ last ∈ (tokens.filter (·.kind != .endOfInput)).getLast?, last.kind ≠ .typeName) :
    (∀ tokens', scan b file = .ok tokens' →
      scan (a ++ "\n" ++ b) file =
        .ok (tokens.filter (·.kind != .endOfInput) ++ tokens'.map (·.moved (.behind a)))) ∧
    ∀ e, scan b file = .error e →
      ∃ e', scan (a ++ "\n" ++ b) file = .error e' ∧
        e'.diagnostic = { e.diagnostic with location := e.location.moved (.behind a) } := by
  obtain ⟨ts, rfl, hscans⟩ := Scanner.scan_eq_ok_iff.mp ha
  rw [Scanner.filter_append_endOfInput hscans] at hlast ⊢
  have hscan := Scanner.scan_append_line (b := b) hscans hlast
  constructor
  · intro tokens' hb
    rw [hscan, hb]
  · intro e hb
    refine ⟨e.moved (.behind a), ?_, rfl⟩
    rw [hscan, hb]

/-- The tokens of `a |`: a name and a bar. -/
def barTokens : List Token :=
  [⟨.identifier, "a", ⟨"f", 1, 1, 0⟩⟩, ⟨.delimiter, "|", ⟨"f", 1, 3, 2⟩⟩,
    ⟨.endOfInput, "", ⟨"f", 1, 4, 3⟩⟩]

/-- Two bars on two lines are two delimiters, and behind a line break the letters of a radix still
need a digit. -/
theorem scan_lineBreak_barTokens :
    scan "a |" "f" = .ok barTokens ∧
      (∀ last ∈ (barTokens.filter (·.kind != .endOfInput)).getLast?, last.kind ≠ .typeName) ∧
      scan ("a |" ++ "\n" ++ "|") "f" = .ok [⟨.identifier, "a", ⟨"f", 1, 1, 0⟩⟩,
        ⟨.delimiter, "|", ⟨"f", 1, 3, 2⟩⟩, ⟨.delimiter, "|", ⟨"f", 2, 1, 4⟩⟩,
        ⟨.endOfInput, "", ⟨"f", 2, 2, 5⟩⟩] ∧
      ∃ e, scan ("a |" ++ "\n" ++ "0x") "f" = .error e ∧ e.diagnostic =
        { (⟨.invalidNumber "0x" .hexadecimal, ⟨"f", 1, 1, 0⟩⟩ : ScanError).diagnostic with
          location := ⟨"f", 2, 1, 4⟩ } := by
  have ha : scan "a |" "f" = .ok barTokens := by decide
  have hlast : ∀ last ∈ (barTokens.filter (·.kind != .endOfInput)).getLast?,
      last.kind ≠ .typeName := by decide
  have hbar : scan "|" "f" = .ok [⟨.delimiter, "|", ⟨"f", 1, 1, 0⟩⟩,
      ⟨.endOfInput, "", ⟨"f", 1, 2, 1⟩⟩] := by decide
  have hradix : scan "0x" "f" = .error ⟨.invalidNumber "0x" .hexadecimal, ⟨"f", 1, 1, 0⟩⟩ := by
    decide
  exact ⟨ha, hlast, (scan_lineBreak ha hlast).1 _ hbar, (scan_lineBreak ha hlast).2 _ hradix⟩

end RegisterLang
