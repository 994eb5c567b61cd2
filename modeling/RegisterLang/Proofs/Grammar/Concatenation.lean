import RegisterLang.Proofs.Grammar.Completion
import RegisterLang.Proofs.Grammar.Moved
import RegisterLang.Proofs.Token.Lawful
import RegisterLang.Proofs.Token.LineBreak

/-!
# Programs in a row

Statements that end with a stop are read whatever follows them, and then the cursor is at what
follows them, with nothing open. So a program behind another one, on a new line, is read as one of
its own: its statements are added, and its error is the error of both.
-/

namespace RegisterLang

open Parse

namespace Grammar

/-! ### The first program -/

section

variable {depth n : Nat} {inner : Production → Parse Tree} {isEnd : Token → Bool}
  {trees : List Tree} {room xs ys : List Token} {s : ParseState}

/-- To enter a statement does not move the cursor back. -/
theorem forward_statement (h : Forward (inner .statement)) : Forward (statement inner) := by
  intro s
  have hreaches := h { s with entered := s.next :: s.entered }
  exact ⟨hreaches.tokens, hreaches.index_le, hreaches.passed⟩

/-- Statements that are delimited are read one after the other, and then the rest is left to do. -/
theorem statementsUntil_run_append (hinner : Complete depth n inner)
    (hforward : Forward (inner .statement))
    (hstarts : ∀ t, startsStatement t → isEnd t = false) (hys : Delimited xs ys)
    (hroom : xs.length ≤ room.length) (h : Reads n (.statements trees) xs ys)
    (hs : s.pending = xs) (hd : s.depth = depth) :
    ∃ s' room', s.Reaches s' ∧ s'.pending = ys ∧ s'.depth = depth ∧ ys.length ≤ room'.length ∧
      statementsUntil inner isEnd room s =
        (statementsUntil inner isEnd room' >>= fun others => pure (trees ++ others)) s' := by
  induction trees generalizing room xs s with
  | nil =>
    cases h
    exact ⟨s, room, .refl s, hs, hd, hroom, by simp⟩
  | cons tree trees ih =>
    cases h with
    | @moreStatements _ _ _ _ zs _ hfirst hothers =>
      have hlength := hfirst.length_le
      simp only [Phrase.nonempty, Bool.toNat_true] at hlength
      obtain ⟨token, room, rfl⟩ := List.exists_cons_of_length_pos (show 0 < room.length by omega)
      rw [List.length_cons] at hroom
      obtain ⟨first, tokens, rfl, hfirst'⟩ := hfirst.starts rfl
      have hnext := (ParseState.next_eq_of_pending hs).1
      obtain ⟨s₁, hrun, hs₁, hd₁⟩ :=
        yields_statement hinner (delimited_of_statements hys hothers) hfirst s hs hd
      obtain ⟨s', room', hreaches, hs', hd', hroom', hrest⟩ :=
        ih (hys.of_suffix hfirst.suffix) (show zs.length ≤ room.length by omega) hothers hs₁ hd₁
      have hreaches₁ := forward_statement hforward s
      rw [hrun] at hreaches₁
      refine ⟨s', room', hreaches₁.trans hreaches, hs', hd', hroom', ?_⟩
      rw [statementsUntil, liftM_eq, next_bind_run, hnext, hstarts first hfirst',
        if_neg Bool.false_ne_true, framed_eq, bind_of_eq_ok hrun, bind_congr_run hrest, bind_assoc]
      simp

end

/-! ### The second program -/

/-- Statements up to the end of the input, in some room. -/
abbrev statementsToEnd (limit : Int) (room : List Token) : Parse (List Tree) :=
  statementsUntil (produce limit) (·.kind == .endOfInput) room

section

variable {d : Displacement} {ts us zs before entered : List Token} {start start' s : ParseState}

/-- Once the tokens `ts` are passed, the cursor is at the start of what is behind them. -/
theorem exists_eq_moved (hstart : ParseState.ofTokens (ts ++ us.map (·.moved d)) = .ok start)
    (hstart' : ParseState.ofTokens us = .ok start') (hreaches : start.Reaches s)
    (hpending : start.pending = ts ++ s.pending) (hdepth : s.depth = 0) :
    ∃ entered, s = start'.moved d ts.reverse entered := by
  obtain ⟨htokens, hpassed, _⟩ := ParseState.eq_of_ofTokens hstart
  obtain ⟨_, hpassed', hdepth', hentered', _⟩ := ParseState.eq_of_ofTokens hstart'
  have hfront : s.passed.reverse = ts := by
    rw [Goal.pending_of_reaches hpassed hreaches] at hpending
    exact List.append_cancel_right hpending
  have hahead : s.next :: s.rest = us.map (·.moved d) := by
    have hall := hreaches.tokens.trans htokens
    rw [ParseState.tokens, hfront] at hall
    exact List.append_cancel_left hall
  refine ⟨s.entered, ParseState.eq_of_fields ?_ ?_ ?_ ?_⟩
  · simp [ParseState.moved, hpassed', ← hfront]
  · rw [hahead, ← ParseState.next_cons_rest_of_ofTokens hstart']
    rfl
  · rw [hdepth]
    exact hdepth'.symm
  · simp [ParseState.moved, hentered']

/-- At the end of the input there are no statements. -/
theorem statementsToEnd_run_of_end (limit : Int) (room : List Token)
    (h : s.next.kind = .endOfInput) : statementsToEnd limit room s = .ok [] s := by
  cases room with
  | nil => rfl
  | cons _ room =>
    rw [statementsToEnd, statementsUntil, liftM_eq, next_bind_run, if_pos (beq_iff_eq.mpr h)]
    rfl

/-- The statements of a program are read alike when its tokens are moved, even if there are none. -/
theorem statementsToEnd_run_moved (limit : Int) (s : ParseState) :
    statementsToEnd limit (s.rest.map (·.moved d)) (s.moved d before entered) =
      (moving d before entered).result (List.map (Tree.moved d))
        (statementsToEnd limit s.rest s) := by
  by_cases hend : s.next.kind = .endOfInput
  · have hmoved : (s.moved d before entered).next.kind = .endOfInput := hend
    rw [statementsToEnd_run_of_end _ _ hend, statementsToEnd_run_of_end _ _ hmoved]
    rfl
  · exact (carries_statementsUntil (carries_produce limit) (fun _ => rfl) s.rest).run s (.inr hend)

/-- Tokens that end with a stop are stopped in front of everything. -/
theorem stopped_append (hstop : ∃ last ∈ ts.getLast?, isStop last) (zs : List Token) :
    Stopped (ts ++ zs) zs := by
  intro taken last htaken
  rw [List.append_cons] at htaken
  obtain ⟨last', hlast', hstop⟩ := hstop
  rw [List.append_cancel_right htaken, List.getLast?_concat, Option.mem_some_iff] at hlast'
  rwa [hlast']

end

section

variable {d : Displacement} {limit : Int} {ts us : List Token} {statements : List Tree}
  {start start' : ParseState}

/-- Behind statements that end with a stop, those of a program are read. -/
theorem exists_statementsUntil_append
    (hstart : ParseState.ofTokens (ts ++ us.map (·.moved d)) = .ok start)
    (hstart' : ParseState.ofTokens us = .ok start') (hts : ∀ t ∈ ts, t.kind ≠ .endOfInput)
    (hstop : ∃ last ∈ ts.getLast?, isStop last)
    (h : Reads limit.toNat (.statements statements) ts []) :
    ∃ entered, statementsToEnd limit start.rest start =
      (moving d ts.reverse entered).result (fun others => statements ++ others.map (Tree.moved d))
        (statementsToEnd limit start'.rest start') := by
  obtain ⟨_, _, hdepth, _⟩ := ParseState.eq_of_ofTokens hstart
  let zs := (us.map (·.moved d)).takeWhile (·.kind != .endOfInput)
  have hpending : start.pending = ts ++ zs := by
    rw [ParseState.pending, ParseState.next_cons_rest_of_ofTokens hstart,
      List.takeWhile_append_of_pos (by simpa using hts)]
  have hexchangeable : Exchangeable (fun token => isSign token = false) ts [] zs :=
    .inl (by simpa using stopped_append hstop [])
  obtain ⟨_, ⟨taken, htaken, rfl⟩, hreads⟩ := h.graft_of_exchangeable hexchangeable
  rw [List.append_nil] at htaken
  subst htaken
  have hforward : Forward (produce limit .statement) :=
    (keepsPace_produce (c := Comparison.everything (Int.le_refl limit)) .statement).left
  have hstarts (t : Token) (ht : startsStatement t) : (t.kind == .endOfInput) = false :=
    (Bool.or_eq_false_iff.mp (not_endsBlock_of_startsStatement ht)).1
  obtain ⟨s, room, hreaches, hs, hd, hroom, hrun⟩ := statementsUntil_run_append
    (produce_complete limit) hforward hstarts (.inl (stopped_append hstop zs))
    (hpending ▸ start.length_pending_le) hreads hpending hdepth
  obtain ⟨entered, rfl⟩ := exists_eq_moved hstart hstart' hreaches (by rw [hpending, hs]) hd
  refine ⟨entered, ?_⟩
  have hany : statementsToEnd limit room (start'.moved d ts.reverse entered) =
      statementsToEnd limit (start'.rest.map (·.moved d)) (start'.moved d ts.reverse entered) :=
    runsInAnyRoom_statementsUntil (produce_sound limit) (by simp) room _ () _ (hs ▸ hroom)
      (ParseState.length_pending_le _)
  have hmoved := hany.trans (statementsToEnd_run_moved limit start')
  refine hrun.trans ?_
  cases hresult : statementsToEnd limit start'.rest start' with
  | ok others s' =>
    rw [hresult] at hmoved
    exact bind_of_eq_ok hmoved
  | error e s' =>
    rw [hresult] at hmoved
    exact bind_of_eq_error hmoved

end

/-- At the start of a token list, a program is its statements, located at the first token. -/
theorem program_run_of_ofTokens {limit : Int} {tokens : List Token} {start : ParseState}
    (hstart : ParseState.ofTokens tokens = .ok start) :
    Goal.program.parse limit start =
      (statementsToEnd limit start.rest >>= fun trees =>
        pure (.document start.next.location trees)) start := by
  have hrun := program_run limit start
  rw [(ParseState.eq_of_ofTokens hstart).2.2.2.2] at hrun
  exact hrun

/-- A program is read behind another one that ends with a stop: its statements are added to those
of the first one, and if it fails, both fail in the same way. -/
theorem parseTokens_append {d : Displacement} {limit : Int} {ts us : List Token} {eof : Token}
    {tree : Tree} (heof : eof.kind = .endOfInput) (hts : ∀ t ∈ ts, t.kind ≠ .endOfInput)
    (hstop : ∃ last ∈ ts.getLast?, isStop last)
    (hus : ∃ last ∈ us.getLast?, last.kind = .endOfInput)
    (h : parseTokens .program limit (ts ++ [eof]) = .ok tree) :
    parseTokens .program limit (ts ++ us.map (·.moved d)) =
      match parseTokens .program limit us with
      | .ok tree' => .ok (.document tree.tag (tree.children ++ tree'.children.map (Tree.moved d)))
      | .error e => .error (e.moved d) := by
  obtain ⟨first, hfirst, statements, rfl, hreads⟩ :=
    (parseTokens_eq_ok_iff ⟨eof, by simp, heof⟩).mp h
  rw [takeWhile_append_ended hts heof] at hreads
  have hended : ∃ last ∈ (ts ++ us.map (·.moved d)).getLast?, last.kind = .endOfInput := by
    obtain ⟨last, hlast, hkind⟩ := hus
    exact ⟨last.moved d, by simp [List.getLast?_append, Option.mem_def.mp hlast], hkind⟩
  obtain ⟨start, hstart, -⟩ := ParseState.exists_ofTokens hended
  obtain ⟨start', hstart', -⟩ := ParseState.exists_ofTokens hus
  obtain ⟨entered, hrun⟩ := exists_statementsUntil_append hstart hstart' hts hstop hreads
  have hplace : start.next = first := by
    obtain ⟨_, _, rfl⟩ : ∃ t us', ts = t :: us' :=
      List.exists_cons_of_ne_nil (by rintro rfl; simp at hstop)
    have hahead := ParseState.next_cons_rest_of_ofTokens hstart
    simp only [List.cons_append, List.head?_cons, Option.mem_some_iff] at hahead hfirst
    exact (List.cons.inj hahead).1.trans hfirst
  cases hresult : statementsToEnd limit start'.rest start' with
  | ok others s' =>
    rw [hresult] at hrun
    have hboth := (program_run_of_ofTokens hstart).trans (bind_of_eq_ok hrun)
    have hsecond := (program_run_of_ofTokens hstart').trans (bind_of_eq_ok hresult)
    rw [parseTokens_of_ok hstart' hsecond, parseTokens_of_ok hstart hboth, hplace]
    rfl
  | error e s' =>
    rw [hresult] at hrun
    have hboth := (program_run_of_ofTokens hstart).trans (bind_of_eq_error hrun)
    have hsecond := (program_run_of_ofTokens hstart').trans (bind_of_eq_error hresult)
    rw [parseTokens_of_error hstart' hsecond, parseTokens_of_error hstart hboth]
    rfl

end Grammar

/-! ### Sources -/

open Grammar

/-- An error in a text that is moved. -/
def SourceError.moved (d : Displacement) : SourceError → SourceError
  | scan e => scan (e.moved d)
  | parse failure => parse (failure.moved d)

/-- Programs can be written one below the other. Behind a program whose last token is a semicolon
or a closing brace, and a line break, every program is read as it is alone: its statements come
after those of the first one, and an error in it is an error of both, moved down by the text in
front. -/
theorem parseSource_lineBreak {a b file : String} {limit : Int} {tokens : List Token}
    {document : Tree} (hscan : scan a file = .ok tokens)
    (hlast : ∃ last ∈ (tokens.filter (·.kind != .endOfInput)).getLast?,
      last.isDelimiter ";" ∨ last.isDelimiter closingBrace)
    (ha : parseSource .program a file limit = .ok document) :
    (∀ document', parseSource .program b file limit = .ok document' →
      parseSource .program (a ++ "\n" ++ b) file limit =
        .ok (.document document.tag
          (document.children ++ document'.children.map (Tree.moved (.behind a))))) ∧
    ∀ e, parseSource .program b file limit = .error e →
      parseSource .program (a ++ "\n" ++ b) file limit = .error (e.moved (.behind a)) := by
  obtain ⟨ts, rfl, hscans⟩ := Scanner.scan_eq_ok_iff.mp hscan
  rw [Scanner.filter_append_endOfInput hscans] at hlast
  have htype : ∀ last ∈ ts.getLast?, last.kind ≠ .typeName := by
    intro last hmember hkind
    obtain ⟨_, hmember', hstop⟩ := hlast
    obtain rfl := Option.mem_unique hmember hmember'
    exact not_isStop_of_kind (by simp [hkind]) (Bool.or_eq_true_iff.mpr hstop)
  have hstop : ∃ last ∈ ts.getLast?, isStop last := by simpa [isStop] using hlast
  have hboth {us : List Token} (hb : scan b file = .ok us) :
      scan (a ++ "\n" ++ b) file = .ok (ts ++ us.map (·.moved (.behind a))) := by
    rw [Scanner.scan_append_line hscans htype, hb]
  obtain ⟨_, hscan', hdocument⟩ := parseSource_eq_ok.mp ha
  obtain rfl := Except.ok.inj (hscan.symm.trans hscan')
  have happend {us : List Token} (hb : scan b file = .ok us) :=
    parseTokens_append (d := .behind a) rfl hscans.kind_ne_endOfInput hstop
      (Scanner.ended_of_scan hb) hdocument
  constructor
  · intro document' hb
    obtain ⟨us, hscan', hdocument'⟩ := parseSource_eq_ok.mp hb
    rw [parseSource_eq_ok]
    exact ⟨_, hboth hscan', by rw [happend hscan', hdocument']⟩
  · intro e hb
    cases e with
    | scan e =>
      have hfails := parseSource_eq_error_scan.mp hb
      rw [SourceError.moved, parseSource_eq_error_scan, Scanner.scan_append_line hscans htype,
        hfails]
    | parse failure =>
      obtain ⟨us, hscan', hfails⟩ := parseSource_eq_error_parse.mp hb
      rw [SourceError.moved, parseSource_eq_error_parse]
      exact ⟨_, hboth hscan', by rw [happend hscan', hfails]⟩

/-- The tokens of `$a = 1;`. -/
def declarationTokens : List Token :=
  [⟨.register, "a", ⟨"f", 1, 1, 0⟩⟩, ⟨.assignOperator, "=", ⟨"f", 1, 4, 3⟩⟩,
    ⟨.number, "1", ⟨"f", 1, 6, 5⟩⟩, ⟨.delimiter, ";", ⟨"f", 1, 7, 6⟩⟩,
    ⟨.endOfInput, "", ⟨"f", 1, 8, 7⟩⟩]

/-- The statement of `$a = 1;`. -/
def declarationTree : Tree :=
  .declaration ⟨"f", 1, 1, 0⟩ "a" false none (.literal ⟨"f", 1, 6, 5⟩ .number "1")

/-- Behind `$a = 1;`, a register on a second line is one more statement; a declaration that breaks
off and a number without digits are told where they are. -/
theorem parseSource_lineBreak_declaration :
    scan "$a = 1;" "f" = .ok declarationTokens ∧
      (∃ last ∈ (declarationTokens.filter (·.kind != .endOfInput)).getLast?,
        last.isDelimiter ";" ∨ last.isDelimiter closingBrace) ∧
      parseSource .program "$a = 1;" "f" 64 = .ok (.document ⟨"f", 1, 1, 0⟩ [declarationTree]) ∧
      parseSource .program ("$a = 1;" ++ "\n" ++ "$b;") "f" 64 =
        .ok (.document ⟨"f", 1, 1, 0⟩ [declarationTree, .primary ⟨"f", 2, 1, 8⟩ .register "b"]) ∧
      parseSource .program ("$a = 1;" ++ "\n" ++ "$b = ;") "f" 64 =
        .error (.parse (.rejected ⟨.invalidExpression, ⟨.delimiter, ";", ⟨"f", 2, 6, 13⟩⟩⟩)) ∧
      parseSource .program ("$a = 1;" ++ "\n" ++ "0x") "f" 64 =
        .error (.scan ⟨.invalidNumber "0x" .hexadecimal, ⟨"f", 2, 1, 8⟩⟩) := by
  have hscan : scan "$a = 1;" "f" = .ok declarationTokens := by decide
  have hlast : ∃ last ∈ (declarationTokens.filter (·.kind != .endOfInput)).getLast?,
      last.isDelimiter ";" ∨ last.isDelimiter closingBrace := ⟨_, rfl, by decide⟩
  have ha : parseSource .program "$a = 1;" "f" 64 =
      .ok (.document ⟨"f", 1, 1, 0⟩ [declarationTree]) := parseSource_eq_ok.mpr ⟨_, hscan, rfl⟩
  have hregister : parseSource .program "$b;" "f" 64 =
      .ok (.document ⟨"f", 1, 1, 0⟩ [.primary ⟨"f", 1, 1, 0⟩ .register "b"]) :=
    parseSource_eq_ok.mpr ⟨[⟨.register, "b", ⟨"f", 1, 1, 0⟩⟩, ⟨.delimiter, ";", ⟨"f", 1, 3, 2⟩⟩,
      ⟨.endOfInput, "", ⟨"f", 1, 4, 3⟩⟩], by decide, rfl⟩
  have hbreaks : parseSource .program "$b = ;" "f" 64 =
      .error (.parse (.rejected ⟨.invalidExpression, ⟨.delimiter, ";", ⟨"f", 1, 6, 5⟩⟩⟩)) :=
    parseSource_eq_error_parse.mpr ⟨[⟨.register, "b", ⟨"f", 1, 1, 0⟩⟩,
      ⟨.assignOperator, "=", ⟨"f", 1, 4, 3⟩⟩, ⟨.delimiter, ";", ⟨"f", 1, 6, 5⟩⟩,
      ⟨.endOfInput, "", ⟨"f", 1, 7, 6⟩⟩], by decide, rfl⟩
  have hradix : parseSource .program "0x" "f" 64 =
      .error (.scan ⟨.invalidNumber "0x" .hexadecimal, ⟨"f", 1, 1, 0⟩⟩) :=
    parseSource_eq_error_scan.mpr (by decide)
  exact ⟨hscan, hlast, ha, (parseSource_lineBreak hscan hlast ha).1 _ hregister,
    (parseSource_lineBreak hscan hlast ha).2 _ hbreaks,
    (parseSource_lineBreak hscan hlast ha).2 _ hradix⟩

end RegisterLang
