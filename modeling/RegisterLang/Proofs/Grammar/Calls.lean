import RegisterLang.Proofs.Grammar.Ending
import RegisterLang.Proofs.Grammar.Trace

/-!
# One call after another

A parser may be asked for one thing after another on the same tokens, for whole readings and for
single productions, and it goes on after a failure. Its books are kept through all of that: nothing
is open between two calls, the cursor has passed no end of the input, and a whole reading comes out
as if it was the first one.
-/

namespace RegisterLang

open Parse Grammar

/-! ### What was entered before -/

/-- The same state, with other statements entered before. -/
def ParseState.remembering (s : ParseState) (earlier : List Token) : ParseState :=
  { s with entered := s.entered ++ earlier }

/-- The cursor is moved on alike, whatever was entered before. -/
theorem ParseState.advance_remembering (s : ParseState) (earlier : List Token) :
    (s.remembering earlier).advance = s.advance.remembering earlier := by
  by_cases hend : s.next.kind = .endOfInput
  · rw [advance_of_end hend, advance_of_end (s := s.remembering earlier) hend]
  · obtain ⟨hpassed, hrest, hentered⟩ := advance_moves hend
    obtain ⟨hpassed', hrest', hentered'⟩ := advance_moves (s := s.remembering earlier) hend
    refine eq_of_fields (hpassed'.trans hpassed.symm) (hrest'.trans hrest.symm) ?_ ?_
    · rw [depth_advance]
      exact s.depth_advance.symm
    · rw [hentered']
      simp only [remembering, hentered]

namespace Parse

variable {β : Type} {limit : Int}

/-- Other statements were entered before. -/
def remembering (earlier : List Token) : Renaming ParseFailure ParseState where
  state s := s.remembering earlier
  failure := id
  possible _ := True

/-- What was entered before does not matter for what the grammar is made of. -/
theorem Built.carries {step : Parse β} (h : Built limit step) (earlier : List Token) :
    (remembering earlier).Carries id step step := by
  induction h with
  | look f hf =>
    refine ⟨fun s _ => ?_, fun _ _ _ _ _ => trivial⟩
    change EStateM.Result.ok (f { s with entered := s.entered ++ earlier }) _ = .ok (f s) _
    rw [hf]
  | throw e => exact .throw id e
  | move =>
    refine ⟨fun s _ => ?_, fun _ _ _ _ _ => trivial⟩
    change EStateM.Result.ok () (s.remembering earlier).advance = .ok () _
    rw [ParseState.advance_remembering]
    rfl
  | enter => exact ⟨fun _ _ => rfl, fun _ _ _ _ _ => trivial⟩
  | bind _ _ ih ih' => exact ih.bind ih'
  | @nested _ step _ ih =>
    refine ⟨fun s _ => ?_, fun _ _ _ _ _ => trivial⟩
    by_cases hdeep : limit ≤ s.depth
    · rw [nested_run_of_le hdeep]
      exact nested_run_of_le (s := (remembering earlier).state s) hdeep
    · have hrun := ih.run { s with depth := s.depth + 1 } trivial
      rw [nested_run hdeep, nested_run (s := (remembering earlier).state s) hdeep]
      refine (congrArg closing hrun).trans ?_
      cases step { s with depth := s.depth + 1 } <;> rfl

end Parse

/-! ### Where the cursor is -/

namespace ParseState

/-- At the start of the tokens nothing is passed. -/
theorem passed_rewind (s : ParseState) : s.rewind.passed = [] := by
  unfold rewind
  split
  · next h => simp [tokens] at h
  · rfl

/-- To go back to the start does not undo what was entered. -/
theorem entered_rewind (s : ParseState) : s.rewind.entered = s.entered := by
  unfold rewind
  split <;> rfl

/-- A cursor at an end of the input that has passed none is at the first one. -/
theorem index_eq_findIdx {s : ParseState} (hpassed : ∀ t ∈ s.passed, t.kind ≠ .endOfInput)
    (hnext : s.next.kind = .endOfInput) :
    s.index = s.tokens.findIdx (·.kind == .endOfInput) := by
  have hnone : s.passed.reverse.findIdx (·.kind == .endOfInput) = s.passed.length := by
    rw [← List.length_reverse, List.findIdx_eq_length]
    simpa using hpassed
  rw [tokens, List.findIdx_append, hnone, List.length_reverse, if_neg (Nat.lt_irrefl _),
    List.findIdx_cons]
  simp [hnext, index]

end ParseState

/-! ### Loops without bounds -/

namespace Grammar

/-- `Repeats step isEnd s result`: taking the step from the state `s` on, again and again, until a
token ends it, comes to an end with this result. -/
inductive Repeats (step : Parse Tree) (isEnd : Token → Bool) :
    ParseState → EStateM.Result ParseFailure ParseState (List Tree) → Prop where
  | done {s} : isEnd s.next → Repeats step isEnd s (.ok [] s)
  | again {s t u first others} :
      isEnd s.next = false → step s = .ok first t → Repeats step isEnd t (.ok others u) →
      Repeats step isEnd s (.ok (first :: others) u)
  | failsFirst {s t e} :
      isEnd s.next = false → step s = .error e t → Repeats step isEnd s (.error e t)
  | failsLater {s t u first e} :
      isEnd s.next = false → step s = .ok first t → Repeats step isEnd t (.error e u) →
      Repeats step isEnd s (.error e u)

/-- The bound on the rounds of a loop over statements is never what ends it. -/
theorem repeats_statementsUntil {n : Nat} {inner : Production → Parse Tree} (hinner : Sound n inner)
    {isEnd : Token → Bool} (hend : ∀ t : Token, t.kind = .endOfInput → isEnd t) {room : List Token}
    {s : ParseState} (hroom : s.pending.length ≤ room.length) :
    Repeats (statement inner) isEnd s (statementsUntil inner isEnd room s) := by
  induction room generalizing s with
  | nil =>
    have hpending : s.pending = [] := List.eq_nil_of_length_eq_zero (Nat.le_zero.mp hroom)
    exact .done (hend _ (ParseState.pending_eq_nil_iff.mp hpending))
  | cons token room ih =>
    rw [statementsUntil, liftM_eq, next_bind_run]
    by_cases hisEnd : isEnd s.next
    · rw [if_pos hisEnd]
      exact .done hisEnd
    · rw [if_neg hisEnd, framed_eq]
      have hgoes : isEnd s.next = false := by simpa using hisEnd
      cases hfirst : statement inner s with
      | error e t =>
        rw [bind_of_eq_error hfirst]
        exact .failsFirst hgoes hfirst
      | ok first t =>
        have hlength := (reads_of_statement hinner hfirst).length_le
        simp only [Phrase.nonempty, Bool.toNat_true, List.length_cons] at hlength hroom
        have hothers := ih (s := t) (by omega)
        rw [bind_of_eq_ok hfirst]
        cases hresult : statementsUntil inner isEnd room t with
        | error e u =>
          rw [hresult] at hothers
          rw [bind_of_eq_error hresult]
          exact .failsLater hgoes hfirst hothers
        | ok others u =>
          rw [hresult] at hothers
          rw [bind_of_eq_ok hresult]
          exact .again hgoes hfirst hothers

/-- The room at the cursor is enough for all rounds. -/
theorem repeats_statements (limit : Int) {isEnd : Token → Bool}
    (hend : ∀ t : Token, t.kind = .endOfInput → isEnd t) (s : ParseState) :
    Repeats (statement (produce limit)) isEnd s
      (statementsUntil (m := Parse) (produce limit) isEnd s.rest s) :=
  repeats_statementsUntil (produce_sound limit) hend s.length_pending_le

end Grammar

/-! ### Whole readings -/

namespace Goal

/-- A whole reading is put together from the few kinds of steps. -/
theorem built_read (goal : Goal) (limit : Int) : Built limit (goal.read limit) := by
  have hinner := built_produce limit
  cases goal with
  | program =>
    exact Built.next.bind fun _ => Built.room.bind fun _ =>
      (built_statementsUntil hinner _ _).bind fun _ => .pure _
  | expression =>
    exact (hinner .expression).bind fun tree => (Built.check _).bind fun _ =>
      .ite (.pure tree) (.fail _)

/-- A whole reading succeeds only at an end of the input. -/
theorem next_kind_of_parse {goal : Goal} {limit : Int} {s s' : ParseState} {tree : Tree}
    (h : goal.parse limit s = .ok tree s') : s'.next.kind = .endOfInput := by
  rw [goal.parse_run] at h
  cases goal with
  | program =>
    rw [read, Grammar.program, liftM_eq, next_bind_run, liftM_eq, room_bind_run] at h
    obtain ⟨trees, s₁, htrees, hresult⟩ := bind_eq_ok.mp h
    obtain ⟨rfl, rfl⟩ := pure_eq_ok.mp hresult
    have hreads := reads_of_statementsUntil (produce_sound limit) s.rewind.length_pending_le htrees
    rcases hreads.2 with hend | hend
    · exact eq_of_beq hend
    · exact ParseState.pending_eq_nil_iff.mp hend
  | expression => exact (read_expression_eq_ok.mp h).2

end Goal

/-! ### Calls -/

/-- What a parser may be asked for. -/
inductive Call where
  /-- A whole reading, from the start of the tokens. -/
  | parse (goal : Goal)
  | statement
  | expression
  | binary (least : Nat)
  | unary
  | suffixed
  | primary
  | block
  | params
  | param
  | declaration (isConst : Bool)
  | advance
  | matchDelimiter (lexeme : String)
  | consume (kind : TokenKind) (what : String)

namespace Call

/-- What a call does. -/
def step (limit : Int) : Call → Parse Unit
  | parse goal => discard (goal.parse limit)
  | statement => discard (Grammar.statement (produce limit))
  | expression => discard (produce limit .expression)
  | binary least => discard (Grammar.binary (produce limit) least)
  | unary => discard (Grammar.unary (produce limit))
  | suffixed => discard (Grammar.suffixed (produce limit))
  | primary => discard (Grammar.primary (produce limit))
  | block => discard (Grammar.block (produce limit))
  | params => discard Grammar.params
  | param => discard Grammar.param
  | declaration isConst => discard (Grammar.declaration (produce limit) isConst)
  | advance => discard Parse.advance
  | matchDelimiter lexeme => discard (Parse.matchDelimiter lexeme)
  | consume kind what => discard (Parse.consume kind what)

/-- Where a call starts: a whole reading goes back to the start of the tokens. -/
def start : Call → ParseState → ParseState
  | parse _, s => s.rewind
  | _, s => s

/-- What a call does from there. -/
def body (limit : Int) : Call → Parse Unit
  | parse goal => discard (goal.read limit)
  | call => call.step limit

/-- The call reads a production, which has at least one token. -/
def takes : Call → Bool
  | parse _ | advance | matchDelimiter _ | consume _ _ => false
  | _ => true

/-- The state behind calls in a row, each of which may fail. -/
def after (limit : Int) (calls : List Call) (s : ParseState) : ParseState :=
  calls.foldl (fun s call => final (call.step limit s)) s

/-- A call does from its start what its body does. -/
theorem step_eq (limit : Int) (call : Call) (s : ParseState) :
    call.step limit s = call.body limit (call.start s) := by
  cases call with
  | parse goal =>
    exact bind_congr_run (goal.parse_run limit s)
  | _ => rfl

/-- What a call does is put together from the few kinds of steps. -/
theorem built_body (limit : Int) (call : Call) : Built limit (call.body limit) := by
  have hinner := built_produce limit
  cases call with
  | parse goal => exact (Goal.built_read goal limit).discard
  | statement => exact (built_statement hinner).discard
  | expression => exact (hinner .expression).discard
  | binary least => exact (built_binary hinner least).discard
  | unary => exact (built_unary hinner).discard
  | suffixed => exact (built_suffixed hinner).discard
  | primary => exact (built_primary hinner).discard
  | block => exact (built_block hinner).discard
  | params => exact built_params.discard
  | param => exact built_param.discard
  | declaration isConst => exact (built_declaration hinner isConst).discard
  | advance => exact Built.advance.discard
  | matchDelimiter lexeme => exact (Built.matchDelimiter lexeme).discard
  | consume kind what => exact (Built.consume kind what).discard

/-- A production that is read takes tokens. -/
theorem length_pending_lt {limit : Int} {call : Call} (htakes : call.takes) {s s' : ParseState}
    {u : Unit} (h : call.step limit s = .ok u s') : s'.pending.length < s.pending.length := by
  have hinner := produce_sound limit
  have less {n : Nat} {phrase : Phrase Location} (hreads : Reads n phrase s.pending s'.pending)
      (hne : phrase.nonempty) : s'.pending.length < s.pending.length := by
    have hlength := hreads.length_le
    rw [hne, Bool.toNat_true] at hlength
    omega
  cases call with
  | parse | advance | matchDelimiter | consume => cases htakes
  | statement =>
    obtain ⟨tree, hrun⟩ := discard_eq_ok.mp h
    exact less (reads_of_statement hinner hrun) rfl
  | expression =>
    obtain ⟨tree, hrun⟩ := discard_eq_ok.mp h
    exact less (hinner.expression hrun) rfl
  | binary least =>
    obtain ⟨tree, hrun⟩ := discard_eq_ok.mp h
    exact less (reads_of_binaryWithin hinner (by omega) hrun).1 rfl
  | unary =>
    obtain ⟨tree, hrun⟩ := discard_eq_ok.mp h
    exact less (reads_of_unary hinner hrun) rfl
  | suffixed =>
    obtain ⟨tree, hrun⟩ := discard_eq_ok.mp h
    exact less (reads_of_suffixed hinner hrun) rfl
  | primary =>
    obtain ⟨tree, hrun⟩ := discard_eq_ok.mp h
    exact less (reads_of_primary hinner hrun) rfl
  | block =>
    obtain ⟨tree, hrun⟩ := discard_eq_ok.mp h
    exact less (reads_of_block hinner hrun) rfl
  | params =>
    obtain ⟨tree, hrun⟩ := discard_eq_ok.mp h
    obtain ⟨trees, closing, _, hreads, _⟩ := reads_of_params (n := 0) hrun
    exact Nat.lt_of_lt_of_le (Nat.lt_succ_self _) (Nat.le_of_add_right_le hreads.length_le)
  | param =>
    obtain ⟨tree, hrun⟩ := discard_eq_ok.mp h
    exact less (reads_of_param (n := 0) hrun) rfl
  | declaration isConst =>
    obtain ⟨tree, hrun⟩ := discard_eq_ok.mp h
    exact less (reads_of_declaration hinner hrun) rfl

end Call

/-- The books of a parser: it is at the tokens that it was made for, with nothing open and no end of
the input passed. -/
structure Books (tokens : List Token) (s : ParseState) : Prop where
  tokens_eq : s.tokens = tokens
  depth_eq : s.depth = 0
  passed : ∀ t ∈ s.passed, t.kind ≠ .endOfInput

/-- What a call does to a parser, whether or not it succeeds: it leaves the depth as it was, and on
the way the depth stays within the limit, the cursor passes no end of the input and it only moves
forward from where the call starts. A production that is read takes at least one token. -/
structure Call.Orderly (limit : Int) (call : Call) (s : ParseState) : Prop where
  start : call.start s = s ∨ (∃ goal, call = .parse goal) ∧ (call.start s).index = 0
  depth_eq : (final (call.step limit s)).depth = s.depth
  runs : ∃ through, Runs limit (call.body limit) (call.start s) through (call.step limit s)
  depth_le : ∀ through, Runs limit (call.body limit) (call.start s) through (call.step limit s) →
    ∀ u ∈ through, (u.depth : Int) ≤ max limit 0
  passed : ∀ through, Runs limit (call.body limit) (call.start s) through (call.step limit s) →
    ∀ u ∈ through, ∀ t ∈ u.passed, t.kind ≠ .endOfInput
  forward : ∀ through, Runs limit (call.body limit) (call.start s) through (call.step limit s) →
    (call.start s :: (through ++ [final (call.step limit s)])).Pairwise fun u v => u.index ≤ v.index
  takes : call.takes → ∀ s', call.step limit s = .ok () s' → s.index < s'.index

namespace Books

variable {tokens : List Token} {s t : ParseState} {limit : Int}

/-- The books are in order before the first call. -/
theorem of_ofTokens (h : ParseState.ofTokens tokens = .ok s) : Books tokens s := by
  obtain ⟨htokens, hpassed, hdepth, _⟩ := ParseState.eq_of_ofTokens h
  refine ⟨htokens, hdepth, ?_⟩
  rw [hpassed]
  exact fun t ht => absurd ht List.not_mem_nil

/-- The books are in order at the start of the tokens. -/
theorem rewind (h : Books tokens s) : Books tokens s.rewind := by
  refine ⟨s.tokens_rewind.trans h.tokens_eq, s.depth_rewind, ?_⟩
  rw [s.passed_rewind]
  exact fun t ht => absurd ht List.not_mem_nil

/-- The books are in order where a call starts. -/
theorem start (h : Books tokens s) (call : Call) : Books tokens (call.start s) := by
  cases call with
  | parse goal => exact h.rewind
  | _ => exact h

/-- No end of the input is passed where the cursor gets to by moving forward. -/
theorem passed_of_reaches (h : Books tokens s) (hreaches : s.Reaches t) :
    ∀ token ∈ t.passed, token.kind ≠ .endOfInput := by
  intro token htoken
  rcases hreaches.passed token htoken with hbefore | hkind
  · exact h.passed token hbefore
  · exact hkind

/-- Every call runs through states. -/
theorem exists_runs (limit : Int) (call : Call) (s : ParseState) :
    ∃ through, Runs limit (call.body limit) (call.start s) through (call.step limit s) := by
  rw [call.step_eq]
  exact (call.built_body limit).exists_runs _

/-- Every call keeps the books in order. -/
theorem step (h : Books tokens s) (limit : Int) (call : Call) :
    Books tokens (final (call.step limit s)) := by
  obtain ⟨through, hruns⟩ := exists_runs limit call s
  have hstart := h.start call
  have hwalk := hruns.walk
  exact ⟨hwalk.reaches.tokens.trans hstart.tokens_eq, hwalk.depth_eq.trans hstart.depth_eq,
    hstart.passed_of_reaches hwalk.reaches⟩

/-- The books are in order behind any calls. -/
theorem after (h : Books tokens s) (limit : Int) (calls : List Call) :
    Books tokens (Call.after limit calls s) := by
  induction calls generalizing s with
  | nil => exact h
  | cons call calls ih => exact ih (h.step limit call)

/-- A call is orderly when the books are in order. -/
theorem orderly (h : Books tokens s) (limit : Int) (call : Call) : call.Orderly limit s where
  start := by
    cases call with
    | parse goal =>
      refine .inr ⟨⟨goal, rfl⟩, ?_⟩
      rw [Call.start, ParseState.index, s.passed_rewind, List.length_nil]
    | _ => exact .inl rfl
  depth_eq := (h.step limit call).depth_eq.trans h.depth_eq.symm
  runs := exists_runs limit call s
  depth_le := by
    intro through hruns u hu
    have hle := hruns.walk.depth_le u hu
    rwa [(h.start call).depth_eq] at hle
  passed := fun through hruns u hu =>
    (h.start call).passed_of_reaches (hruns.walk.between u hu).1
  forward := by
    intro through hruns
    have hwalk := hruns.walk
    have hends : ∀ v ∈ through ++ [final (call.step limit s)], (call.start s).Reaches v := by
      simp only [List.forall_mem_append, List.forall_mem_singleton]
      exact ⟨fun v hv => (hwalk.between v hv).1, hwalk.reaches⟩
    have hforward : (call.start s :: (through ++ [final (call.step limit s)])).Pairwise
        ParseState.Reaches := by
      refine List.pairwise_cons.mpr ⟨hends, List.pairwise_append.mpr ?_⟩
      refine ⟨hwalk.forward, List.pairwise_singleton _ _, fun u hu v hv => ?_⟩
      rw [List.mem_singleton.mp hv]
      exact (hwalk.between u hu).2
    exact hforward.imp fun hreaches => hreaches.index_le
  takes := by
    intro htakes s' hrun
    obtain ⟨through, hruns⟩ := exists_runs limit call s
    have hstart : call.start s = s := by
      cases call with
      | parse goal => cases htakes
      | _ => rfl
    have hless := Call.length_pending_lt htakes hrun
    have hsum := hruns.index_add_length_pending
    rw [hrun, hstart, final] at hsum
    omega

/-- A whole reading that succeeds ends at the first end of the input. -/
theorem index_of_parse (h : Books tokens s) {goal : Goal} {tree : Tree} {s' : ParseState}
    (hrun : goal.parse limit s = .ok tree s') :
    s'.index = tokens.findIdx (·.kind == .endOfInput) := by
  have hreaches := Comparison.reaches_parse goal limit s
  rw [hrun] at hreaches
  have hindex := ParseState.index_eq_findIdx (h.rewind.passed_of_reaches hreaches)
    (Goal.next_kind_of_parse hrun)
  rwa [hreaches.tokens, h.rewind.tokens_eq] at hindex

/-- A whole reading comes out as from the start, whatever was called before. -/
theorem ending_parse (h : Books tokens s) {fresh : ParseState}
    (hfresh : ParseState.ofTokens tokens = .ok fresh) (goal : Goal) (limit : Int) :
    ending (goal.parse limit s) = ending (goal.parse limit fresh) := by
  obtain ⟨_, hpassed, hdepth, hentered, hrewind⟩ := ParseState.eq_of_ofTokens hfresh
  have hsame : s.rewind = fresh.remembering s.entered := by
    refine ParseState.eq_of_fields ?_ ?_ ?_ ?_
    · exact s.passed_rewind.trans hpassed.symm
    · rw [s.next_cons_rest_rewind, h.tokens_eq]
      exact (ParseState.next_cons_rest_of_ofTokens hfresh).symm
    · exact s.depth_rewind.trans hdepth.symm
    · rw [s.entered_rewind, ParseState.remembering, hentered, List.nil_append]
  have hrun := ((goal.built_read limit).carries s.entered).run fresh trivial
  rw [goal.parse_run, goal.parse_run, hrewind, hsame]
  refine (congrArg ending hrun).trans ?_
  cases goal.read (m := Parse) limit fresh <;> rfl

end Books

/-- The books of a parser are kept through any calls in a row, whichever of them fail. Between two
calls nothing is open, and every call is orderly. The loops over statements come to an end by
themselves, since they stop at the end of the input. A whole reading succeeds only with the cursor
at the first end of the input, and after any calls it comes out as if it was the first one. -/
theorem exists_books_after_calls {tokens : List Token}
    (hended : ∃ last ∈ tokens.getLast?, last.kind = .endOfInput) :
    ∃ fresh, ParseState.ofTokens tokens = .ok fresh ∧
      ∀ (limit : Int) (calls : List Call),
        Books tokens (Call.after limit calls fresh) ∧
        (∀ call : Call, call.Orderly limit (Call.after limit calls fresh)) ∧
        (∀ (s : ParseState) (isEnd : Token → Bool),
          (∀ t : Token, t.kind = .endOfInput → isEnd t) →
          Repeats (statement (produce limit)) isEnd s
            (statementsUntil (m := Parse) (produce limit) isEnd s.rest s)) ∧
        (∀ goal tree s', Goal.parse goal limit (Call.after limit calls fresh) = .ok tree s' →
          s'.next.kind = .endOfInput ∧ s'.index = tokens.findIdx (·.kind == .endOfInput)) ∧
        ∀ goal, ending (Goal.parse goal limit (Call.after limit calls fresh)) =
          ending (Goal.parse goal limit fresh) := by
  obtain ⟨fresh, hfresh, _⟩ := ParseState.exists_ofTokens hended
  refine ⟨fresh, hfresh, fun limit calls => ?_⟩
  have hbooks := (Books.of_ofTokens hfresh).after limit calls
  refine ⟨hbooks, hbooks.orderly limit, fun s isEnd hend => repeats_statements limit hend s,
    fun goal tree s' hrun => ?_, fun goal => hbooks.ending_parse hfresh goal limit⟩
  exact ⟨Goal.next_kind_of_parse hrun, hbooks.index_of_parse hrun⟩

/-- The limit cuts the first call short inside the parentheses, and nothing stays open. -/
theorem books_after_calls_parenthesizedTokens :
    (∃ last ∈ parenthesizedTokens.getLast?, last.kind = .endOfInput) ∧
      ∃ fresh, ParseState.ofTokens parenthesizedTokens = .ok fresh ∧
        Books parenthesizedTokens (Call.after 1 [.parse .expression, .primary, .param] fresh) ∧
        Call.Orderly 1 .unary (Call.after 1 [.parse .expression, .primary, .param] fresh) := by
  have hended : ∃ last ∈ parenthesizedTokens.getLast?, last.kind = .endOfInput := ⟨_, rfl, rfl⟩
  obtain ⟨fresh, hfresh, hcalls⟩ := exists_books_after_calls hended
  obtain ⟨hbooks, horderly, _⟩ := hcalls 1 [.parse .expression, .primary, .param]
  exact ⟨hended, fresh, hfresh, hbooks, horderly .unary⟩

end RegisterLang
