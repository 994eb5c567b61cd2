import RegisterLang.Proofs.Grammar.Ending

/-!
# Where reading fails

When reading fails, the cursor is at the token that shows the failure, or one behind it if the token
is a directive. With the token behind the cursor, the tokens read so far decide that there is a
failure and which one.
-/

namespace RegisterLang

open Parse

/-- The cause says nothing about the token, apart from where it stands. If it tells a limit on
nesting, it is this one. -/
def ParseError.Cause.isPlain (limit : Int) : ParseError.Cause → Bool
  | unexpectedKeyword | unsupportedDirective _ => false
  | tooDeep told => told = limit
  | _ => true

/-- The failure shows at the cursor: by the next token, or by a directive that is passed. -/
inductive ParseState.Shows (s : ParseState) (limit : Int) : ParseFailure → Prop where
  | next {cause : ParseError.Cause} (h : cause.isPlain limit) :
      s.Shows limit (.rejected ⟨cause, s.next⟩)
  | reserved (hkind : s.next.kind = .keyword) (hlexeme : s.next.lexeme ≠ "return") :
      s.Shows limit (.rejected ⟨.unexpectedKeyword, s.next⟩)
  | keyword {token : Token} (h : token ∈ s.passed.head?) (word : String) :
      s.Shows limit (.rejected ⟨.unsupportedDirective word, token⟩)
  | unknown {token : Token} (h : token ∈ s.passed) (hkind : token.kind = .directive)
      (hword : Directive.ofWord? token.lexeme = none) :
      s.Shows limit (.unknownDirective token.lexeme)

/-- A rejected directive is the token that was passed last. -/
theorem ParseState.Shows.mem_head?_passed {s : ParseState} {limit : Int}
    {e : ParseError} (h : s.Shows limit (.rejected e)) (hcode : e.cause.code = "P006") :
    e.token ∈ s.passed.head? := by
  cases h with
  | @next cause hcause =>
    cases cause with
    | unsupportedDirective word => cases hcause
    | _ => exact absurd hcode (by simp [ParseError.Cause.code])
  | reserved => exact absurd (show "P003" = "P006" from hcode) (by decide)
  | keyword hmem word => exact hmem

/-- All other errors are shown by the next token. -/
theorem ParseState.Shows.token_eq {s : ParseState} {limit : Int}
    {e : ParseError} (h : s.Shows limit (.rejected e)) (hcode : e.cause.code ≠ "P006") :
    e.token = s.next := by
  cases h with
  | next | reserved => rfl
  | keyword => exact absurd rfl hcode

namespace Parse

variable {β γ : Type} {limit : Int}

/-- Whenever the step fails, the failure shows at the cursor. -/
def ShowsFailure (limit : Int) (step : Parse β) : Prop :=
  ∀ s failure s', step s = .error failure s' → s'.Shows limit failure

namespace ShowsFailure

/-- A step that never fails shows all its failures. -/
theorem of_ok {step : Parse β} (h : ∀ s, ∃ b s', step s = .ok b s') : ShowsFailure limit step := by
  intro s failure s' hresult
  obtain ⟨b, s'', hok⟩ := h s
  rw [hok] at hresult
  cases hresult

/-- A value is no failure. -/
theorem pure {b : β} : ShowsFailure limit (pure b) :=
  of_ok fun s => ⟨b, s, rfl⟩

/-- Of two steps in a row, the one that fails shows it. -/
theorem bind {step : Parse β} {further : β → Parse γ} (hstep : ShowsFailure limit step)
    (hfurther : ∀ b, ShowsFailure limit (further b)) : ShowsFailure limit (step >>= further) := by
  intro s failure s' h
  rcases bind_eq_error.mp h with h | ⟨b, s₁, _, h⟩
  · exact hstep s failure s' h
  · exact hfurther b s₁ failure s' h

/-- To change the value of a step leaves its failures. -/
theorem map {f : β → γ} {step : Parse β} (hstep : ShowsFailure limit step) :
    ShowsFailure limit (f <$> step) := by
  rw [map_eq_pure_bind]
  exact hstep.bind fun _ => pure

/-- To drop the value of a step leaves its failures. -/
theorem discard {step : Parse β} (hstep : ShowsFailure limit step) :
    ShowsFailure limit (discard step) :=
  hstep.map

/-- The branch that is taken shows its failure. -/
theorem ite {test : Prop} [Decidable test] {step step' : Parse β} (h : ShowsFailure limit step)
    (h' : ShowsFailure limit step') : ShowsFailure limit (if test then step else step') := by
  split
  · exact h
  · exact h'

/-- To look at the next token does not fail. -/
theorem next : ShowsFailure limit next :=
  of_ok fun s => ⟨s.next, s, rfl⟩

/-- To see how many tokens are left does not fail. -/
theorem room : ShowsFailure limit room :=
  of_ok fun s => ⟨s.rest, s, rfl⟩

/-- To look at the state does not fail. -/
theorem get : ShowsFailure limit get :=
  of_ok fun s => ⟨s, s, rfl⟩

/-- A test for a kind does not fail. -/
theorem check {kind : TokenKind} : ShowsFailure limit (check kind) :=
  of_ok fun s => ⟨_, s, rfl⟩

/-- A test for a kind and a text does not fail. -/
theorem checkIs {kind : TokenKind} {lexeme : String} : ShowsFailure limit (checkIs kind lexeme) :=
  of_ok fun s => ⟨_, s, rfl⟩

/-- A test for a delimiter does not fail. -/
theorem checkDelimiter {lexeme : String} : ShowsFailure limit (checkDelimiter lexeme) :=
  of_ok fun s => ⟨_, s, rfl⟩

/-- To move the cursor on does not fail. -/
theorem advance : ShowsFailure limit advance :=
  of_ok fun s => ⟨_, s.advance, rfl⟩

/-- A delimiter that may be missing does not fail. -/
theorem matchDelimiter {lexeme : String} : ShowsFailure limit (matchDelimiter lexeme) :=
  checkDelimiter.bind fun _ => ite (advance.discard.bind fun _ => pure) pure

/-- A failure at the next token is shown by it, if the cause says nothing else about the token. -/
theorem fail {cause : ParseError.Cause} (h : cause.isPlain limit) :
    ShowsFailure limit (fail cause : Parse β) := by
  rintro s failure s' ⟨⟩
  exact .next h

/-- A token that is missing is shown by the one in its place. -/
theorem consumeIf {test : Token → Bool} {what : String} :
    ShowsFailure limit (consumeIf test what) :=
  next.bind fun _ => ite advance (fail rfl)

/-- A token of a missing kind is shown by the one in its place. -/
theorem consume {kind : TokenKind} {what : String} : ShowsFailure limit (consume kind what) :=
  consumeIf

/-- A missing delimiter is shown by the token in its place. -/
theorem consumeDelimiter {lexeme what : String} :
    ShowsFailure limit (consumeDelimiter lexeme what) :=
  consumeIf

/-- Where a value is given behind a delimiter, only the delimiter can be missing. -/
theorem consumeDelimiter_pure {lexeme what : String} {b : β} :
    ShowsFailure limit
      (Functor.discard (Parse.consumeDelimiter lexeme what) >>= fun _ => Pure.pure b) :=
  consumeDelimiter.discard.bind fun _ => .pure

/-- A level too many is shown by the token at which it would open, and it tells the limit. A failure
inside of a level is shown as it was there. -/
theorem nested {step : Parse β} (hstep : ShowsFailure limit step) :
    ShowsFailure limit (nested limit step) := by
  intro s failure s' h
  rcases nested_eq_error.mp h with ⟨_, rfl, rfl⟩ | ⟨_, s₁, hresult, rfl⟩
  · exact .next (decide_eq_true rfl)
  · cases hstep _ _ _ hresult with
    | next hcause => exact .next hcause
    | reserved hkind hlexeme => exact .reserved hkind hlexeme
    | keyword hmem word =>
      refine .keyword ?_ word
      exact hmem
    | unknown hmem hkind hword => exact .unknown hmem hkind hword

end ShowsFailure

end Parse

namespace Grammar

variable {limit : Int}

/-! ### Parts that open no level -/

/-- A failing member misses its name. -/
theorem showsFailure_member {object : Tree} : ShowsFailure limit (member object) :=
  ShowsFailure.advance.discard.bind fun _ => ShowsFailure.consume.bind fun _ => .pure

/-- A failing type misses its name. -/
theorem showsFailure_typeAfterColon {what : String} : ShowsFailure limit (typeAfterColon what) :=
  ShowsFailure.matchDelimiter.bind fun _ =>
    .ite (ShowsFailure.consume.bind fun _ => .pure) .pure

/-- A failing parameter misses its name or that of its type. -/
theorem showsFailure_param : ShowsFailure limit param :=
  ShowsFailure.consume.bind fun _ => showsFailure_typeAfterColon.bind fun _ => .pure

/-- Of further parameters, the one that fails shows it. -/
theorem showsFailure_furtherParams (room : List Token) :
    ShowsFailure limit (furtherParams room) := by
  induction room with
  | nil => exact .pure
  | cons _ room ih =>
    refine ShowsFailure.matchDelimiter.bind fun _ => .ite ?_ .pure
    exact showsFailure_param.bind fun _ => ih.bind fun _ => .pure

/-- Failing parameters show it: one of them does, or the parenthesis is missing. -/
theorem showsFailure_params : ShowsFailure limit params := by
  refine ShowsFailure.get.bind fun s => ShowsFailure.checkDelimiter.bind fun _ => ?_
  refine .ite .consumeDelimiter_pure ?_
  refine showsFailure_param.bind fun first => ShowsFailure.room.bind fun room => ?_
  exact (showsFailure_furtherParams room).bind fun others => .consumeDelimiter_pure

/-- A failing import misses a path or a delimiter. -/
theorem showsFailure_importUnit : ShowsFailure limit importUnit := by
  refine ShowsFailure.consumeDelimiter.discard.bind fun _ => ShowsFailure.next.bind fun path => ?_
  refine .ite ((ShowsFailure.fail rfl).bind fun _ => ?_) ?_
  · exact ShowsFailure.advance.discard.bind fun _ =>
      ShowsFailure.consumeDelimiter.discard.bind fun _ => .consumeDelimiter_pure
  · exact ShowsFailure.advance.discard.bind fun _ =>
      ShowsFailure.consumeDelimiter.discard.bind fun _ => .consumeDelimiter_pure

section

variable {inner : Production → Parse Tree}
  (hinner : ∀ production, ShowsFailure limit (inner production))
include hinner

/-! ### Expressions -/

/-- What no expression starts with is shown where it stands. -/
theorem showsFailure_primary : ShowsFailure limit (primary inner) := by
  refine ShowsFailure.next.bind fun token => ?_
  cases literalKind? token.kind with
  | some kind => exact ShowsFailure.advance.discard.bind fun _ => .pure
  | none =>
    refine .ite (ShowsFailure.advance.discard.bind fun _ => .pure)
      (.ite (ShowsFailure.advance.discard.bind fun _ => .pure) (.ite ?_ (.fail rfl)))
    exact ShowsFailure.advance.discard.bind fun _ => (hinner .expression).bind fun _ =>
      ShowsFailure.consumeDelimiter.discard.bind fun _ => .pure

/-- Of further arguments, the one that fails shows it. -/
theorem showsFailure_furtherArguments (room : List Token) :
    ShowsFailure limit (furtherArguments inner room) := by
  induction room with
  | nil => exact .pure
  | cons _ room ih =>
    refine ShowsFailure.matchDelimiter.bind fun _ => .ite ?_ .pure
    refine ShowsFailure.checkDelimiter.bind fun _ => .ite .pure ?_
    exact (hinner .expression).bind fun _ => ih.bind fun _ => .pure

/-- A failing call shows it: one of the arguments does, or the parenthesis is missing. -/
theorem showsFailure_call {callee : Tree} : ShowsFailure limit (call inner callee) := by
  refine ShowsFailure.advance.discard.bind fun _ => ShowsFailure.checkDelimiter.bind fun _ => ?_
  refine .ite .consumeDelimiter_pure
    ((hinner .expression).bind fun first => ShowsFailure.room.bind fun room => ?_)
  exact (showsFailure_furtherArguments hinner room).bind fun others => .consumeDelimiter_pure

/-- Of calls and members in a row, the one that fails shows it. -/
theorem showsFailure_suffixes (room : List Token) (tree : Tree) :
    ShowsFailure limit (suffixes inner room tree) := by
  induction room generalizing tree with
  | nil => exact .pure
  | cons _ room ih =>
    refine ShowsFailure.checkDelimiter.bind fun _ => .ite ((showsFailure_call hinner).bind ih) ?_
    exact ShowsFailure.checkDelimiter.bind fun _ => .ite (showsFailure_member.bind ih) .pure

/-- Behind a sign or without one, the operand shows its failure. -/
theorem showsFailure_unary : ShowsFailure limit (unary inner) := by
  refine ShowsFailure.next.bind fun token => .ite ?_ ?_
  · exact ShowsFailure.advance.discard.bind fun _ => (hinner .operand).bind fun _ => .pure
  · exact (showsFailure_primary hinner).bind fun tree => ShowsFailure.room.bind fun room =>
      showsFailure_suffixes hinner room tree

omit hinner in
/-- Behind operators, the right operand that fails shows it. -/
theorem showsFailure_climb {right : Nat → Parse Tree} (hright : ∀ m, ShowsFailure limit (right m))
    (least : Nat) (room : List Token) (left : Tree) :
    ShowsFailure limit (climb right least room left) := by
  induction room generalizing left with
  | nil => exact .pure
  | cons _ room ih =>
    refine ShowsFailure.next.bind fun op => .ite ?_ .pure
    exact ShowsFailure.advance.discard.bind fun _ => (hright _).bind fun _ => ih _

/-- Between operators, the operand that fails shows it. -/
theorem showsFailure_binaryWithin (levels least : Nat) :
    ShowsFailure limit (binaryWithin inner levels least) := by
  induction levels generalizing least with
  | zero => exact showsFailure_unary hinner
  | succ levels ih =>
    exact (showsFailure_unary hinner).bind fun left => ShowsFailure.room.bind fun room =>
      showsFailure_climb ih least room left

/-- Either side of an assignment shows its failure. -/
theorem showsFailure_assignment : ShowsFailure limit (assignment inner) := by
  refine (showsFailure_binaryWithin hinner _ _).bind fun _ => ShowsFailure.check.bind fun _ => ?_
  refine .ite (ShowsFailure.advance.bind fun _ => ?_) .pure
  exact (hinner .expression).bind fun _ => .pure

/-! ### Statements -/

/-- To enter a statement does not fail. What is inside of it shows its failure. -/
theorem showsFailure_statement : ShowsFailure limit (statement inner) :=
  (ShowsFailure.of_ok fun _ => ⟨_, _, rfl⟩).bind fun _ => hinner .statement

/-- Of statements in a row, the one that fails shows it. -/
theorem showsFailure_statementsUntil (isEnd : Token → Bool) (room : List Token) :
    ShowsFailure limit (statementsUntil inner isEnd room) := by
  induction room with
  | nil => exact .pure
  | cons _ room ih =>
    refine ShowsFailure.next.bind fun _ => .ite .pure ?_
    exact (showsFailure_statement hinner).bind fun _ => ih.bind fun _ => .pure

/-- An expression that fails shows it, and so does a missing semicolon. -/
theorem showsFailure_expressionStatement : ShowsFailure limit (expressionStatement inner) :=
  (hinner .expression).bind fun _ => ShowsFailure.consumeDelimiter.discard.bind fun _ => .pure

/-- A value that fails shows it, and so does a missing semicolon. -/
theorem showsFailure_initialValue : ShowsFailure limit (initialValue inner) :=
  (hinner .expression).bind fun _ => ShowsFailure.matchDelimiter.discard.bind fun _ => .pure

/-- A failing declaration shows it, in its type, its value, or a token that is missing. -/
theorem showsFailure_declaration (isConst : Bool) :
    ShowsFailure limit (declaration inner isConst) := by
  refine ShowsFailure.consume.bind fun register => ShowsFailure.check.bind fun _ => .ite ?_ ?_
  · refine ShowsFailure.advance.bind fun _ => ShowsFailure.pure.bind fun _ => ?_
    refine ShowsFailure.checkIs.bind fun _ => .ite ?_ ?_
    · exact ShowsFailure.advance.discard.bind fun _ =>
        (showsFailure_initialValue hinner).bind fun _ => .pure
    · exact (showsFailure_statement hinner).bind fun _ => .pure
  · exact ShowsFailure.consumeIf.discard.bind fun _ =>
      (showsFailure_initialValue hinner).bind fun _ => .pure

/-- A failing return shows it, in its value or by a missing semicolon. -/
theorem showsFailure_returning : ShowsFailure limit (returning inner) := by
  refine ShowsFailure.advance.bind fun keyword => ShowsFailure.checkDelimiter.bind fun _ => ?_
  exact .ite .consumeDelimiter_pure ((hinner .expression).map.bind fun _ => .consumeDelimiter_pure)

/-- A failing block shows it, in a statement or by a missing brace. -/
theorem showsFailure_block : ShowsFailure limit (block inner) :=
  ShowsFailure.consumeDelimiter.bind fun _ => ShowsFailure.room.bind fun room =>
    (showsFailure_statementsUntil hinner _ room).bind fun _ => .consumeDelimiter_pure

/-! ### Directives -/

/-- A failing function shows it, in whichever part fails first. -/
theorem showsFailure_function : ShowsFailure limit (function inner) :=
  ShowsFailure.consume.bind fun _ => ShowsFailure.consumeDelimiter.discard.bind fun _ =>
    showsFailure_params.bind fun _ => showsFailure_typeAfterColon.bind fun _ =>
      (showsFailure_block hinner).bind fun _ => .pure

/-- A failing loop shows it, in whichever part fails first. -/
theorem showsFailure_whileLoop {keyword : Token} :
    ShowsFailure limit (whileLoop inner keyword) := by
  refine ShowsFailure.consumeDelimiter.discard.bind fun _ => ?_
  refine (hinner .expression).bind fun condition => ?_
  refine ShowsFailure.consumeDelimiter.discard.bind fun _ => ?_
  refine ShowsFailure.matchDelimiter.bind fun _ =>
    .ite ?_ ((showsFailure_block hinner).bind fun _ => .pure)
  exact (showsFailure_primary hinner).bind fun capture =>
    ShowsFailure.consumeDelimiter.discard.bind fun _ =>
      (showsFailure_block hinner).bind fun _ => .pure

/-- A directive that has no grammar is passed when it is rejected. -/
theorem shows_of_directive {s s' : ParseState} {failure : ParseFailure}
    (hkind : s.next.kind = .directive) (h : directive inner s = .error failure s') :
    s'.Shows limit failure := by
  have hne : s.next.kind ≠ .endOfInput := by
    rw [hkind]
    decide
  have hadvance : advance s = .ok s.next s.advance := (advance_eq_ok hne).mpr ⟨rfl, rfl⟩
  have hpassed := (ParseState.advance_moves hne).1
  rw [directive, liftM_eq, bind_of_eq_ok hadvance] at h
  cases hword : Directive.ofWord? s.next.lexeme with
  | none =>
    simp only [hword] at h
    cases h
    exact .unknown (by rw [hpassed]; exact List.mem_cons_self) hkind hword
  | some d =>
    simp only [hword] at h
    cases d with
    | importUnit => exact showsFailure_importUnit _ _ _ h
    | const => exact showsFailure_declaration hinner true _ _ _ h
    | func => exact showsFailure_function hinner _ _ _ h
    | whileLoop => exact showsFailure_whileLoop hinner _ _ _ h
    | typeOf | forLoop =>
      cases h
      exact .keyword (by rw [hpassed]; rfl) _

/-! ### Any statement -/

/-- A statement shows its failure, whatever it starts with. Reserved words are shown where they
stand. -/
theorem showsFailure_statementBody : ShowsFailure limit (statementBody inner) := by
  intro s failure s' h
  obtain ⟨step, hstep, hrun⟩ := exists_dispatches inner s
  rw [hrun] at h
  cases hstep with
  | declaration => exact showsFailure_declaration hinner false _ _ _ h
  | expression => exact showsFailure_expressionStatement hinner _ _ _ h
  | returning => exact showsFailure_returning hinner _ _ _ h
  | directive hkind => exact shows_of_directive hinner hkind h
  | reserved hkind hlexeme =>
    cases h
    exact .reserved hkind hlexeme
  | unexpected => exact ShowsFailure.fail rfl _ _ _ h

end

/-! ### All levels -/

/-- Every production shows its failures, those of the limit on nesting included. -/
theorem showsFailure_produceWithin (limit : Int) (levels : Nat) (production : Production) :
    ShowsFailure limit (produceWithin limit levels production) := by
  induction levels generalizing production with
  | zero => exact .fail (decide_eq_true rfl)
  | succ levels ih =>
    refine ShowsFailure.nested ?_
    cases production with
    | statement => exact showsFailure_statementBody ih
    | expression => exact showsFailure_assignment ih
    | operand => exact showsFailure_unary ih

/-- Every production shows its failures. -/
theorem showsFailure_produce (limit : Int) (production : Production) :
    ShowsFailure limit (produce limit production) :=
  ShowsFailure.get.bind fun _ => showsFailure_produceWithin limit _ production

end Grammar

/-- Whenever a whole reading fails, the failure shows at the cursor. -/
theorem Goal.showsFailure_read (goal : Goal) (limit : Int) :
    ShowsFailure limit (goal.read limit) := by
  have hproduce := Grammar.showsFailure_produce limit
  cases goal with
  | program =>
    exact ShowsFailure.next.bind fun _ => ShowsFailure.room.bind fun room =>
      (Grammar.showsFailure_statementsUntil hproduce _ room).bind fun _ => .pure
  | expression =>
    exact (hproduce .expression).bind fun _ => ShowsFailure.check.bind fun _ =>
      .ite .pure (.fail rfl)

/-! ### Bounded lookahead -/

namespace ParseState

/-- The token at the index of a state is the next one. -/
theorem getElem?_tokens_index (s : ParseState) : s.tokens[s.index]? = some s.next := by
  rw [tokens, index, List.getElem?_append_right (by simp),
    List.length_reverse, Nat.sub_self]
  rfl

/-- The token before the index of a state is the one that was passed last. -/
theorem getElem?_tokens_index_sub_one {s : ParseState} {token : Token}
    (h : token ∈ s.passed.head?) : 0 < s.index ∧ s.tokens[s.index - 1]? = some token := by
  cases hpassed : s.passed with
  | nil =>
    rw [hpassed] at h
    cases h
  | cons last passed =>
    rw [hpassed] at h
    obtain rfl : last = token := by simpa using h
    have hindex : s.index = passed.length + 1 := by rw [index, hpassed, List.length_cons]
    refine ⟨by omega, ?_⟩
    rw [tokens, hpassed, hindex, List.reverse_cons, List.append_assoc, Nat.add_sub_cancel,
      List.getElem?_append_right (by simp), List.length_reverse, Nat.sub_self]
    rfl

end ParseState

namespace Goal

variable {goal : Goal} {limit : Int} {tokens : List Token}

/-- A failed reading leaves the cursor in the list, and the failure shows there. -/
theorem exists_shows_of_ends {failure : ParseFailure} {index : Nat}
    (h : goal.Ends limit tokens (.error failure) index) :
    ∃ s : ParseState, s.tokens = tokens ∧ s.index = index ∧ s.Shows limit failure := by
  obtain ⟨start, s, hstart, hrun, hindex⟩ := exists_of_ends_error h
  obtain ⟨htokens, _, _, _, hrewind⟩ := ParseState.eq_of_ofTokens hstart
  have hreaches := Comparison.reaches_parse goal limit start
  rw [goal.parse_run, hrewind] at hrun hreaches
  rw [hrun] at hreaches
  exact ⟨s, hreaches.tokens.trans htokens, hindex,
    goal.showsFailure_read limit start failure s hrun⟩

/-- A reading fails with a syntax error at one of its tokens, or at a directive that is unknown. A
reserved word that is rejected starts no statement, and the limit on nesting that is told is the one
that was given. -/
theorem Ends.cases_of_error {failure : ParseFailure} {index : Nat}
    (h : goal.Ends limit tokens (.error failure) index) :
    (∃ e, failure = .rejected e ∧ e.token ∈ tokens ∧
      (e.cause = .unexpectedKeyword → e.token.kind = .keyword ∧ e.token.lexeme ≠ "return") ∧
      ∀ told, e.cause = .tooDeep told → told = limit) ∨
    ∃ token ∈ tokens, token.kind = .directive ∧ Directive.ofWord? token.lexeme = none ∧
      failure = .unknownDirective token.lexeme := by
  obtain ⟨s, rfl, _, hshows⟩ := exists_shows_of_ends h
  have hnext : s.next ∈ s.tokens := List.mem_append_right _ List.mem_cons_self
  have hpassed {token : Token} (htoken : token ∈ s.passed) : token ∈ s.tokens :=
    List.mem_append_left _ (List.mem_reverse.mpr htoken)
  cases hshows with
  | next hcause =>
    refine .inl ⟨_, rfl, hnext, ?_, ?_⟩
    · rintro rfl
      cases hcause
    · rintro told rfl
      exact of_decide_eq_true hcause
  | reserved hkind hlexeme => exact .inl ⟨_, rfl, hnext, fun _ => ⟨hkind, hlexeme⟩, nofun⟩
  | keyword hmem word => exact .inl ⟨_, rfl, hpassed (List.mem_of_mem_head? hmem), nofun, nofun⟩
  | unknown hmem hkind hword => exact .inr ⟨_, hpassed hmem, hkind, hword, rfl⟩

/-- A syntax error is shown by the token at the cursor, or by the one in front of it if the token is
a directive without a grammar. -/
theorem getElem?_of_ends {e : ParseError} {index : Nat}
    (h : goal.Ends limit tokens (.error (.rejected e)) index) :
    (e.cause.code ≠ "P006" → tokens[index]? = some e.token) ∧
      (e.cause.code = "P006" → 0 < index ∧ tokens[index - 1]? = some e.token) := by
  obtain ⟨s, rfl, rfl, hshows⟩ := exists_shows_of_ends h
  constructor
  · intro hcode
    rw [hshows.token_eq hcode]
    exact s.getElem?_tokens_index
  · intro hcode
    exact ParseState.getElem?_tokens_index_sub_one (hshows.mem_head?_passed hcode)

/-- When reading fails in front of a token that is no end of the input, another one follows it. -/
theorem index_add_two_le {failure : ParseFailure} {index : Nat}
    (h : goal.Ends limit tokens (.error failure) index)
    (hend : ¬ ∃ token ∈ tokens[index]?, token.kind = .endOfInput) : index + 2 ≤ tokens.length := by
  obtain ⟨last, hlast, hkind⟩ := h.ended
  obtain ⟨s, rfl, rfl, _⟩ := exists_shows_of_ends h
  have hnext := s.getElem?_tokens_index
  obtain ⟨hlength, _⟩ := List.getElem?_eq_some_iff.mp hnext
  by_contra hshort
  refine hend ⟨last, ?_, hkind⟩
  rw [List.getLast?_eq_getElem?] at hlast
  rwa [show s.index = s.tokens.length - 1 by omega]

/-- The first end of the input in a list that ends with one. -/
theorem exists_getElem?_findIdx (hended : ∃ last ∈ tokens.getLast?, last.kind = .endOfInput) :
    ∃ token ∈ tokens[tokens.findIdx (·.kind == .endOfInput)]?, token.kind = .endOfInput := by
  obtain ⟨last, hlast, hkind⟩ := hended
  have hlength : tokens.findIdx (·.kind == .endOfInput) < tokens.length :=
    List.findIdx_lt_length_of_exists ⟨last, List.mem_of_getLast? hlast, by simpa using hkind⟩
  have hfound := List.findIdx_getElem (w := hlength)
  exact ⟨_, List.getElem?_eq_getElem hlength, by simpa using hfound⟩

/-- Reading fails at the cursor, and what stands behind the token that follows the cursor does not
matter: any other list with the same tokens up to there fails in the same way, at the same place.
What stands behind the first end of the input does not matter either when reading succeeds. -/
theorem Ends.decided_by_prefix {result : Except ParseFailure Tree} {index : Nat}
    (h : goal.Ends limit tokens result index) :
    (∀ failure, result = .error failure →
      (∀ e, failure = .rejected e →
        (e.cause.code ≠ "P006" → tokens[index]? = some e.token ∧
          e.diagnostic.location = e.token.location) ∧
        (e.cause.code = "P006" → 0 < index ∧ tokens[index - 1]? = some e.token)) ∧
      ∀ tokens', (∃ last ∈ tokens'.getLast?, last.kind = .endOfInput) →
        ((∀ j ≤ index + 1, tokens'[j]? = tokens[j]?) ∨
          (∃ token ∈ tokens[index]?, token.kind = .endOfInput) ∧
            ∀ j ≤ index, tokens'[j]? = tokens[j]?) →
        goal.Ends limit tokens' (.error failure) index) ∧
    (∀ tree, result = .ok tree →
      ∀ tokens', (∃ last ∈ tokens'.getLast?, last.kind = .endOfInput) →
        (∀ j ≤ tokens.findIdx (·.kind == .endOfInput), tokens'[j]? = tokens[j]?) →
        ∃ index', goal.Ends limit tokens' (.ok tree) index') := by
  have hself {tokens' : List Token} (hended : ∃ last ∈ tokens'.getLast?, last.kind = .endOfInput)
      (hagree : (Comparison.everything (Int.le_refl limit)).Agree (index + 2) tokens tokens') :
      goal.Ends limit tokens' result index := by
    rcases h.agree (Int.le_refl limit) hended hagree with hsame | ⟨hlimit, _⟩
    · exact hsame
    · exact absurd hlimit (Int.lt_irrefl limit)
  constructor
  · rintro failure rfl
    refine ⟨?_, ?_⟩
    · rintro e rfl
      obtain ⟨hat, hbefore⟩ := getElem?_of_ends h
      exact ⟨fun hcode => ⟨hat hcode, rfl⟩, hbefore⟩
    · intro tokens' hended hsame
      refine hself hended ?_
      by_cases hend : ∃ token ∈ tokens[index]?, token.kind = .endOfInput
      · refine Comparison.agree_of_end _ _ hend fun j hj => ?_
        rcases hsame with hsame | ⟨_, hsame⟩
        · exact hsame j (by omega)
        · exact hsame j hj
      · refine Comparison.agree_of_forall_lt _ (index_add_two_le h hend) fun j hj => ?_
        rcases hsame with hsame | ⟨hend', _⟩
        · exact hsame j (by omega)
        · exact absurd hend' hend
  · rintro tree rfl tokens' hended hsame
    refine ⟨index, hself hended ?_⟩
    exact Comparison.agree_of_end _ _ (exists_getElem?_findIdx h.ended) hsame

/-- A number behind a parenthesis that is not closed, as tokens. -/
def unclosedTokens : List Token :=
  [.bare .delimiter "(", .bare .number "1", .bare .endOfInput ""]

/-- A parenthesis that is not closed is noticed at the end of the input, and a number behind that is
not read. -/
theorem ends_unclosedTokens :
    Goal.expression.Ends 64 unclosedTokens (.error (.rejected
        ⟨.expected "')' after expression", .bare .endOfInput ""⟩)) 2 ∧
      Goal.expression.Ends 64 (unclosedTokens ++ [.bare .number "2", .bare .endOfInput ""])
        (.error (.rejected ⟨.expected "')' after expression", .bare .endOfInput ""⟩)) 2 := by
  have hends : Goal.expression.Ends 64 unclosedTokens (.error (.rejected
      ⟨.expected "')' after expression", .bare .endOfInput ""⟩)) 2 := ⟨_, rfl, rfl⟩
  refine ⟨hends, (hends.decided_by_prefix.1 _ rfl).2 _ ⟨_, rfl, rfl⟩ (.inr ⟨⟨_, rfl, rfl⟩, ?_⟩)⟩
  intro j hj
  rw [List.getElem?_append_left]
  exact Nat.lt_of_le_of_lt hj (by decide)

end Goal

end RegisterLang
