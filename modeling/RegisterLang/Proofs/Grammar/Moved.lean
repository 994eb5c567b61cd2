import Mathlib.Data.List.GetD
import RegisterLang.Proofs.Grammar.Pace
import RegisterLang.Proofs.Token.Moved

/-!
# Tokens that are moved

Parsing only ever looks ahead of the cursor, and it hands the places of tokens on without looking at
them. So tokens are read alike when they are moved, with any other tokens passed in front of them.
-/

namespace RegisterLang

/-- A tree of a text that is moved. -/
def Tree.moved (d : Displacement) : Tree → Tree :=
  Node.map (·.moved d)

/-- A failure in a text that is moved. -/
def ParseFailure.moved (d : Displacement) : ParseFailure → ParseFailure
  | rejected e => rejected ⟨e.cause, e.token.moved d⟩
  | unknownDirective word => unknownDirective word
  | missingEnd => missingEnd

/-- A state is told by its fields. -/
theorem ParseState.eq_of_fields {s t : ParseState} (hpassed : s.passed = t.passed)
    (hahead : s.next :: s.rest = t.next :: t.rest) (hdepth : s.depth = t.depth)
    (hentered : s.entered = t.entered) : s = t := by
  cases s
  cases t
  simp_all

/-- A parser's state when the tokens are moved, and the tokens `before` are passed in front of them,
with those `entered` among them. -/
def ParseState.moved (s : ParseState) (d : Displacement) (before entered : List Token) :
    ParseState where
  passed := s.passed.map (·.moved d) ++ before
  next := s.next.moved d
  rest := s.rest.map (·.moved d)
  depth := s.depth
  entered := s.entered.map (·.moved d) ++ entered
  ended := by
    rw [List.getLastD_map]
    exact s.ended

namespace Parse

variable {d : Displacement} {before entered : List Token} {β γ : Type}

/-- Tokens are moved, with others passed in front of them. The cursor either is not at their start
or not at their end: in an empty text there would be a token in front of the end all at once. -/
def moving (d : Displacement) (before entered : List Token) : Renaming ParseFailure ParseState where
  state s := s.moved d before entered
  failure e := e.moved d
  possible s := s.passed ≠ [] ∨ s.next.kind ≠ .endOfInput

/-- The cursor is moved on alike in a text that is moved: the token it passes is the moved one. -/
theorem advance_moved (s : ParseState) :
    (s.moved d before entered).advance = s.advance.moved d before entered := by
  by_cases hend : s.next.kind = .endOfInput
  · rw [ParseState.advance_of_end hend,
      ParseState.advance_of_end (s := s.moved d before entered) hend]
  · obtain ⟨hpassed, hrest, hentered⟩ := ParseState.advance_moves hend
    obtain ⟨hpassed', hrest', hentered'⟩ :=
      ParseState.advance_moves (s := s.moved d before entered) hend
    refine ParseState.eq_of_fields ?_ ?_ ?_ ?_
    · rw [hpassed']
      simp [ParseState.moved, hpassed]
    · rw [hrest']
      exact congrArg (List.map (·.moved d)) hrest.symm
    · rw [ParseState.depth_advance]
      exact s.depth_advance.symm
    · rw [hentered']
      simp [ParseState.moved, hentered]

/-- Behind the start, the token in front of the cursor is one of the moved ones. -/
theorem previous_moved {s : ParseState} (h : s.passed ≠ []) :
    (s.moved d before entered).previous = s.previous.moved d := by
  obtain ⟨last, passed, hpassed⟩ := List.exists_cons_of_ne_nil h
  simp [ParseState.previous, ParseState.moved, hpassed]

/-- A look further ahead finds the moved token, and the moved end behind the last one. -/
theorem peek_moved (s : ParseState) (n : Nat) :
    (s.moved d before entered).peek n = (s.peek n).moved d := by
  show ((s.next :: s.rest).map (·.moved d)).getD n
    ((s.rest.map (·.moved d)).getLastD (s.next.moved d)) = _
  rw [List.getLastD_map, List.getD_map]
  rfl

/-- Behind a token that the cursor has been moved over, something is passed. -/
theorem passed_advance_ne_nil {s : ParseState} (h : (moving d before entered).possible s) :
    s.advance.passed ≠ [] := by
  by_cases hend : s.next.kind = .endOfInput
  · rw [ParseState.advance_of_end hend]
    exact h.resolve_right (not_not.mpr hend)
  · rw [(ParseState.advance_moves hend).1]
    exact List.cons_ne_nil _ _

/-! ### Looking -/

/-- The next token is the moved one. -/
theorem carries_next : (moving d before entered).Carries (·.moved d) next next :=
  Renaming.Carries.get.bind fun _ => .pure rfl

/-- There are as many tokens left, each of them moved. -/
theorem carries_room : (moving d before entered).Carries (List.map (·.moved d)) room room :=
  Renaming.Carries.get.bind fun _ => .pure rfl

/-- A test for the kind of the next token does not depend on its place. -/
theorem carries_check (kind : TokenKind) :
    (moving d before entered).Carries id (check kind) (check kind) :=
  carries_next.bind fun _ => .pure rfl

/-- A test for the kind and the text of the next token does not depend on its place. -/
theorem carries_checkIs (kind : TokenKind) (lexeme : String) :
    (moving d before entered).Carries id (checkIs kind lexeme) (checkIs kind lexeme) :=
  carries_next.bind fun _ => .pure rfl

/-- A test for a delimiter does not depend on its place. -/
theorem carries_checkDelimiter (lexeme : String) :
    (moving d before entered).Carries id (checkDelimiter lexeme) (checkDelimiter lexeme) :=
  carries_checkIs .delimiter lexeme

/-! ### Failing -/

/-- A failure at a given token is one at the moved token, for the same cause. -/
theorem carries_failAt (f : β → γ) (token : Token) (cause : ParseError.Cause) :
    (moving d before entered).Carries f (failAt token cause) (failAt (token.moved d) cause) :=
  .throw f _

/-- A failure at the next token is one at the moved token, for the same cause. -/
theorem carries_fail (f : β → γ) (cause : ParseError.Cause) :
    (moving d before entered).Carries f (fail cause) (fail cause) :=
  carries_next.bind fun token => carries_failAt f token cause

/-! ### Moving -/

/-- The token that the cursor passes is the moved one, and the state behind it is moved as well. -/
theorem carries_advance : (moving d before entered).Carries (·.moved d) advance advance where
  run s hs := by
    have hprevious : (s.advance.moved d before entered).previous = s.advance.previous.moved d :=
      previous_moved (passed_advance_ne_nil hs)
    show EStateM.Result.ok (s.moved d before entered).advance.previous
      (s.moved d before entered).advance = .ok (s.advance.previous.moved d) _
    rw [advance_moved, hprevious]
    rfl
  keeps s t s' hs h := by
    obtain ⟨_, rfl⟩ := pure_eq_ok.mp h
    exact .inl (passed_advance_ne_nil hs)

/-- A token that is passed under a test is found or missed alike, if the test does not depend on
places. What is reported of a missing one is at the moved token. -/
theorem carries_consumeIf {test : Token → Bool} (htest : ∀ t : Token, test (t.moved d) = test t)
    (what : String) :
    (moving d before entered).Carries (·.moved d) (consumeIf test what) (consumeIf test what) := by
  refine carries_next.bind fun t => ?_
  rw [htest]
  exact .ite carries_advance (carries_fail _ _)

/-- A token of some kind is passed alike. -/
theorem carries_consume (kind : TokenKind) (what : String) :
    (moving d before entered).Carries (·.moved d) (consume kind what) (consume kind what) :=
  carries_consumeIf (fun _ => rfl) what

/-- A delimiter is passed alike. -/
theorem carries_consumeDelimiter (lexeme what : String) :
    (moving d before entered).Carries (·.moved d) (consumeDelimiter lexeme what)
      (consumeDelimiter lexeme what) :=
  carries_consumeIf (fun _ => rfl) what

/-- Behind a delimiter, the image of a value is given where the value was. -/
theorem carries_consumeDelimiter_pure {f : β → γ} {b : β} {c : γ} (lexeme what : String)
    (h : c = f b) :
    (moving d before entered).Carries f
      (discard (consumeDelimiter lexeme what) >>= fun _ => pure b)
      (discard (consumeDelimiter lexeme what) >>= fun _ => pure c) :=
  (carries_consumeDelimiter lexeme what).discard.bind fun _ => .pure h

/-- An optional delimiter is there, or is not, wherever the tokens are. -/
theorem carries_matchDelimiter (lexeme : String) :
    (moving d before entered).Carries id (matchDelimiter lexeme) (matchDelimiter lexeme) :=
  (carries_checkDelimiter lexeme).bind fun _ =>
    .ite (carries_advance.discard.bind fun _ => .pure rfl) (.pure rfl)

/-- A level of nesting is opened and closed alike: the depth is not moved. -/
theorem carries_nested {f : β → γ} {limit : Int} {step : Parse β} {step' : Parse γ}
    (hstep : (moving d before entered).Carries f step step') :
    (moving d before entered).Carries f (nested limit step) (nested limit step') where
  run s hs := by
    by_cases hdeep : limit ≤ s.depth
    · rw [nested_run_of_le hdeep]
      exact nested_run_of_le (s := (moving d before entered).state s) hdeep
    · have hrun := hstep.run { s with depth := s.depth + 1 } hs
      rw [nested_run hdeep, nested_run (s := (moving d before entered).state s) hdeep]
      refine (congrArg closing hrun).trans ?_
      cases step { s with depth := s.depth + 1 } <;> rfl
  keeps s b s' hs h := by
    obtain ⟨_, s₁, hresult, rfl⟩ := nested_eq_ok.mp h
    exact hstep.keeps { s with depth := s.depth + 1 } b s₁ hs hresult

end Parse

namespace Grammar

open Parse

variable {d : Displacement} {before entered : List Token}

/-! ### Parts that open no level -/

/-- A moved tree stands at the moved place. -/
theorem tag_moved (tree : Tree) : (tree.moved d).tag = tree.tag.moved d :=
  Node.tag_map _ tree

/-- The name at a moved token is the moved name. -/
theorem carries_identifier (token : Token) :
    (moving d before entered).Carries (Tree.moved d) (identifier token)
      (identifier (token.moved d)) :=
  .pure rfl

/-- The member behind a moved object is the moved member. -/
theorem carries_member (object : Tree) :
    (moving d before entered).Carries (Tree.moved d) (member object) (member (object.moved d)) := by
  refine carries_advance.discard.bind fun _ => (carries_consume _ _).bind fun name => ?_
  refine (carries_identifier name).bind fun property => .pure ?_
  rw [tag_moved]
  rfl

/-- An optional type is there, or is not, and is moved. -/
theorem carries_typeAfterColon (what : String) :
    (moving d before entered).Carries (Option.map (Tree.moved d)) (typeAfterColon what)
      (typeAfterColon what) :=
  (carries_matchDelimiter ":").bind fun _ =>
    .ite ((carries_consume _ _).bind fun _ => .pure rfl) (.pure rfl)

/-- A parameter of a moved text is moved, together with its type. -/
theorem carries_param : (moving d before entered).Carries (Tree.moved d) param param :=
  (carries_consume _ _).bind fun _ => (carries_typeAfterColon _).bind fun _ =>
    .pure (by simp [Tree.moved, Node.map])

/-- The parameters behind the first one are moved, each of them. -/
theorem carries_furtherParams (room : List Token) :
    (moving d before entered).Carries (List.map (Tree.moved d)) (furtherParams room)
      (furtherParams (room.map (·.moved d))) := by
  induction room with
  | nil => exact .pure rfl
  | cons _ room ih =>
    exact (carries_matchDelimiter ",").bind fun _ =>
      .ite (carries_param.bind fun _ => ih.bind fun _ => .pure rfl) (.pure rfl)

/-- The parameters behind an opening parenthesis are moved, and so is the place they are given. -/
theorem carries_paramsBehind (opening : Token) :
    (moving d before entered).Carries (Tree.moved d) (paramsBehind opening)
      (paramsBehind (opening.moved d)) := by
  refine (carries_checkDelimiter _).bind fun _ => .ite ?_ ?_
  · exact carries_consumeDelimiter_pure _ _ (by simp [Tree.moved, Node.map])
  · refine carries_param.bind fun first => carries_room.bind fun room => ?_
    refine (carries_furtherParams room).bind fun others => ?_
    exact carries_consumeDelimiter_pure _ _ (by simp [Tree.moved, Node.map])

/-- Parameters find their opening parenthesis in front of the cursor. -/
theorem params_bind_eq (what : String) (further : Tree → Parse Tree) :
    (discard (consumeDelimiter "(" what) >>= fun _ => params >>= further) =
      (consumeDelimiter "(" what >>= fun opening => paramsBehind opening >>= further) := by
  rw [discard_bind]
  funext s
  refine bind_congr_ok fun opening s' hconsume => ?_
  rw [params, bind_assoc, liftM_eq, get_bind_run, previous_of_consumeIf hconsume]

/-- An import is moved. What is looked at beyond its path is moved over alike. -/
theorem carries_importUnit :
    (moving d before entered).Carries (Tree.moved d) importUnit importUnit := by
  refine (carries_consumeDelimiter _ _).discard.bind fun _ => carries_next.bind fun path => ?_
  refine .ite ((carries_fail id _).bind fun _ => ?_) ?_
  · exact carries_advance.discard.bind fun _ => (carries_consumeDelimiter _ _).discard.bind fun _ =>
      carries_consumeDelimiter_pure _ _ rfl
  · exact carries_advance.discard.bind fun _ => (carries_consumeDelimiter _ _).discard.bind fun _ =>
      carries_consumeDelimiter_pure _ _ rfl

/-! ### Expressions -/

section

variable {inner : Production → Parse Tree}
  (hinner : ∀ production,
    (moving d before entered).Carries (Tree.moved d) (inner production) (inner production))
include hinner

/-- What an expression starts with is read alike: a literal, a name, a register or parentheses. -/
theorem carries_primary :
    (moving d before entered).Carries (Tree.moved d) (primary inner) (primary inner) := by
  refine carries_next.bind fun token => ?_
  simp only [Token.kind_moved]
  cases literalKind? token.kind with
  | some kind => exact carries_advance.discard.bind fun _ => .pure rfl
  | none =>
    refine .ite (carries_advance.discard.bind fun _ => .pure rfl) ?_
    refine .ite (carries_advance.discard.bind fun _ => .pure rfl) (.ite ?_ (carries_fail _ _))
    refine carries_advance.discard.bind fun _ => (hinner .expression).bind fun content => ?_
    exact carries_consumeDelimiter_pure _ _ rfl

/-- The arguments behind the first one are moved, each of them. -/
theorem carries_furtherArguments (room : List Token) :
    (moving d before entered).Carries (List.map (Tree.moved d)) (furtherArguments inner room)
      (furtherArguments inner (room.map (·.moved d))) := by
  induction room with
  | nil => exact .pure rfl
  | cons _ room ih =>
    refine (carries_matchDelimiter ",").bind fun _ => .ite ?_ (.pure rfl)
    refine (carries_checkDelimiter ")").bind fun _ => .ite (.pure rfl) ?_
    exact (hinner .expression).bind fun _ => ih.bind fun _ => .pure rfl

/-- A call of a moved callee is the moved call. -/
theorem carries_call (callee : Tree) :
    (moving d before entered).Carries (Tree.moved d) (call inner callee)
      (call inner (callee.moved d)) := by
  have hcall (args : List Tree) :
      .call (callee.moved d).tag (callee.moved d) (args.map (Tree.moved d)) =
        Tree.moved d (.call callee.tag callee args) := by
    rw [tag_moved]
    simp [Tree.moved, Node.map]
  refine carries_advance.discard.bind fun _ => (carries_checkDelimiter ")").bind fun _ => ?_
  refine .ite ?_ ((hinner .expression).bind fun argument => carries_room.bind fun room => ?_)
  · exact carries_consumeDelimiter_pure _ _ (hcall [])
  · refine (carries_furtherArguments hinner room).bind fun others => ?_
    exact carries_consumeDelimiter_pure _ _ (hcall (argument :: others))

/-- Calls and members behind a moved tree are those behind the tree, moved. -/
theorem carries_suffixes (room : List Token) (tree : Tree) :
    (moving d before entered).Carries (Tree.moved d) (suffixes inner room tree)
      (suffixes inner (room.map (·.moved d)) (tree.moved d)) := by
  induction room generalizing tree with
  | nil => exact .pure rfl
  | cons _ room ih =>
    refine (carries_checkDelimiter "(").bind fun _ => .ite ((carries_call hinner _).bind ih) ?_
    exact (carries_checkDelimiter ".").bind fun _ => .ite ((carries_member _).bind ih) (.pure rfl)

/-- An expression with its calls and members is moved. -/
theorem carries_suffixed :
    (moving d before entered).Carries (Tree.moved d) (suffixed inner) (suffixed inner) :=
  (carries_primary hinner).bind fun tree => carries_room.bind fun room =>
    carries_suffixes hinner room tree

/-- An expression with its sign is moved. -/
theorem carries_unary :
    (moving d before entered).Carries (Tree.moved d) (unary inner) (unary inner) := by
  refine carries_next.bind fun token => .ite ?_ (carries_suffixed hinner)
  exact carries_advance.discard.bind fun _ => (hinner .operand).bind fun _ => .pure rfl

omit hinner in
/-- Operators and right operands behind a moved left operand are those behind the operand, moved, if
operands are read alike on every level of precedence. -/
theorem carries_climb {right : Nat → Parse Tree}
    (hright : ∀ m, (moving d before entered).Carries (Tree.moved d) (right m) (right m))
    (least : Nat) (room : List Token) (left : Tree) :
    (moving d before entered).Carries (Tree.moved d) (climb right least room left)
      (climb right least (room.map (·.moved d)) (left.moved d)) := by
  induction room generalizing left with
  | nil => exact .pure rfl
  | cons _ room ih =>
    refine carries_next.bind fun op => .ite ?_ (.pure rfl)
    refine carries_advance.discard.bind fun _ => (hright _).bind fun operand => ?_
    have htree := ih (.binary left.tag op.lexeme left operand)
    rw [show Tree.moved d (.binary left.tag op.lexeme left operand) =
      .binary (left.moved d).tag op.lexeme (left.moved d) (operand.moved d) by
        rw [tag_moved]; rfl] at htree
    exact htree

/-- Expressions between operators are moved, from every level of precedence on. -/
theorem carries_binaryWithin (levels least : Nat) :
    (moving d before entered).Carries (Tree.moved d) (binaryWithin inner levels least)
      (binaryWithin inner levels least) := by
  induction levels generalizing least with
  | zero => exact carries_unary hinner
  | succ levels ih =>
    exact (carries_unary hinner).bind fun left => carries_room.bind fun room =>
      carries_climb ih least room left

/-- An assignment is moved, and so is an expression without one. -/
theorem carries_assignment :
    (moving d before entered).Carries (Tree.moved d) (assignment inner) (assignment inner) := by
  refine (carries_binaryWithin hinner _ _).bind fun left => (carries_check _).bind fun _ => ?_
  refine .ite (carries_advance.bind fun op => ?_) (.pure rfl)
  exact (hinner .expression).bind fun _ => .pure (by rw [tag_moved]; rfl)

/-! ### Statements -/

/-- A statement is read alike, once those inside of it are: the record of where statements start is
moved. -/
theorem carries_statement :
    (moving d before entered).Carries (Tree.moved d) (statement inner) (statement inner) := by
  have hentered : (moving d before entered).Carries id
      (modify fun s => { s with entered := s.next :: s.entered } : Parse Unit)
      (modify fun s => { s with entered := s.next :: s.entered } : Parse Unit) :=
    ⟨fun _ _ => rfl, by rintro s _ _ hs ⟨⟩; exact hs⟩
  exact hentered.bind fun _ => hinner .statement

/-- Statements up to an end are moved, if that end does not depend on places. -/
theorem carries_statementsUntil {isEnd : Token → Bool}
    (hend : ∀ t : Token, isEnd (t.moved d) = isEnd t) (room : List Token) :
    (moving d before entered).Carries (List.map (Tree.moved d)) (statementsUntil inner isEnd room)
      (statementsUntil inner isEnd (room.map (·.moved d))) := by
  induction room with
  | nil => exact .pure rfl
  | cons _ room ih =>
    refine carries_next.bind fun t => ?_
    rw [hend]
    exact .ite (.pure rfl) ((carries_statement hinner).bind fun _ => ih.bind fun _ => .pure rfl)

/-- An expression with its semicolon is moved. -/
theorem carries_expressionStatement :
    (moving d before entered).Carries (Tree.moved d) (expressionStatement inner)
      (expressionStatement inner) :=
  (hinner .expression).bind fun _ => carries_consumeDelimiter_pure _ _ rfl

/-- The value of a declaration is moved. -/
theorem carries_initialValue :
    (moving d before entered).Carries (Tree.moved d) (initialValue inner) (initialValue inner) :=
  (hinner .expression).bind fun _ => (carries_matchDelimiter ";").discard.bind fun _ => .pure rfl

/-- A declaration is moved, whether a type or a value is behind its register. -/
theorem carries_declaration (isConst : Bool) :
    (moving d before entered).Carries (Tree.moved d) (declaration inner isConst)
      (declaration inner isConst) := by
  refine (carries_consume _ _).bind fun register => (carries_check _).bind fun _ => ?_
  refine .ite (carries_advance.bind fun token => ?_) ?_
  · refine (carries_identifier token).bind fun typeName => (carries_checkIs _ _).bind fun _ => ?_
    refine .ite (carries_advance.discard.bind fun _ => ?_) ?_
    · exact (carries_initialValue hinner).bind fun _ => .pure rfl
    · exact (carries_statement hinner).bind fun _ => .pure rfl
  · refine (carries_consumeIf (fun _ => rfl) _).discard.bind fun _ => ?_
    exact (carries_initialValue hinner).bind fun _ => .pure rfl

/-- A return is moved, with a value or without one. -/
theorem carries_returning :
    (moving d before entered).Carries (Tree.moved d) (returning inner) (returning inner) := by
  refine carries_advance.bind fun keyword => (carries_checkDelimiter ";").bind fun _ => ?_
  have hsome : (moving d before entered).Carries (Option.map (Tree.moved d))
      (some <$> inner .expression) (some <$> inner .expression) :=
    (hinner .expression).map fun _ => rfl
  refine .ite ?_ (hsome.bind fun argument => ?_)
  · exact carries_consumeDelimiter_pure _ _ (by simp [Tree.moved, Node.map])
  · exact carries_consumeDelimiter_pure _ _ (by simp [Tree.moved, Node.map])

/-- A block is moved, with all of its statements. -/
theorem carries_block :
    (moving d before entered).Carries (Tree.moved d) (block inner) (block inner) := by
  refine (carries_consumeDelimiter _ _).bind fun brace => carries_room.bind fun room => ?_
  refine (carries_statementsUntil hinner (fun _ => rfl) room).bind fun statements => ?_
  exact carries_consumeDelimiter_pure _ _ (by simp [Tree.moved, Node.map])

/-! ### Directives -/

/-- A function is moved: its name, its parameters, its type and its block. -/
theorem carries_function :
    (moving d before entered).Carries (Tree.moved d) (function inner) (function inner) := by
  refine (carries_consume _ _).bind fun name => ?_
  simp only [liftM_eq, framed_eq]
  rw [params_bind_eq, params_bind_eq]
  refine (carries_consumeDelimiter _ _).bind fun opening =>
    (carries_paramsBehind _).bind fun list => ?_
  refine (carries_typeAfterColon _).bind fun returnType => ?_
  refine (carries_block hinner).bind fun body => ?_
  exact .pure (by simp [Tree.moved, Node.map])

/-- A loop is moved, with its capture and its block. -/
theorem carries_whileLoop (keyword : Token) :
    (moving d before entered).Carries (Tree.moved d) (whileLoop inner keyword)
      (whileLoop inner (keyword.moved d)) := by
  refine (carries_consumeDelimiter _ _).discard.bind fun _ => ?_
  refine (hinner .expression).bind fun condition => ?_
  refine (carries_consumeDelimiter _ _).discard.bind fun _ => ?_
  refine (carries_matchDelimiter "|").bind fun _ => .ite ?_ ?_
  · refine (carries_primary hinner).bind fun capture => ?_
    refine (carries_consumeDelimiter _ _).discard.bind fun _ => ?_
    exact (carries_block hinner).bind fun _ => .pure (by simp [Tree.moved, Node.map])
  · exact (carries_block hinner).bind fun _ => .pure (by simp [Tree.moved, Node.map])

/-- What is behind an at sign is moved. Which directive it is does not depend on the place, and one
that is unknown is reported with the same word. -/
theorem carries_directive :
    (moving d before entered).Carries (Tree.moved d) (directive inner) (directive inner) := by
  refine carries_advance.bind fun keyword => ?_
  simp only [Token.lexeme_moved]
  cases Directive.ofWord? keyword.lexeme with
  | none => exact .throw _ _
  | some d =>
    cases d with
    | importUnit => exact carries_importUnit
    | const => exact carries_declaration hinner true
    | func => exact carries_function hinner
    | whileLoop => exact carries_whileLoop hinner keyword
    | typeOf | forLoop => exact carries_failAt _ _ _

/-! ### Any statement -/

omit hinner in
/-- Whether a register starts a declaration is told by tokens behind it, which do not change
kind. -/
theorem carries_startsDeclaration :
    (moving d before entered).Carries id startsDeclaration startsDeclaration := by
  refine Renaming.Carries.get.bind fun s => .pure ?_
  rw [show ((moving d before entered).state s).peek 1 = (s.peek 1).moved d from peek_moved s 1]
  rfl

/-- A statement is moved, whatever it starts with. -/
theorem carries_statementBody :
    (moving d before entered).Carries (Tree.moved d) (statementBody inner)
      (statementBody inner) := by
  refine carries_next.bind fun token => ?_
  have hexpression := carries_expressionStatement hinner
  simp only [Token.kind_moved, Token.lexeme_moved]
  split
  · exact carries_startsDeclaration.bind fun _ =>
      .ite (carries_declaration hinner false) hexpression
  · exact .ite (carries_returning hinner) (.ite hexpression (carries_fail _ _))
  · exact carries_directive hinner
  · exact .ite hexpression (carries_fail _ _)

/-- Every production is moved, if those one level deeper are. -/
theorem carries_body (production : Production) :
    (moving d before entered).Carries (Tree.moved d) (body inner production)
      (body inner production) := by
  cases production with
  | statement => exact carries_statementBody hinner
  | expression => exact carries_assignment hinner
  | operand => exact carries_unary hinner

end

/-! ### All levels -/

/-- Every production is moved, whatever the limit on nesting and the levels below it. -/
theorem carries_produceWithin (limit : Int) (levels : Nat) (production : Production) :
    (moving d before entered).Carries (Tree.moved d) (produceWithin limit levels production)
      (produceWithin limit levels production) := by
  induction levels generalizing production with
  | zero => exact carries_fail _ _
  | succ levels ih => exact carries_nested (carries_body ih production)

/-- Every production is moved. -/
theorem carries_produce (limit : Int) (production : Production) :
    (moving d before entered).Carries (Tree.moved d) (produce limit production)
      (produce limit production) :=
  Renaming.Carries.get.bind fun _ => carries_produceWithin limit _ production

end Grammar

end RegisterLang
