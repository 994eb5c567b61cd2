import RegisterLang.Proofs.Grammar.Pace

/-!
# What the grammar is made of

A step of the grammar does few things by itself: it looks at the state, it fails, it moves the
cursor on, it notes a statement that is entered. Everything else is steps in a row and levels of
nesting. `Built` says that a step is put together in this way, and all steps of the grammar are. So
whatever holds of the few kinds of steps and is kept when they are put together holds of the whole
grammar.
-/

namespace RegisterLang

namespace Parse

variable {β γ : Type} {limit : Int}

/-- The step is put together from looking, failing, moving on and entering statements, below a limit
on nesting. No look depends on the statements that were entered before. -/
inductive Built (limit : Int) : {β : Type} → Parse β → Prop where
  | look {β : Type} (f : ParseState → β) (hf : ∀ s entered, f { s with entered } = f s) :
      Built limit fun s => .ok (f s) s
  | throw {β : Type} (e : ParseFailure) : Built limit (throw e : Parse β)
  | move : Built limit (modify ParseState.advance)
  | enter : Built limit (modify fun s => { s with entered := s.next :: s.entered })
  | bind {β γ : Type} {step : Parse β} {further : β → Parse γ} :
      Built limit step → (∀ b, Built limit (further b)) → Built limit (step >>= further)
  | nested {β : Type} {step : Parse β} : Built limit step → Built limit (nested limit step)

namespace Built

/-- A value is a look that does not look. -/
theorem pure (b : β) : Built limit (pure b) :=
  look (fun _ => b) fun _ _ => rfl

/-- To change the value of a step adds nothing to it. -/
theorem map {step : Parse β} (f : β → γ) (hstep : Built limit step) : Built limit (f <$> step) := by
  rw [map_eq_pure_bind]
  exact hstep.bind fun b => pure (f b)

/-- A step may be taken without its value. -/
theorem discard {step : Parse β} (hstep : Built limit step) : Built limit (discard step) :=
  hstep.map _

/-- A choice is put together like the branch that is taken. -/
theorem ite {p : Prop} [Decidable p] {step step' : Parse β} (hstep : Built limit step)
    (hstep' : Built limit step') : Built limit (if p then step else step') := by
  split
  · exact hstep
  · exact hstep'

/-- To look at the next token is a look. -/
theorem next : Built limit next :=
  look ParseState.next fun _ _ => rfl

/-- To see how many tokens are left is a look. -/
theorem room : Built limit room :=
  look ParseState.rest fun _ _ => rfl

/-- A test for the kind of the next token is a look. -/
theorem check (kind : TokenKind) : Built limit (check kind) :=
  next.bind fun _ => pure _

/-- A test for the kind and the text of the next token is a look. -/
theorem checkIs (kind : TokenKind) (lexeme : String) : Built limit (checkIs kind lexeme) :=
  next.bind fun _ => pure _

/-- A test for a delimiter is a look. -/
theorem checkDelimiter (lexeme : String) : Built limit (checkDelimiter lexeme) :=
  next.bind fun _ => pure _

/-- A failure at a given token is one failure. -/
theorem failAt (token : Token) (cause : ParseError.Cause) :
    Built limit (failAt token cause : Parse β) :=
  throw _

/-- A failure at the next token is a look and a failure. -/
theorem fail (cause : ParseError.Cause) : Built limit (fail cause : Parse β) :=
  next.bind fun token => failAt token cause

/-- To look at the token behind the cursor is a look. -/
theorem previous : Built limit (do return (← get).previous) :=
  look ParseState.previous fun _ _ => rfl

/-- The cursor is moved, and then there is a look at the token it was moved over. -/
theorem advance : Built limit advance :=
  move.bind fun _ => previous

/-- An optional delimiter is a look and perhaps a move. -/
theorem matchDelimiter (lexeme : String) : Built limit (matchDelimiter lexeme) :=
  (checkDelimiter lexeme).bind fun _ => .ite (advance.discard.bind fun _ => pure true) (pure false)

/-- A token that has to be there is a look, and a move or a failure. -/
theorem consumeIf (test : Token → Bool) (what : String) : Built limit (consumeIf test what) :=
  next.bind fun _ => .ite advance (fail _)

/-- A token of some kind is one that has to be there. -/
theorem consume (kind : TokenKind) (what : String) : Built limit (consume kind what) :=
  consumeIf _ what

/-- A delimiter is a token that has to be there. -/
theorem consumeDelimiter (lexeme what : String) : Built limit (consumeDelimiter lexeme what) :=
  consumeIf _ what

/-- A value may be given behind a delimiter. -/
theorem consumeDelimiter_pure (lexeme what : String) (b : β) :
    Built limit (Functor.discard (Parse.consumeDelimiter lexeme what) >>= fun _ => Pure.pure b) :=
  (consumeDelimiter lexeme what).discard.bind fun _ => .pure b

end Built

end Parse

/-! ### The grammar -/

namespace Grammar

open Parse

variable {limit : Int}

/-- A member is a dot and a name to be passed. -/
theorem built_member (object : Tree) : Built limit (member object) :=
  Built.advance.discard.bind fun _ => (Built.consume _ _).bind fun _ => .pure _

/-- A type is there behind a colon only. -/
theorem built_typeAfterColon (what : String) : Built limit (typeAfterColon what) :=
  (Built.matchDelimiter ":").bind fun _ =>
    .ite ((Built.consume _ _).bind fun _ => .pure _) (.pure none)

/-- A parameter is a name and perhaps a type. -/
theorem built_param : Built limit param :=
  (Built.consume _ _).bind fun _ => (built_typeAfterColon _).bind fun _ => .pure _

/-- Further parameters are commas and parameters in a row. -/
theorem built_furtherParams (room : List Token) : Built limit (furtherParams room) := by
  induction room with
  | nil => exact .pure []
  | cons _ room ih =>
    exact (Built.matchDelimiter ",").bind fun _ =>
      .ite (built_param.bind fun _ => ih.bind fun _ => .pure _) (.pure [])

/-- Parameters are none at all, or one and further ones, in front of a parenthesis. -/
theorem built_paramsBehind (opening : Token) : Built limit (paramsBehind opening) := by
  refine (Built.checkDelimiter ")").bind fun _ => .ite (.consumeDelimiter_pure _ _ _) ?_
  exact built_param.bind fun _ => Built.room.bind fun _ =>
    (built_furtherParams _).bind fun _ => .consumeDelimiter_pure _ _ _

/-- Parameters start from a look at the parenthesis that was passed. -/
theorem built_params : Built limit params :=
  Built.previous.bind fun _ => built_paramsBehind _

/-- An import is made of tokens to be passed, with a look at the path. -/
theorem built_importUnit : Built limit importUnit := by
  refine (Built.consumeDelimiter _ _).discard.bind fun _ => Built.next.bind fun path => ?_
  refine .ite ((Built.fail _).bind fun _ => ?_) ?_
  · exact Built.advance.discard.bind fun _ => (Built.consumeDelimiter _ _).discard.bind fun _ =>
      .consumeDelimiter_pure _ _ _
  · exact Built.advance.discard.bind fun _ => (Built.consumeDelimiter _ _).discard.bind fun _ =>
      .consumeDelimiter_pure _ _ _

/-- Whether a declaration starts here is looked up from three tokens. -/
theorem built_startsDeclaration : Built limit startsDeclaration :=
  .look (fun s => (s.peek 1).kind == .typeName || (s.peek 1).is .assignOperator "=") fun _ _ => rfl

section

variable {inner : Production → Parse Tree}
  (hinner : ∀ production, Built limit (inner production))
include hinner

/-! ### Expressions -/

/-- What an expression starts with is one token, or an expression in parentheses one level
deeper. -/
theorem built_primary : Built limit (primary inner) := by
  refine Built.next.bind fun token => ?_
  have leaf (tree : Tree) : Built limit (do discard advance; return tree) :=
    Built.advance.discard.bind fun _ => .pure tree
  cases literalKind? token.kind with
  | some kind => exact leaf _
  | none =>
    refine .ite (leaf _) (.ite (leaf _) (.ite ?_ (.fail _)))
    exact Built.advance.discard.bind fun _ => (hinner .expression).bind fun _ =>
      (Built.consumeDelimiter _ _).discard.bind fun _ => .pure _

/-- Further arguments are commas and expressions in a row, with a comma left over at the end. -/
theorem built_furtherArguments (room : List Token) :
    Built limit (furtherArguments inner room) := by
  induction room with
  | nil => exact .pure []
  | cons _ room ih =>
    refine (Built.matchDelimiter ",").bind fun _ => .ite ?_ (.pure [])
    exact (Built.checkDelimiter ")").bind fun _ =>
      .ite (.pure []) ((hinner .expression).bind fun _ => ih.bind fun _ => .pure _)

/-- A call is its arguments in parentheses. -/
theorem built_call (callee : Tree) : Built limit (call inner callee) := by
  refine Built.advance.discard.bind fun _ =>
    (Built.checkDelimiter ")").bind fun _ => .ite (.consumeDelimiter_pure _ _ _) ?_
  exact (hinner .expression).bind fun _ => Built.room.bind fun _ =>
    (built_furtherArguments hinner _).bind fun _ => .consumeDelimiter_pure _ _ _

/-- Calls and members follow each other as long as there are any. -/
theorem built_suffixes (room : List Token) (tree : Tree) :
    Built limit (suffixes inner room tree) := by
  induction room generalizing tree with
  | nil => exact .pure tree
  | cons _ room ih =>
    refine (Built.checkDelimiter "(").bind fun _ =>
      .ite ((built_call hinner tree).bind ih) ?_
    exact (Built.checkDelimiter ".").bind fun _ => .ite ((built_member tree).bind ih) (.pure tree)

/-- An expression with its calls and members is put together from the two. -/
theorem built_suffixed : Built limit (suffixed inner) :=
  (built_primary hinner).bind fun _ => Built.room.bind fun _ => built_suffixes hinner _ _

/-- A sign stands in front of an operand one level deeper. -/
theorem built_unary : Built limit (unary inner) := by
  refine Built.next.bind fun _ => .ite ?_ (built_suffixed hinner)
  exact Built.advance.discard.bind fun _ => (hinner .operand).bind fun _ => .pure _

omit hinner in
/-- Operators and right operands follow each other, if the right operands are put together. -/
theorem built_climb {right : Nat → Parse Tree} (hright : ∀ m, Built limit (right m)) (least : Nat)
    (room : List Token) (left : Tree) : Built limit (climb right least room left) := by
  induction room generalizing left with
  | nil => exact .pure left
  | cons _ room ih =>
    refine Built.next.bind fun _ => .ite ?_ (.pure left)
    exact Built.advance.discard.bind fun _ => (hright _).bind fun _ => ih _

/-- An expression between operators is an operand with operators and operands behind it. -/
theorem built_binaryWithin (levels least : Nat) :
    Built limit (binaryWithin inner levels least) := by
  induction levels generalizing least with
  | zero => exact built_unary hinner
  | succ levels ih =>
    exact (built_unary hinner).bind fun _ => Built.room.bind fun _ => built_climb ih _ _ _

/-- That holds from every level of precedence on. -/
theorem built_binary (least : Nat) : Built limit (binary inner least) :=
  built_binaryWithin hinner _ _

/-- An assignment has an operator and an expression behind its left side. -/
theorem built_assignment : Built limit (assignment inner) := by
  refine (built_binary hinner 0).bind fun left => (Built.check _).bind fun _ => .ite ?_ (.pure left)
  exact Built.advance.bind fun _ => (hinner .expression).bind fun _ => .pure _

/-! ### Statements -/

/-- A statement is noted as entered and then read one level deeper. -/
theorem built_statement : Built limit (statement inner) :=
  .bind .enter fun _ => hinner .statement

/-- Statements follow each other up to an end, which is looked at before each of them. -/
theorem built_statementsUntil (isEnd : Token → Bool) (room : List Token) :
    Built limit (statementsUntil inner isEnd room) := by
  induction room with
  | nil => exact .pure []
  | cons _ room ih =>
    exact Built.next.bind fun _ =>
      .ite (.pure []) ((built_statement hinner).bind fun _ => ih.bind fun _ => .pure _)

/-- An expression as a statement has a semicolon behind it. -/
theorem built_expressionStatement : Built limit (expressionStatement inner) :=
  (hinner .expression).bind fun _ => (Built.consumeDelimiter _ _).discard.bind fun _ => .pure _

/-- The value of a declaration has a semicolon behind it. -/
theorem built_initialValue : Built limit (initialValue inner) :=
  (hinner .expression).bind fun _ => (Built.matchDelimiter _).discard.bind fun _ => .pure _

/-- A declaration has a value, or a type and then a value or a statement. -/
theorem built_declaration (isConst : Bool) : Built limit (declaration inner isConst) := by
  refine (Built.consume _ _).bind fun register => (Built.check _).bind fun _ => .ite ?_ ?_
  · refine Built.advance.bind fun _ => (Built.pure _).bind fun _ => ?_
    refine (Built.checkIs _ _).bind fun _ => .ite ?_ ?_
    · exact Built.advance.discard.bind fun _ => (built_initialValue hinner).bind fun _ => .pure _
    · exact (built_statement hinner).bind fun _ => .pure _
  · exact (Built.consumeIf _ _).discard.bind fun _ =>
      (built_initialValue hinner).bind fun _ => .pure _

/-- A return has a value or none. -/
theorem built_returning : Built limit (returning inner) := by
  refine Built.advance.bind fun keyword => (Built.checkDelimiter ";").bind fun _ => ?_
  refine .ite (.consumeDelimiter_pure _ _ _) ?_
  exact ((hinner .expression).map some).bind fun _ => .consumeDelimiter_pure _ _ _

/-- A block is statements between braces. -/
theorem built_block : Built limit (block inner) :=
  (Built.consumeDelimiter _ _).bind fun _ => Built.room.bind fun _ =>
    (built_statementsUntil hinner _ _).bind fun _ => .consumeDelimiter_pure _ _ _

/-- A function is its name, parameters, type and block in a row. -/
theorem built_function : Built limit (function inner) :=
  (Built.consume _ _).bind fun _ => (Built.consumeDelimiter _ _).discard.bind fun _ =>
    built_params.bind fun _ => (built_typeAfterColon _).bind fun _ =>
      (built_block hinner).bind fun _ => .pure _

/-- A loop is its condition, its capture and its block in a row. -/
theorem built_whileLoop (keyword : Token) : Built limit (whileLoop inner keyword) := by
  refine (Built.consumeDelimiter _ _).discard.bind fun _ =>
    (hinner .expression).bind fun condition => (Built.consumeDelimiter _ _).discard.bind fun _ =>
      (Built.matchDelimiter "|").bind fun _ => .ite ?_ ((built_block hinner).bind fun _ => .pure _)
  exact (built_primary hinner).bind fun _ => (Built.consumeDelimiter _ _).discard.bind fun _ =>
    (built_block hinner).bind fun _ => .pure _

/-- What is behind an at sign is chosen by the directive, or fails. -/
theorem built_directive : Built limit (directive inner) := by
  refine Built.advance.bind fun keyword => ?_
  cases Directive.ofWord? keyword.lexeme with
  | none => exact .throw _
  | some d =>
    cases d with
    | importUnit => exact built_importUnit
    | const => exact built_declaration hinner true
    | func => exact built_function hinner
    | whileLoop => exact built_whileLoop hinner keyword
    | typeOf | forLoop => exact .failAt _ _

/-- A statement is chosen by the token that it starts with. -/
theorem built_statementBody : Built limit (statementBody inner) := by
  have hexpression := built_expressionStatement hinner
  refine Built.next.bind fun token => ?_
  split
  · exact built_startsDeclaration.bind fun _ => .ite (built_declaration hinner false) hexpression
  · exact .ite (built_returning hinner) (.ite hexpression (.fail _))
  · exact built_directive hinner
  · exact .ite hexpression (.fail _)

/-- Every production is put together, if those one level deeper are. -/
theorem built_body (production : Production) : Built limit (body inner production) := by
  cases production with
  | statement => exact built_statementBody hinner
  | expression => exact built_assignment hinner
  | operand => exact built_unary hinner

end

/-- So is every production on any number of levels, each of which is a level of nesting below the
limit. -/
theorem built_produceWithin (limit : Int) (levels : Nat) (production : Production) :
    Built limit (produceWithin limit levels production) := by
  induction levels generalizing production with
  | zero => exact .fail _
  | succ levels ih => exact (built_body ih production).nested

/-- All productions are put together. -/
theorem built_produce (limit : Int) (production : Production) :
    Built limit (produce limit production) :=
  (Built.look ParseState.depth fun _ _ => rfl).bind fun depth =>
    built_produceWithin limit (limit - depth).toNat production

end Grammar

end RegisterLang
