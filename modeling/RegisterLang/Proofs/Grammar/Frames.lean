import RegisterLang.Grammar.Framed
import RegisterLang.Proofs.Grammar.Program
import RegisterLang.Proofs.Node.Walk

/-!
# Frames of readings

Reading in frames is reading, as long as there are frames for it. Each part of the grammar needs so
many more than what it calls. From one level of nesting to the next there are at most fourteen
calls, since operands between operators are read on higher and higher levels of precedence. So the
limit on nesting bounds the calls of the grammar.
-/

namespace RegisterLang

variable {β γ : Type}

namespace Framed

section

variable {step : Framed β} {further : β → Framed γ} {frames : Nat} {s s' : ParseState} {b : β}

/-- Behind a step that has a value, the next one goes on. -/
theorem bind_of_some (h : (step frames).run s = .ok (some b) s') :
    ((step >>= further) frames).run s = (further b frames).run s' :=
  bind_of_eq_ok h

/-- Behind a step that was broken off, nothing goes on. -/
theorem bind_of_none (h : (step frames).run s = .ok none s') :
    ((step >>= further) frames).run s = .ok none s' :=
  bind_of_eq_ok h

/-- Behind a step that failed, nothing goes on. -/
theorem bind_of_error {e : ParseFailure} (h : (step frames).run s = .error e s') :
    ((step >>= further) frames).run s = .error e s' :=
  bind_of_eq_error h

end

/-- The step does what the plain step does, or it is broken off. It is not broken off when it has as
many frames as it needs. -/
def Follows (need : Nat) (step : Framed β) (plain : Parse β) : Prop :=
  ∀ frames s, (step frames).run s = (some <$> plain) s ∨
    frames < need ∧ ∃ s', (step frames).run s = .ok none s'

namespace Follows

variable {need more : Nat} {step step' : Framed β} {plain plain' : Parse β}

/-- More frames than a step needs do no harm. -/
theorem mono (h : Follows need step plain) (hle : need ≤ more) : Follows more step plain :=
  fun frames s => (h frames s).imp_right fun ⟨hlt, hnone⟩ => ⟨by omega, hnone⟩

/-- A value needs no frame. -/
theorem pure {b : β} : Follows need (pure b) (pure b) :=
  fun _ _ => .inl rfl

/-- Steps over the tokens need no frames. -/
theorem lift : Follows need (liftM plain) plain :=
  fun _ _ => .inl rfl

/-- Two steps in a row are broken off where one of them is. -/
theorem bind {further : β → Framed γ} {further' : β → Parse γ} (hstep : Follows need step plain)
    (hfurther : ∀ b, Follows need (further b) (further' b)) :
    Follows need (step >>= further) (plain >>= further') := by
  intro frames s
  rw [map_bind]
  rcases hstep frames s with h | ⟨hlt, s', h⟩
  · cases hplain : plain s with
    | ok b s' =>
      rw [map_eq_ok.mpr ⟨b, hplain, rfl⟩] at h
      rw [bind_of_some h, bind_of_eq_ok hplain]
      exact hfurther b frames s'
    | error e s' =>
      rw [map_eq_error.mpr hplain] at h
      exact .inl ((bind_of_error h).trans (bind_of_eq_error hplain).symm)
  · exact .inr ⟨hlt, s', bind_of_none h⟩

/-- To change the value of a step takes no frame. -/
theorem map {f : β → γ} (h : Follows need step plain) :
    Follows need (f <$> step) (f <$> plain) := by
  rw [map_eq_pure_bind, map_eq_pure_bind]
  exact h.bind fun _ => .pure

/-- A look at the tokens, or a move over them, needs no frames. -/
theorem reads {look : Parse β} {further : β → Framed γ} {further' : β → Parse γ}
    (hfurther : ∀ b, Follows need (further b) (further' b)) :
    Follows need (liftM look >>= further) (look >>= further') :=
  lift.bind hfurther

/-- A move over tokens that are not looked at again. -/
theorem passes {move : Parse γ} (hfurther : Follows need step plain) :
    Follows need (discard (liftM move) >>= fun _ => step) (discard move >>= fun _ => plain) := by
  have hmove : Follows need (liftM move) move := lift
  have hdiscard : Follows need (discard (liftM move)) (discard move) := hmove.bind fun _ => .pure
  exact hdiscard.bind fun _ => hfurther

/-- A choice needs as many frames as the branch that needs more. -/
theorem ite {test : Prop} [Decidable test] (h : Follows need step plain)
    (h' : Follows need step' plain') :
    Follows need (if test then step else step') (if test then plain else plain') := by
  split
  · exact h
  · exact h'

/-- A call takes a frame. -/
theorem framed (h : Follows need step plain) : Follows (need + 1) (Reader.framed step) plain := by
  intro frames s
  cases frames with
  | zero => exact .inr ⟨Nat.succ_pos need, s, rfl⟩
  | succ frames => exact (h frames s).imp_right fun ⟨hlt, hnone⟩ => ⟨by omega, hnone⟩

/-- To open a level of nesting takes no frame. -/
theorem nested {limit : Int} (h : Follows need step plain) :
    Follows need (Reader.nested limit step) (Parse.nested limit plain) := by
  intro frames s
  change Parse.nested limit (step frames).run s = _ ∨
    _ ∧ ∃ s', Parse.nested limit (step frames).run s = _
  by_cases hdeep : limit ≤ s.depth
  · left
    rw [Parse.nested_run_of_le hdeep, map_eq_error.mpr (Parse.nested_run_of_le hdeep)]
  · rw [Parse.nested_run hdeep]
    rcases h frames { s with depth := s.depth + 1 } with h | ⟨hlt, s', h⟩
    · left
      rw [h]
      cases hplain : plain { s with depth := s.depth + 1 } with
      | ok b s' =>
        rw [map_eq_ok.mpr ⟨b, hplain, rfl⟩,
          map_eq_ok.mpr ⟨b, Parse.nested_eq_ok.mpr ⟨hdeep, s', hplain, rfl⟩, rfl⟩]
        rfl
      | error e s' =>
        rw [map_eq_error.mpr hplain,
          map_eq_error.mpr (Parse.nested_eq_error.mpr (.inr ⟨hdeep, s', hplain, rfl⟩))]
        rfl
    · exact .inr ⟨hlt, _, congrArg Parse.closing h⟩

/-- Nodes other than documents are only made. -/
theorem make {location : Location} {node : Location → Tree}
    (hkind : (node location).kind ≠ .document) :
    Follows need (Reader.make location node) (Pure.pure (node location)) := by
  intro frames s
  left
  change (if (node location).kind = .document ∧ _ then (failure : OptionT Parse Tree)
    else Pure.pure (node location)).run s = _
  rw [if_neg fun h => hkind h.1]
  rfl

end Follows

end Framed

namespace Grammar

open Framed Parse

variable {n : Nat}

/-! ### Parts that open no level -/

/-- A name needs no frame. -/
theorem follows_identifier {token : Token} :
    Follows n (identifier token) (identifier token) :=
  .make nofun

/-- A member needs no frame: a name is passed. -/
theorem follows_member {object : Tree} : Follows n (member object) (member object) :=
  .passes (.reads fun _ => follows_identifier.bind fun _ => .make nofun)

/-- A type needs no frame: a colon and a name are passed. -/
theorem follows_typeAfterColon {what : String} :
    Follows n (typeAfterColon what) (typeAfterColon what) :=
  .reads fun _ => .ite (.reads fun _ => follows_identifier.bind fun _ => .pure) .pure

/-- A parameter calls for nothing that takes a frame. -/
theorem follows_param : Follows n param param :=
  .reads fun _ => follows_typeAfterColon.bind fun _ =>
    .bind (.make nofun) fun _ => .make nofun

/-- Each further parameter is a call. They stand side by side, so one frame is enough for all. -/
theorem follows_furtherParams (room : List Token) :
    Follows (n + 1) (furtherParams room) (furtherParams room) := by
  induction room with
  | nil => exact .pure
  | cons _ room ih =>
    exact .reads fun _ => .ite (follows_param.framed.bind fun _ => ih.bind fun _ => .pure) .pure

/-- Each of the parameters is a call. -/
theorem follows_paramsBehind {opening : Token} :
    Follows (n + 1) (paramsBehind opening) (paramsBehind opening) := by
  refine .reads fun _ => .ite (.passes (.make nofun)) ?_
  exact .bind follows_param.framed fun _ => .reads fun room =>
    (follows_furtherParams room).bind fun _ => .passes (.make nofun)

/-- Parameters start from a look at the parenthesis that was passed. -/
theorem follows_params : Follows (n + 1) params params :=
  .reads fun _ => follows_paramsBehind

/-- An import needs no frame: tokens are passed. -/
theorem follows_importUnit : Follows n importUnit importUnit := by
  -- What is behind the path is passed after the check, whether it rejects the path or not.
  refine .passes (.reads fun path => .ite (.reads fun _ => ?_) ?_)
  · exact .passes (.passes (.passes (.make nofun)))
  · exact .passes (.passes (.passes (.make nofun)))

/-! ### Expressions -/

/-- So many calls for operands between operators may be open inside each other, from a level of
precedence on. -/
def stairs (least : Nat) : Nat :=
  9 - max least 1

/-- Right operands are calls. They stand side by side on each level of precedence, so the frames for
the highest one are enough. -/
theorem follows_climb {need : Nat} {right : Nat → Framed Tree} {right' : Nat → Parse Tree}
    {least : Nat} (hright : ∀ op, rank op ≠ 0 → least ≤ rank op →
      Follows need (right (rank op + 1)) (right' (rank op + 1)))
    (room : List Token) (left : Tree) :
    Follows (need + 1) (climb right least room left) (climb right' least room left) := by
  induction room generalizing left with
  | nil => exact .pure
  | cons _ room ih =>
    refine .reads fun op => ?_
    by_cases hop : op.kind = .binaryOperator ∧ rank op.lexeme ≠ 0 ∧ least ≤ rank op.lexeme
    · rw [if_pos hop, if_pos hop]
      have hoperand := (hright op.lexeme hop.2.1 hop.2.2).framed
      exact .passes (hoperand.bind fun _ => .bind (.make nofun) fun _ => ih _)
    · rw [if_neg hop, if_neg hop]
      exact .pure

section

variable {inner : Production → Framed Tree} {inner' : Production → Parse Tree}
  (hinner : ∀ production, Follows n (inner production) (inner' production))
include hinner

/-- An expression is a call. -/
theorem follows_expression : Follows (n + 1) (expression inner) (expression inner') :=
  (hinner .expression).framed

/-- What an expression starts with may be an expression in parentheses, which is a call. -/
theorem follows_primary : Follows (n + 1) (primary inner) (primary inner') := by
  refine .reads fun token => ?_
  cases literalKind? token.kind with
  | some kind => exact .passes (.make nofun)
  | none =>
    refine .ite (.passes (.make nofun)) (.ite (.passes (.make nofun)) (.ite ?_ .lift))
    exact .passes ((follows_expression hinner).bind fun _ => .passes .pure)

/-- Each further argument is a call. They stand side by side. -/
theorem follows_furtherArguments (room : List Token) :
    Follows (n + 1) (furtherArguments inner room) (furtherArguments inner' room) := by
  induction room with
  | nil => exact .pure
  | cons _ room ih =>
    refine .reads fun _ => .ite (.reads fun _ => .ite .pure ?_) .pure
    exact (follows_expression hinner).bind fun _ => ih.bind fun _ => .pure

/-- Each argument of a call is a call. -/
theorem follows_call {callee : Tree} :
    Follows (n + 1) (call inner callee) (call inner' callee) := by
  refine .passes (.reads fun _ => .ite (.passes (.make nofun)) ?_)
  exact (follows_expression hinner).bind fun _ => .reads fun room =>
    (follows_furtherArguments hinner room).bind fun _ => .passes (.make nofun)

/-- Calls behind an expression stand side by side. Their arguments are calls inside of them. -/
theorem follows_suffixes (room : List Token) (tree : Tree) :
    Follows (n + 2) (suffixes inner room tree) (suffixes inner' room tree) := by
  induction room generalizing tree with
  | nil => exact .pure
  | cons _ room ih =>
    refine .reads fun _ => .ite ?_ (.reads fun _ => .ite ?_ .pure)
    · exact (follows_call hinner).framed.bind fun _ => ih _
    · exact follows_member.bind fun _ => ih _

/-- What an expression starts with is a call, and so is each call behind it. -/
theorem follows_suffixed : Follows (n + 2) (suffixed inner) (suffixed inner') :=
  (follows_primary hinner).framed.bind fun _ => .reads fun room => follows_suffixes hinner room _

/-- Behind a sign there is an operand, otherwise an expression with its calls and members. -/
theorem follows_unary : Follows (n + 3) (unary inner) (unary inner') := by
  refine .reads fun token => .ite (.passes ?_) (follows_suffixed hinner).framed
  exact ((hinner .operand).mono (by omega)).bind fun _ => .make nofun

/-- From a level of precedence on, an operand takes four calls, and between the operators every
higher level takes one more. -/
theorem follows_binaryWithin (levels least : Nat) :
    Follows (n + 4 + stairs least) (binaryWithin inner levels least)
      (binaryWithin inner' levels least) := by
  induction levels generalizing least with
  | zero => exact (follows_unary hinner).framed.mono (by omega)
  | succ levels ih =>
    refine ((follows_unary hinner).framed.mono (by omega)).bind fun left => .reads fun room => ?_
    -- A right operand starts on the level above its operator, from which the stairs are shorter.
    have hright (op : String) (hrank : rank op ≠ 0) (hleast : least ≤ rank op) :
        Follows (n + 3 + stairs least) (binaryWithin inner levels (rank op + 1))
          (binaryWithin inner' levels (rank op + 1)) := by
      have hle := rank_le op
      exact (ih (rank op + 1)).mono (by simp only [stairs]; omega)
    exact (follows_climb hright room left).mono (by omega)

/-- An assignment has a right side one level deeper. Its left side starts on the lowest level of
precedence, below which there are all the others. -/
theorem follows_assignment : Follows (n + 13) (assignment inner) (assignment inner') := by
  have hbinary : Follows (n + 12) (binary inner 0) (binary inner' 0) :=
    follows_binaryWithin hinner topRank 0
  refine hbinary.framed.bind fun left => .reads fun _ => .ite (.reads fun op => ?_) .pure
  exact ((hinner .expression).mono (by omega)).bind fun _ => .make nofun

/-! ### Statements -/

/-- A statement is the call that is one level deeper. -/
theorem follows_statement : Follows n (statement inner) (statement inner') :=
  .reads fun _ => hinner .statement

/-- Each statement is a call. They stand side by side. -/
theorem follows_statementsUntil (isEnd : Token → Bool) (room : List Token) :
    Follows (n + 1) (statementsUntil inner isEnd room) (statementsUntil inner' isEnd room) := by
  induction room with
  | nil => exact .pure
  | cons _ room ih =>
    refine .reads fun _ => .ite .pure ?_
    exact (follows_statement hinner).framed.bind fun _ => ih.bind fun _ => .pure

/-- An expression as a statement is a call. -/
theorem follows_expressionStatement :
    Follows (n + 1) (expressionStatement inner) (expressionStatement inner') :=
  (follows_expression hinner).bind fun _ => .passes .pure

/-- The value of a declaration is a call. -/
theorem follows_initialValue : Follows (n + 1) (initialValue inner) (initialValue inner') :=
  (follows_expression hinner).bind fun _ => .passes .pure

/-- A declaration calls for its value, or for a statement when it has no value of its own. -/
theorem follows_declaration (isConst : Bool) :
    Follows (n + 1) (declaration inner isConst) (declaration inner' isConst) := by
  refine .reads fun register => .reads fun _ => .ite ?_ (.passes ?_)
  · refine .reads fun typeName => follows_identifier.bind fun typeName => .reads fun _ => .ite ?_ ?_
    · exact .passes ((follows_initialValue hinner).bind fun _ => .make nofun)
    · exact (follows_statement hinner).framed.bind fun _ => .make nofun
  · exact (follows_initialValue hinner).bind fun _ => .make nofun

/-- A return calls for its value. -/
theorem follows_returning : Follows (n + 1) (returning inner) (returning inner') := by
  refine .reads fun keyword => .reads fun _ => .ite (.passes (.make nofun)) ?_
  exact (follows_expression hinner).map.bind fun _ => .passes (.make nofun)

/-- A block calls for its statements. -/
theorem follows_block : Follows (n + 1) (block inner) (block inner') :=
  .reads fun _ => .reads fun room => (follows_statementsUntil hinner _ room).bind fun _ =>
    .passes (.make nofun)

/-- A function calls for its parameters and for its block, which calls for statements. -/
theorem follows_function : Follows (n + 2) (function inner) (function inner') := by
  refine .reads fun name => .passes (.bind (follows_params (n := n)).framed fun _ => ?_)
  exact follows_typeAfterColon.bind fun _ => (follows_block hinner).framed.bind fun _ => .make nofun

/-- A loop calls for its condition, for its capture and for its block. -/
theorem follows_whileLoop (keyword : Token) :
    Follows (n + 2) (whileLoop inner keyword) (whileLoop inner' keyword) := by
  refine .passes (((follows_expression hinner).mono (by omega)).bind fun condition => .passes ?_)
  refine .reads fun _ => .ite ?_ ((follows_block hinner).framed.bind fun _ => .make nofun)
  exact (follows_primary hinner).framed.bind fun capture => .passes
    ((follows_block hinner).framed.bind fun _ => .make nofun)

/-- What is behind an at sign is a call, and a constant is two. -/
theorem follows_directive : Follows (n + 3) (directive inner) (directive inner') := by
  refine .reads fun keyword => ?_
  cases Directive.ofWord? keyword.lexeme with
  | none => exact .lift
  | some kind =>
    cases kind with
    | importUnit => exact follows_importUnit.framed
    | const => exact (follows_declaration hinner true).framed.framed
    | func => exact (follows_function hinner).framed
    | whileLoop => exact (follows_whileLoop hinner keyword).framed
    | typeOf | forLoop => exact Follows.lift.framed

/-- A statement is chosen by the token that it starts with. The longest way is the one over a
directive. -/
theorem follows_statementBody : Follows (n + 4) (statementBody inner) (statementBody inner') := by
  refine .reads fun token => ?_
  have hexpression := (follows_expressionStatement hinner).framed.mono (by omega : n + 2 ≤ n + 4)
  cases token.kind with
  | register =>
    have hdeclaration := (follows_declaration hinner false).framed.mono (by omega : n + 2 ≤ n + 4)
    exact .reads fun _ => .ite hdeclaration hexpression
  | keyword =>
    have hreturning := (follows_returning hinner).framed.mono (by omega : n + 2 ≤ n + 4)
    exact .ite hreturning (.ite hexpression .lift)
  | directive => exact (follows_directive hinner).framed
  | _ => exact .ite hexpression .lift

/-- On one level there are at most fourteen calls inside each other, those of an expression. -/
theorem follows_body (production : Production) :
    Follows (n + 14) (body inner production) (body inner' production) := by
  cases production with
  | statement => exact (follows_statementBody hinner).mono (by omega)
  | expression => exact (follows_assignment hinner).framed
  | operand => exact (follows_unary hinner).framed.mono (by omega)

end

/-! ### Whole readings -/

/-- From one level of nesting to the next one there are at most fourteen calls. -/
theorem follows_produceWithin (limit : Int) (levels : Nat) (production : Production) :
    Follows (14 * levels) (produceWithin limit levels production)
      (produceWithin limit levels production) := by
  induction levels generalizing production with
  | zero => exact .lift
  | succ levels ih => exact ((follows_body ih production).mono (by omega)).nested

/-- The limit on nesting bounds the levels, and so the calls. -/
theorem follows_produce (limit : Int) (production : Production) :
    Follows (14 * limit.toNat) (produce limit production) (produce limit production) :=
  .reads fun s => (follows_produceWithin limit _ production).mono (by omega)

/-- A lone expression is one call more. -/
theorem follows_loneExpression (limit : Int) :
    Follows (14 * limit.toNat + 1) (loneExpression limit) (loneExpression limit) :=
  (follows_expression (follows_produce limit)).bind fun _ => .reads fun _ => .ite .pure .lift

/-- A document is made, unless there are too few frames to walk over it. -/
theorem make_document_run (location : Location) (statements : List Tree) (frames : Nat)
    (s : ParseState) :
    ((Reader.make location (.document · statements) : Framed Tree) frames).run s =
      if frames < (Node.document location statements).height then .ok none s
      else .ok (some (.document location statements)) s := by
  change (if (Node.document location statements).kind = .document ∧
      (Node.document location statements).walkWithin frames = none
    then (failure : OptionT Parse Tree)
    else pure (.document location statements)).run s = _
  by_cases hhigh : frames < (Node.document location statements).height
  · rw [if_pos ⟨rfl, Node.walkWithin_eq_none_iff.mpr hhigh⟩, if_pos hhigh]
    rfl
  · rw [if_neg fun h => hhigh (Node.walkWithin_eq_none_iff.mp h.2), if_neg hhigh]
    rfl

/-- Where statements are read and a document is made of them, that is done as in the plain way, or
it is broken off: because the statements are, or because the document is too high. -/
theorem document_cases {need : Nat} {step : Framed (List Tree)} {plain : Parse (List Tree)}
    (h : Follows need step plain) (location : Location) (frames : Nat) (s : ParseState) :
    let run := ((step >>= fun list => Reader.make location (.document · list) : Framed Tree)
      frames).run s
    let result : Parse Tree := plain >>= fun list => pure (.document location list)
    (run = (some <$> result) s ∧ ∀ tree s', result s = .ok tree s' → tree.height ≤ frames) ∨
    (∃ s', run = .ok none s') ∧
      (frames < need ∨ ∃ tree s', result s = .ok tree s' ∧ frames < tree.height) := by
  intro run result
  rcases h frames s with h | ⟨hlt, s', h⟩
  · cases hplain : plain s with
    | ok list s' =>
      rw [map_eq_ok.mpr ⟨list, hplain, rfl⟩] at h
      have hresult : result s = .ok (.document location list) s' := bind_of_eq_ok hplain
      have hrun : run = _ := (bind_of_some h).trans (make_document_run location list frames s')
      rw [hrun]
      by_cases hhigh : frames < (Node.document location list).height
      · rw [if_pos hhigh]
        exact .inr ⟨⟨s', rfl⟩, .inr ⟨_, s', hresult, hhigh⟩⟩
      · rw [if_neg hhigh]
        refine .inl ⟨(map_eq_ok.mpr ⟨_, hresult, rfl⟩).symm, fun tree s'' hother => ?_⟩
        rw [hresult] at hother
        cases hother
        exact Nat.le_of_not_lt hhigh
    | error e s' =>
      rw [map_eq_error.mpr hplain] at h
      have hresult : result s = .error e s' := bind_of_eq_error hplain
      have hrun : run = .error e s' := bind_of_error h
      refine .inl ⟨hrun.trans (map_eq_error.mpr hresult).symm, fun tree s'' hother => ?_⟩
      rw [hresult] at hother
      cases hother
  · exact .inr ⟨⟨s', bind_of_none h⟩, .inl hlt⟩

end Grammar

namespace Goal

/-- How many frames are needed when a tree has been read: only a document walks over it. -/
def lastFrames : Goal → Tree → Nat
  | program, tree => tree.height
  | expression, _ => 0

/-- Reading in frames is reading, unless it is broken off. That only happens for two reasons: there
are too few frames for the limit on nesting, or for the tree. -/
theorem readAll_cases (goal : Goal) (limit : Int) (frames : Nat) (s : ParseState) :
    (((goal.readAll limit : Framed Tree) frames).run s = (some <$> goal.parse limit) s ∧
      ∀ tree s', goal.parse limit s = .ok tree s' → goal.lastFrames tree ≤ frames) ∨
    (∃ s', ((goal.readAll limit : Framed Tree) frames).run s = .ok none s') ∧
      (frames ≤ 14 * limit.toNat ∨
        ∃ tree s', goal.parse limit s = .ok tree s' ∧ frames < goal.lastFrames tree) := by
  cases goal with
  | expression =>
    rcases Grammar.follows_loneExpression limit frames s.rewind with h | ⟨hlt, s', h⟩
    · exact .inl ⟨h, fun _ _ _ => Nat.zero_le _⟩
    · exact .inr ⟨⟨s', h⟩, .inl (by omega)⟩
  | program =>
    have hstatements := Grammar.follows_statementsUntil (Grammar.follows_produce limit)
      (·.kind == .endOfInput) s.rewind.rest
    rcases Grammar.document_cases hstatements s.rewind.next.location frames s.rewind with
      hread | ⟨hnone, hlacks⟩
    · exact .inl hread
    · exact .inr ⟨hnone, hlacks.imp_left Nat.le_of_lt_succ⟩

end Goal

/-! ### Readings on an interpreter -/

section

variable {i : Interpreter} {goal : Goal} {limit : Int}

/-- An interpreter reads a token list as it is read, or breaks off. It breaks off when it has too
few frames for the limit on nesting or for the tree, or when it cannot tell a failure. -/
theorem interpreter_parseTokens_cases (tokens : List Token) :
    (i.parseTokens goal limit tokens = .ok (parseTokens goal limit tokens) ∧
      ∀ tree, parseTokens goal limit tokens = .ok tree → goal.lastFrames tree ≤ i.frames) ∨
    (i.parseTokens goal limit tokens = .error .recursion ∧
      (i.frames ≤ 14 * limit.toNat ∨
        ∃ tree, parseTokens goal limit tokens = .ok tree ∧ i.frames < goal.lastFrames tree)) ∨
    (i.parseTokens goal limit tokens = .error .digits ∧
      ∃ failure, parseTokens goal limit tokens = .error failure ∧ i.tells failure = false) := by
  cases hstart : ParseState.ofTokens tokens with
  | error failure =>
    have hplain : parseTokens goal limit tokens = .error failure := by
      rw [parseTokens, hstart]
      rfl
    rw [hplain, Interpreter.parseTokens, hstart]
    exact .inl ⟨rfl, fun _ htree => by cases htree⟩
  | ok start =>
    have hresult : i.parseTokens goal limit tokens =
        i.outcome (((goal.readAll limit : Framed Tree) i.frames).run start) := by
      rw [Interpreter.parseTokens, hstart]
      rfl
    rw [hresult]
    rcases goal.readAll_cases limit i.frames start with
      ⟨hrun, hroom⟩ | ⟨⟨s', hrun⟩, hlimit | ⟨tree, s'', htree, hhigh⟩⟩
    · cases hparse : goal.parse limit start with
      | ok tree s' =>
        rw [hrun, map_eq_ok.mpr ⟨tree, hparse, rfl⟩, Grammar.parseTokens_of_ok hstart hparse]
        refine .inl ⟨rfl, fun tree' heq => ?_⟩
        cases heq
        exact hroom tree s' hparse
      | error failure s' =>
        rw [hrun, map_eq_error.mpr hparse, Grammar.parseTokens_of_error hstart hparse,
          Interpreter.outcome]
        cases htells : i.tells failure with
        | true => exact .inl ⟨rfl, fun _ htree => by cases htree⟩
        | false => exact .inr (.inr ⟨rfl, failure, rfl, htells⟩)
    · rw [hrun]
      exact .inr (.inl ⟨rfl, .inl hlimit⟩)
    · rw [hrun]
      exact .inr (.inl ⟨rfl, .inr ⟨tree, Grammar.parseTokens_of_ok hstart htree, hhigh⟩⟩)

/-- A tree that is too high is not read. -/
theorem interpreter_parseTokens_of_lt {tokens : List Token} {tree : Tree}
    (h : parseTokens goal limit tokens = .ok tree)
    (hlt : i.frames < goal.lastFrames tree) :
    i.parseTokens goal limit tokens = .error .recursion := by
  rcases @interpreter_parseTokens_cases i goal limit tokens with
    ⟨_, hroom⟩ | ⟨hbroken, _⟩ | ⟨_, failure, hfailure, _⟩
  · exact absurd (hroom tree h) (Nat.not_le_of_lt hlt)
  · exact hbroken
  · rw [h] at hfailure
    cases hfailure

/-- What an interpreter reads from a source is what it reads from its tokens. -/
theorem interpreter_parseSource_of_scan {source file : String} {tokens : List Token}
    (hscan : scan source file = .ok tokens) :
    i.parseSource goal source file limit =
      (i.parseTokens goal limit tokens).map (Except.mapError .parse) := by
  rw [Interpreter.parseSource, hscan]

end

end RegisterLang
