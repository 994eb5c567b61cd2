import RegisterLang.Proofs.Grammar.Soundness
import RegisterLang.Proofs.Grammar.Stop

/-!
# What has a derivation is read

The converse of soundness. A phrase is read with the tree of its derivation wherever what follows it
cannot be taken for a part of it. Loops hand on what they have read so far, so the statements about
them speak of the rounds that remain.
-/

namespace RegisterLang.Grammar

open Parse

/-! ### What may follow a phrase -/

/-- The tokens do not go on with a call or a member. -/
def NoSuffix (tokens : List Token) : Prop :=
  ∀ t ∈ tokens.head?, ¬ t.isDelimiter "(" ∧ ¬ t.isDelimiter "."

/-- The tokens do not go on with anything that would continue an expression. -/
structure EndsExpression (tokens : List Token) : Prop where
  noSuffix : NoSuffix tokens
  below : Below 0 tokens
  noAssignment : ∀ t ∈ tokens.head?, t.kind ≠ .assignOperator

/-- The tokens go on with another statement or with the end of a block, if at all. -/
def StatementBoundary (tokens : List Token) : Prop :=
  ∀ t ∈ tokens.head?, t.isDelimiter closingBrace ∨ startsStatement t

/-- Statements that are taken from `xs` in front of `ys` end there: with a stop, or because of what
follows them. -/
def Delimited (xs ys : List Token) : Prop :=
  Stopped xs ys ∨ StatementBoundary ys

/-- A stop at the end of tokens is one at the end of the last of them. -/
theorem Delimited.of_suffix {xs ys zs : List Token} (h : Delimited xs zs) (hsuffix : ys <:+ xs) :
    Delimited ys zs :=
  h.imp_left fun hstopped => hstopped.of_suffix hsuffix

/-- A stop at the end of tokens is one at the end of all but the first of them. -/
theorem Delimited.of_cons {t : Token} {xs ys : List Token} (h : Delimited (t :: xs) ys) :
    Delimited xs ys :=
  h.of_suffix (List.suffix_cons t xs)

/-- Behind tokens that end with no stop, there must be a boundary. -/
theorem Delimited.boundary {xs ys : List Token} (h : Delimited xs ys)
    (hunstopped : Unstopped xs ys) : StatementBoundary ys :=
  h.resolve_left hunstopped.not_stopped

/-- What must hold at the end of the phrase of a production, so that the production ends there. -/
def Ends : Production → List Token → List Token → Prop
  | .statement, xs, ys => Delimited xs ys
  | .expression, _, ys => EndsExpression ys
  | .operand, _, ys => NoSuffix ys

/-- Whatever is derived at a depth with `n` levels left is read there. -/
def Complete (depth n : Nat) (inner : Production → Parse Tree) : Prop :=
  ∀ production tree xs ys, Ends production xs ys → Opens n production tree xs ys →
    Yields depth (inner production) xs tree ys

/-- One delimiter is no other. -/
theorem not_isDelimiter_of_isDelimiter {d e : String} (hne : d ≠ e) {t : Token} {ts : List Token}
    (h : t.isDelimiter d) : ∀ u ∈ (t :: ts).head?, ¬ u.isDelimiter e := by
  rintro u ⟨⟩
  simp [Token.isDelimiter, Token.is, (Token.is_iff.mp h).2, hne]

/-- Only a delimiter opens a call or selects a member. -/
theorem noSuffix_cons {t : Token} {ts : List Token} (ht : t.kind ≠ .delimiter) :
    NoSuffix (t :: ts) := by
  rintro u ⟨⟩
  simp [Token.isDelimiter, Token.is, ht]

/-- A delimiter that opens no call and selects no member ends an expression. -/
theorem endsExpression_of_isDelimiter {d : String} {t : Token} {ts : List Token}
    (ht : t.isDelimiter d) (hd : d ≠ "(" ∧ d ≠ ".") : EndsExpression (t :: ts) := by
  obtain ⟨hkind, hlexeme⟩ := Token.is_iff.mp ht
  refine ⟨?_, ?_, ?_⟩ <;> rintro u ⟨⟩
  · simp [Token.isDelimiter, Token.is, hkind, hlexeme, hd]
  · simp [hkind]
  · simp [hkind]

/-- In front of another statement, an expression ends unless the statement starts with a sign. -/
theorem StatementBoundary.endsExpression {ts : List Token} (h : StatementBoundary ts)
    (hsign : ∀ t ∈ ts.head?, isSign t = false) : EndsExpression ts := by
  cases ts with
  | nil => exact ⟨by rintro t ⟨⟩, by rintro t ⟨⟩, by rintro t ⟨⟩⟩
  | cons t ts =>
    rcases h t rfl with hclosing | hstarts
    · exact endsExpression_of_isDelimiter hclosing (by decide)
    · have hsign := hsign t rfl
      simp only [startsStatement, startsOperand, startsPrimary, isUnary, isSign, Token.isDelimiter,
        Token.is] at hstarts hsign
      refine ⟨?_, ?_, ?_⟩ <;> rintro u ⟨⟩
      · constructor <;> intro hdelimiter <;>
          simp_all [(Token.is_iff.mp hdelimiter).1, (Token.is_iff.mp hdelimiter).2, literalKind?]
      · intro hkind
        simp_all [literalKind?]
      · intro hkind
        simp_all [literalKind?]

section

variable {depth n : Nat} {inner : Production → Parse Tree} (hinner : Complete depth n inner)
include hinner

/-! ### Expressions -/

/-- An expression that is derived is read wherever it ends. -/
theorem yields_expression {tree : Tree} {xs ys : List Token}
    (h : Reads n (.expression tree) xs ys) (hends : EndsExpression ys) :
    Yields depth (inner .expression) xs tree ys :=
  hinner .expression tree xs ys hends ⟨h, hends.below⟩

/-- What an expression starts with is read, whatever follows it. -/
theorem yields_primary {tree : Tree} {xs ys : List Token} (h : Reads n (.primary tree) xs ys) :
    Yields depth (primary inner) xs tree ys := by
  cases h with
  | literal hkind =>
    refine .bind .next ?_
    simp only [hkind]
    exact .bind (.discard .advance) .pure
  | identifier hkind =>
    refine .bind .next ?_
    have hliteral : literalKind? .identifier = none := rfl
    simp only [hkind, hliteral, if_pos]
    exact .bind (.discard .advance) .pure
  | register hkind =>
    refine .bind .next ?_
    have hliteral : literalKind? .register = none := rfl
    simp only [hkind, hliteral, reduceCtorEq, if_false, if_true]
    exact .bind (.discard .advance) .pure
  | parenthesized hopening hcontent hclosing =>
    refine .bind .next ?_
    have hkind := (Token.is_iff.mp hopening).1
    have hliteral : literalKind? .delimiter = none := rfl
    simp only [hkind, hliteral, reduceCtorEq, if_false, if_pos hopening]
    have hread := yields_expression hinner hcontent
      (endsExpression_of_isDelimiter hclosing (by decide))
    exact .bind (.discard .advance)
      (.bind hread (.bind (.discard (.consumeDelimiter hclosing)) .pure))

omit hinner in
/-- An expression ends in front of further arguments. -/
theorem endsExpression_of_furtherArguments {trees : List Tree} {closing : Token}
    {xs ys : List Token} (hclosing : closing.isDelimiter ")")
    (h : Reads n (.furtherArguments trees) xs (closing :: ys)) : EndsExpression xs := by
  cases h with
  | noFurtherArgument => exact endsExpression_of_isDelimiter hclosing (by decide)
  | trailingComma hcomma | furtherArgument hcomma =>
    exact endsExpression_of_isDelimiter hcomma (by decide)

omit hinner in
/-- What starts an operand is no closing parenthesis. -/
theorem not_isDelimiter_of_expression {tree : Tree} {d : String} (hd : d ≠ "(")
    {xs ys : List Token} (h : Reads n (.expression tree) xs ys) :
    xs.head?.any (·.isDelimiter d) = false := by
  obtain ⟨first, tokens, rfl, hstarts⟩ := h.starts rfl
  have hoperand : startsOperand first := hstarts
  rw [List.head?_cons, Option.any_some]
  by_contra hdelimiter
  obtain ⟨hkind, hlexeme⟩ := Token.is_iff.mp (Bool.not_eq_false _ ▸ hdelimiter)
  simp [startsOperand, startsPrimary, isUnary, literalKind?, Token.isDelimiter, Token.is, hkind,
    hlexeme, hd] at hoperand

/-- Further arguments are read up to the parenthesis that closes them, in a room that is large
enough. -/
theorem yields_furtherArguments {trees : List Tree} {closing : Token} {room xs ys : List Token}
    (hclosing : closing.isDelimiter ")")
    (h : Reads n (.furtherArguments trees) xs (closing :: ys)) (hroom : xs.length ≤ room.length) :
    Yields depth (furtherArguments inner room) xs trees (closing :: ys) := by
  induction room generalizing trees xs with
  | nil =>
    have hlength := h.length_le
    simp only [List.length_cons, List.length_nil] at hlength hroom
    omega
  | cons _ room ih =>
    cases h with
    | noFurtherArgument =>
      have hcomma := @not_isDelimiter_of_isDelimiter ")" "," (by decide) closing ys hclosing
      exact .bind (.matchDelimiter_false hcomma) .pure
    | trailingComma hcomma =>
      refine .bind (.matchDelimiter_true hcomma) (.bind .checkDelimiter ?_)
      simp only [List.head?_cons, Option.any_some, hclosing, if_true]
      exact .pure
    | furtherArgument hcomma hargument harguments =>
      refine .bind (.matchDelimiter_true hcomma) (.bind .checkDelimiter ?_)
      rw [not_isDelimiter_of_expression (by decide) hargument, if_neg Bool.false_ne_true]
      have hlength := hargument.length_le
      simp only [List.length_cons] at hroom
      exact .bind (yields_expression hinner hargument
        (endsExpression_of_furtherArguments hclosing harguments))
        (.bind (ih harguments (by omega)) .pure)

/-- Arguments are read between their parentheses, and the call stands at the place of its callee. -/
theorem yields_call {callee : Tree} {args : List Tree} {opening closing : Token}
    {xs ys : List Token} (hclosing : closing.isDelimiter ")")
    (h : Reads n (.arguments args) xs (closing :: ys)) :
    Yields depth (call inner callee) (opening :: xs) (.call callee.tag callee args) ys := by
  refine .bind (.discard .advance) (.bind .checkDelimiter ?_)
  cases h with
  | noArgument =>
    rw [List.head?_cons, Option.any_some, if_pos hclosing]
    exact .bind .pure (.bind (.discard (.consumeDelimiter hclosing)) .pure)
  | someArguments hargument harguments =>
    rw [not_isDelimiter_of_expression (by decide) hargument, if_neg Bool.false_ne_true]
    refine .bind (yields_expression hinner hargument
      (endsExpression_of_furtherArguments hclosing harguments)) (.room fun room hroom => ?_)
    exact .bind (yields_furtherArguments hinner hclosing harguments hroom)
      (.bind .pure (.bind (.discard (.consumeDelimiter hclosing)) .pure))

omit hinner in
/-- A member is read from its dot and its name. -/
theorem yields_member {object : Tree} {dot name : Token} {ys : List Token}
    (hname : name.kind = .identifier) :
    Yields depth (member object) (dot :: name :: ys)
      (.member object.tag object (nameOf Token.location name)) ys :=
  .bind (.discard .advance) (.bind (.consume hname) (.bind .pure .pure))

omit hinner in
/-- Where no call and no member follows, the tree stays as it is. -/
theorem yields_suffixes {room ys : List Token} (hys : NoSuffix ys) {tree : Tree} :
    Yields depth (suffixes inner room tree) ys tree ys := by
  cases room with
  | nil => exact .pure
  | cons _ room =>
    have hnone (d : String) (hd : ∀ t ∈ ys.head?, ¬ t.isDelimiter d) :
        ys.head?.any (·.isDelimiter d) = false := by
      simpa [Option.any_eq_false] using hd
    refine .bind .checkDelimiter ?_
    rw [hnone "(" fun t ht => (hys t ht).1, if_neg Bool.false_ne_true]
    refine .bind .checkDelimiter ?_
    rw [hnone "." fun t ht => (hys t ht).2, if_neg Bool.false_ne_true]
    exact .pure

/-- A suffixed primary is read once the rounds that remain behind it are done. -/
theorem yields_suffixed_of_suffixes {tree result : Tree} {xs ys zs : List Token}
    (h : Reads n (.suffixed tree) xs ys)
    (hfurther : ∀ room : List Token, ys.length ≤ room.length →
      Yields depth (suffixes inner room tree) ys result zs) :
    Yields depth (suffixed inner) xs result zs := by
  generalize hphrase : Phrase.suffixed tree = phrase at h
  induction h generalizing tree with
  | bare hprimary =>
    cases hphrase
    exact .bind (yields_primary hinner hprimary) (.room hfurther)
  | call hcallee hopening hargs hclosing ih =>
    cases hphrase
    refine ih hinner (fun room hroom => ?_) rfl
    cases room with
    | nil => simp at hroom
    | cons _ room =>
      refine .bind .checkDelimiter ?_
      rw [List.head?_cons, Option.any_some, if_pos hopening]
      have hlength := hargs.length_le
      simp only [List.length_cons] at hroom hlength
      exact .bind (yields_call hinner hclosing hargs) (hfurther room (by omega))
  | member hobject hdot hname ih =>
    cases hphrase
    refine ih hinner (fun room hroom => ?_) rfl
    cases room with
    | nil => simp at hroom
    | cons _ room =>
      refine .bind .checkDelimiter ?_
      rw [List.head?_cons, Option.any_some, if_neg ?_]
      · refine .bind .checkDelimiter ?_
        rw [List.head?_cons, Option.any_some, if_pos hdot]
        simp only [List.length_cons] at hroom
        exact .bind (yields_member hname) (hfurther room (by omega))
      · simp [Token.isDelimiter, Token.is, (Token.is_iff.mp hdot).2]
  | _ => cases hphrase

/-- An operand is read wherever no call and no member follows. -/
theorem yields_unary {tree : Tree} {xs ys : List Token} (h : Reads n (.operand tree) xs ys)
    (hys : NoSuffix ys) : Yields depth (unary inner) xs tree ys := by
  cases h with
  | plain hsuffixed =>
    obtain ⟨first, tokens, rfl, hstarts⟩ := hsuffixed.starts rfl
    refine .bind .next ?_
    rw [if_neg (not_isUnary_of_startsPrimary hstarts)]
    exact yields_suffixed_of_suffixes hinner hsuffixed fun _ _ => yields_suffixes hys
  | unary hop hoperand =>
    refine .bind .next ?_
    rw [if_pos hop]
    exact .bind (.discard .advance)
      (.bind (hinner .operand _ _ _ hys ⟨_, rfl, hoperand⟩) .pure)

omit hinner in
/-- A loop over operators ends in front of a looser operator. -/
theorem yields_climb {right : Nat → Parse Tree} {least : Nat} {room ys : List Token}
    (hys : Below least ys) {tree : Tree} :
    Yields depth (climb right least room tree) ys tree ys := by
  cases room with
  | nil => exact .pure
  | cons _ room =>
    refine .next_bind fun t ht => ?_
    rw [if_neg]
    · exact .pure
    · rintro ⟨hkind, hrank, hle⟩
      rcases ht with ht | ⟨_, hend⟩
      · have hlt := hys t ht hkind hrank
        omega
      · rw [hkind] at hend
        cases hend

/-- Operands and operators are read once the rounds that remain behind them are done. -/
theorem yields_of_climb {right : Nat → Parse Tree} {least p : Nat}
    (hright : ∀ m tree xs ys, least < m → NoSuffix ys → Below m ys →
      Reads n (.binary m tree) xs ys → Yields depth (right m) xs tree ys)
    {tree result : Tree} {xs ys zs : List Token} (h : Reads n (.binary p tree) xs ys)
    (hle : least ≤ p) (hys : NoSuffix ys) (hbelow : Below (p + 1) ys)
    (hfurther : ∀ room : List Token, ys.length ≤ room.length →
      Yields depth (climb right least room tree) ys result zs) :
    Yields depth (do
      let left ← unary inner
      climb right least (← room) left) xs result zs := by
  generalize hphrase : Phrase.binary p tree = phrase at h
  induction h generalizing p tree with
  | single hoperand =>
    cases hphrase
    exact .bind (yields_unary hinner hoperand hys) (.room hfurther)
  | @binary n q left operand op xs ys ys' hkind hrank hleast hleft hoperand ih =>
    cases hphrase
    have hop : NoSuffix (op :: ys) := noSuffix_cons (by rw [hkind]; decide)
    have hbelow' : Below (rank op.lexeme + 1) (op :: ys) := by
      rintro t ⟨⟩ _ _
      omega
    refine ih hinner hright (by omega) hop hbelow' (fun room hroom => ?_) rfl
    cases room with
    | nil => simp at hroom
    | cons _ room =>
      refine .bind .next ?_
      rw [if_pos ⟨hkind, hrank, by omega⟩]
      have hlength := hoperand.length_le
      simp only [List.length_cons] at hroom hlength
      have hread := hright _ _ _ _ (by omega) hys (hbelow.mono (by omega)) hoperand
      exact .bind (.discard .advance) (.bind hread (hfurther room (by omega)))
  | _ => cases hphrase

/-- Operands between operators are read, if all operators of the level of precedence are taken and
there are enough levels for them. -/
theorem yields_binaryWithin {levels least : Nat} (hlevels : topRank ≤ levels + least) {tree : Tree}
    {xs ys : List Token} (hys : NoSuffix ys) (hbelow : Below least ys)
    (h : Reads n (.binary least tree) xs ys) :
    Yields depth (binaryWithin inner levels least) xs tree ys := by
  induction levels generalizing least tree xs ys with
  | zero =>
    cases h with
    | single hoperand => exact yields_unary hinner hoperand hys
    | @binary _ _ _ _ op _ _ _ _ _ hleast =>
      have htop := rank_lt_topRank op.lexeme
      omega
  | succ levels ih =>
    exact yields_of_climb hinner
      (fun m tree xs ys hm hys hbelow h => ih (by omega) hys hbelow h)
      h (Nat.le_refl _) hys (hbelow.mono (Nat.le_succ _)) (fun _ _ => yields_climb hbelow)

/-- An assignment, or an expression without one, is read wherever it ends. -/
theorem yields_assignment {tree : Tree} {xs ys : List Token} (hys : EndsExpression ys)
    (h : Reads (n + 1) (.expression tree) xs ys) : Yields depth (assignment inner) xs tree ys := by
  cases h with
  | value hbinary =>
    refine .bind (yields_binaryWithin hinner (Nat.le_of_eq rfl) hys.noSuffix hys.below hbinary)
      (.bind (.check (by decide)) ?_)
    rw [if_neg]
    · exact .pure
    · simpa [Option.any_eq_true] using hys.noAssignment
  | @assignment _ left right op _ ys' _ hleft hop hright =>
    have hnoSuffix : NoSuffix (op :: ys') := noSuffix_cons (by rw [hop]; decide)
    have hbelow : Below 0 (op :: ys') := by
      rintro t ⟨⟩ hkind
      rw [hop] at hkind
      cases hkind
    refine .bind (yields_binaryWithin hinner (Nat.le_of_eq rfl) hnoSuffix hbelow hleft)
      (.bind (.check (by decide)) ?_)
    rw [if_pos (by simp [hop])]
    exact .bind .advance (.bind (yields_expression hinner hright hys) .pure)

/-! ### Statements -/

/-- A statement is read one level deeper. -/
theorem yields_statement {tree : Tree} {xs ys : List Token} (hys : Delimited xs ys)
    (h : Reads n (.statement tree) xs ys) : Yields depth (statement inner) xs tree ys :=
  fun s hs hd =>
    hinner .statement tree xs ys hys h { s with entered := s.next :: s.entered } hs hd

omit hinner in
/-- In front of statements that are delimited, other statements are. -/
theorem delimited_of_statements {trees : List Tree} {xs ys zs : List Token}
    (hzs : Delimited xs zs) (h : Reads n (.statements trees) ys zs) : Delimited xs ys := by
  cases h with
  | noStatement => exact hzs
  | moreStatements hfirst =>
    obtain ⟨first, tokens, rfl, hstarts⟩ := hfirst.starts rfl
    refine .inr ?_
    rintro t ⟨⟩
    exact .inr hstarts

/-- Statements are read up to their end, if no statement starts there, in a room that is large
enough. -/
theorem yields_statementsUntil {isEnd : Token → Bool} (hend : ∀ t, t.kind = .endOfInput → isEnd t)
    (hstarts : ∀ t, startsStatement t → isEnd t = false) {trees : List Tree}
    {room xs ys : List Token} (hys : Delimited xs ys) (hends : ∀ t ∈ ys.head?, isEnd t)
    (hroom : xs.length ≤ room.length) (h : Reads n (.statements trees) xs ys) :
    Yields depth (statementsUntil inner isEnd room) xs trees ys := by
  induction room generalizing trees xs with
  | nil =>
    cases h with
    | noStatement => exact .pure
    | moreStatements hfirst hothers =>
      have hlength := hfirst.length_le
      simp only [Phrase.nonempty, Bool.toNat_true, List.length_nil] at hlength hroom
      omega
  | cons _ room ih =>
    cases h with
    | noStatement =>
      refine .next_bind fun t ht => ?_
      rw [if_pos]
      · exact .pure
      · rcases ht with ht | ⟨_, hkind⟩
        · exact hends t ht
        · exact hend t hkind
    | moreStatements hfirst hothers =>
      have hlength := hfirst.length_le
      obtain ⟨first, tokens, rfl, hfirst'⟩ := hfirst.starts rfl
      refine .bind .next ?_
      rw [hstarts first hfirst', if_neg Bool.false_ne_true]
      simp only [Phrase.nonempty, Bool.toNat_true, List.length_cons] at hlength hroom
      exact .bind (yields_statement hinner (delimited_of_statements hys hothers) hfirst)
        (.bind (ih (hys.of_suffix hfirst.suffix) (by omega) hothers) .pure)

/-- The value of a declaration is read with its semicolon, or without one at a boundary. -/
theorem yields_initialValue {tree : Tree} {xs ys : List Token} (hys : Delimited xs ys)
    (h : Reads n (.initialValue tree) xs ys) : Yields depth (initialValue inner) xs tree ys := by
  cases h with
  | closedValue hvalue hsemicolon =>
    exact .bind (yields_expression hinner hvalue
      (endsExpression_of_isDelimiter hsemicolon (by decide)))
      (.bind (.discard (.matchDelimiter_true hsemicolon)) .pure)
  | openValue hvalue hsign =>
    have hboundary := hys.boundary (hvalue.unstopped rfl)
    have hsemicolon : ∀ t ∈ ys.head?, ¬ t.isDelimiter ";" := by
      intro t ht hsemicolon
      obtain ⟨hkind, hlexeme⟩ := Token.is_iff.mp hsemicolon
      rcases hboundary t ht with hclosing | hstarts
      · rw [(Token.is_iff.mp hclosing).2] at hlexeme
        revert hlexeme
        decide
      · simp [startsStatement, startsOperand, startsPrimary, isUnary, literalKind?,
          Token.isDelimiter, Token.is, hkind, hlexeme] at hstarts
    exact .bind (yields_expression hinner hvalue (hboundary.endsExpression hsign))
      (.bind (.discard (.matchDelimiter_false hsemicolon)) .pure)

/-- A declaration is read in each of its forms: with a value, with a type and a value, with a type
and a statement. -/
theorem yields_declaration {isConst : Bool} {tree : Tree} {xs ys : List Token}
    (hys : Delimited xs ys) (h : Reads n (.declaration isConst tree) xs ys) :
    Yields depth (declaration inner isConst) xs tree ys := by
  cases h with
  | plainDeclaration hregister hequals hvalue =>
    refine .bind (.consume hregister) (.bind (.check (by decide)) ?_)
    rw [if_neg (by simp [(Token.is_iff.mp hequals).1])]
    exact .bind (.discard (.consumeIf hequals))
      (.bind (yields_initialValue hinner hys.of_cons.of_cons hvalue) .pure)
  | typedDeclaration hregister htype hequals hvalue =>
    refine .bind (.consume hregister) (.bind (.check (by decide)) ?_)
    rw [if_pos (by simp [htype])]
    refine .bind .advance (.bind .pure (.bind (.checkIs (by decide)) ?_))
    rw [if_pos (by simpa using hequals)]
    exact .bind (.discard .advance)
      (.bind (yields_initialValue hinner hys.of_cons.of_cons.of_cons hvalue) .pure)
  | statementDeclaration hregister htype hnext hvalue =>
    refine .bind (.consume hregister) (.bind (.check (by decide)) ?_)
    rw [if_pos (by simp [htype])]
    refine .bind .advance (.bind .pure (.bind (.checkIs (by decide)) ?_))
    rw [if_neg (by simpa [Option.any_eq_true] using hnext)]
    exact .bind (yields_statement hinner hys.of_cons.of_cons hvalue) .pure

/-- A return is read with a value or without one. No value starts with a semicolon. -/
theorem yields_returning {keyword : Token} {xs ys : List Token} {tree : Tree}
    (hkeyword : keyword.is .keyword "return")
    (h : Reads (n + 1) (.statement tree) (keyword :: xs) ys) :
    Yields depth (returning inner) (keyword :: xs) tree ys := by
  have hkind := (Token.is_iff.mp hkeyword).1
  cases h with
  | returnsNothing _ hsemicolon =>
    refine .bind .advance (.bind .checkDelimiter ?_)
    rw [if_pos (by simpa using hsemicolon)]
    exact .bind .pure (.bind (.discard (.consumeDelimiter hsemicolon)) .pure)
  | returnsValue _ hvalue hsemicolon =>
    refine .bind .advance (.bind .checkDelimiter ?_)
    rw [not_isDelimiter_of_expression (by decide) hvalue, if_neg Bool.false_ne_true]
    exact .bind (.map (yields_expression hinner hvalue
      (endsExpression_of_isDelimiter hsemicolon (by decide))))
      (.bind (.discard (.consumeDelimiter hsemicolon)) .pure)
  | declares hdeclaration =>
    obtain ⟨first, tokens, hxs, hstarts⟩ := hdeclaration.starts rfl
    cases hxs
    simp [Phrase.starts, hkind] at hstarts
  | declaresConst hconst | imports hconst | function hconst | loop hconst =>
    rw [(Token.is_iff.mp hconst).1] at hkind
    cases hkind
  | evaluates hstarts =>
    obtain ⟨first, hfirst, hkind'⟩ := hstarts
    obtain rfl : keyword = first := by simpa using hfirst
    simp [hkind, expressionStarts] at hkind'

omit hinner in
/-- Neither the end of the input nor a closing brace starts a statement. -/
theorem not_endsBlock_of_startsStatement {t : Token} (h : startsStatement t) :
    (t.kind == .endOfInput || t.isDelimiter closingBrace) = false := by
  by_contra hend
  rw [Bool.not_eq_false, Bool.or_eq_true, beq_iff_eq] at hend
  rcases hend with hkind | hdelimiter
  · simp [startsStatement, startsOperand, startsPrimary, isUnary, literalKind?, Token.isDelimiter,
      Token.is, hkind] at h
  · obtain ⟨hkind, hlexeme⟩ := Token.is_iff.mp hdelimiter
    simp [startsStatement, startsOperand, startsPrimary, isUnary, literalKind?, Token.isDelimiter,
      Token.is, hkind, hlexeme, closingBrace] at h

/-- A block is read up to its brace. -/
theorem yields_block {tree : Tree} {xs ys : List Token} (h : Reads n (.block tree) xs ys) :
    Yields depth (block inner) xs tree ys := by
  cases h with
  | @block _ trees opening closing xs _ hopening htrees hclosing =>
    have hboundary : StatementBoundary (closing :: ys) := by
      rintro t ⟨⟩
      exact .inl hclosing
    refine .bind (.consumeDelimiter hopening) (.room fun room hroom => ?_)
    refine .bind (yields_statementsUntil hinner (fun t ht => by simp [ht])
      (fun t => not_endsBlock_of_startsStatement) (.inr hboundary) ?_ hroom htrees)
      (.bind (.discard (.consumeDelimiter hclosing)) .pure)
    rintro t ⟨⟩
    simp [hclosing]

end

section

variable {depth n : Nat}

/-! ### Directives -/

/-- An optional type is read. Where there is none, no colon follows. -/
theorem yields_typeAfterColon {what : String} {tree : Option Tree} {xs ys : List Token}
    (hys : ∀ t ∈ ys.head?, ¬ t.isDelimiter ":") (h : Reads n (.typeAfterColon tree) xs ys) :
    Yields depth (typeAfterColon what) xs tree ys := by
  cases h with
  | noType => exact .bind (.matchDelimiter_false hys) .pure
  | someType hcolon hname =>
    exact .bind (.matchDelimiter_true hcolon) (.bind (.consume hname) .pure)

/-- A parameter is read with its type, or without one where no colon follows. -/
theorem yields_param {tree : Tree} {xs ys : List Token}
    (hys : ∀ t ∈ ys.head?, ¬ t.isDelimiter ":") (h : Reads n (.param tree) xs ys) :
    Yields depth param xs tree ys := by
  cases h with
  | param hname htype =>
    exact .bind (.consume hname) (.bind (yields_typeAfterColon hys htype) .pure)

/-- Further parameters start with a comma or, if there are none, with what follows them. -/
theorem not_colon_of_furtherParams {trees : List Tree} {closing : Token} {xs ys : List Token}
    (hclosing : closing.isDelimiter ")") (h : Reads n (.furtherParams trees) xs (closing :: ys)) :
    ∀ t ∈ xs.head?, ¬ t.isDelimiter ":" := by
  cases h with
  | noFurtherParam => exact not_isDelimiter_of_isDelimiter (by decide) hclosing
  | furtherParam hcomma => exact not_isDelimiter_of_isDelimiter (by decide) hcomma

/-- Further parameters are read up to the parenthesis that closes them. -/
theorem yields_furtherParams {trees : List Tree} {closing : Token} {room xs ys : List Token}
    (hclosing : closing.isDelimiter ")") (hroom : xs.length ≤ room.length)
    (h : Reads n (.furtherParams trees) xs (closing :: ys)) :
    Yields depth (furtherParams room) xs trees (closing :: ys) := by
  induction room generalizing trees xs with
  | nil =>
    have hlength := h.length_le
    simp only [List.length_cons, List.length_nil] at hlength hroom
    omega
  | cons _ room ih =>
    cases h with
    | noFurtherParam =>
      have hcomma := @not_isDelimiter_of_isDelimiter ")" "," (by decide) closing ys hclosing
      exact .bind (.matchDelimiter_false hcomma) .pure
    | furtherParam hcomma hparam hothers =>
      have hlength := hparam.length_le
      simp only [List.length_cons] at hroom
      exact .bind (.matchDelimiter_true hcomma)
        (.bind (yields_param (not_colon_of_furtherParams hclosing hothers) hparam)
          (.bind (ih (by omega) hothers) .pure))

/-- Parameters are read between their parentheses, none at all included. -/
theorem yields_paramsBehind {opening closing : Token} {trees : List Tree} {xs ys : List Token}
    (hclosing : closing.isDelimiter ")") (h : Reads n (.params trees) xs (closing :: ys)) :
    Yields depth (paramsBehind opening) xs (.params opening.location trees) ys := by
  refine .bind .checkDelimiter ?_
  cases h with
  | noParam =>
    rw [if_pos (by simpa using hclosing)]
    exact .bind .pure (.bind (.discard (.consumeDelimiter hclosing)) .pure)
  | someParams hparam hothers =>
    obtain ⟨name, tokens, rfl, hname⟩ := hparam.starts rfl
    have hkind : name.kind = .identifier := by simpa [Phrase.starts] using hname
    rw [if_neg (by simp [Token.isDelimiter, Token.is, hkind])]
    refine .bind (yields_param (not_colon_of_furtherParams hclosing hothers) hparam)
      (.room fun room hroom => ?_)
    exact .bind (yields_furtherParams hclosing hroom hothers)
      (.bind .pure (.bind (.discard (.consumeDelimiter hclosing)) .pure))

/-- Parameters find their opening parenthesis in front of the cursor. -/
theorem yields_params_bind {further : Tree → Parse Tree} {what : String} {opening closing : Token}
    {trees : List Tree} {result : Tree} {xs ys zs : List Token} (hopening : opening.isDelimiter "(")
    (hclosing : closing.isDelimiter ")") (h : Reads n (.params trees) xs (closing :: ys))
    (hfurther : Yields depth (further (.params opening.location trees)) ys result zs) :
    Yields depth (discard (consumeDelimiter "(" what) >>= fun _ => params >>= further)
      (opening :: xs) result zs := by
  intro s hs hd
  have hyields : Yields depth (consumeDelimiter "(" what) (opening :: xs) opening xs :=
    .consumeDelimiter hopening
  obtain ⟨s₁, hconsume, hs₁, hd₁⟩ := hyields s hs hd
  obtain ⟨s₂, hresult, hs₂, hd₂⟩ := (yields_paramsBehind hclosing h).bind hfurther s₁ hs₁ hd₁
  refine ⟨s₂, discard_bind_eq_ok.mpr ⟨opening, s₁, hconsume, ?_⟩, hs₂, hd₂⟩
  rw [params, bind_assoc, liftM_eq, get_bind_run, previous_of_consumeIf hconsume]
  exact hresult

variable {inner : Production → Parse Tree} (hinner : Complete depth n inner)
include hinner

/-- A loop is read from its condition, its capture and its block. -/
theorem yields_whileLoop {condition body : Tree} {capture : Option Tree}
    {keyword opening closing : Token} {xs ys zs ws : List Token}
    (hopening : opening.isDelimiter "(")
    (hcondition : Reads n (.expression condition) xs (closing :: ys))
    (hclosing : closing.isDelimiter ")") (hcapture : Reads n (.capture capture) ys zs)
    (hbody : Reads n (.block body) zs ws) :
    Yields depth (whileLoop inner keyword) (opening :: xs)
      (.whileLoop keyword.location condition capture body) ws := by
  refine .bind (.discard (.consumeDelimiter hopening)) (.bind (yields_expression hinner hcondition
    (endsExpression_of_isDelimiter hclosing (by decide)))
    (.bind (.discard (.consumeDelimiter hclosing)) ?_))
  cases hcapture with
  | noCapture =>
    obtain ⟨brace, tokens, rfl, hbrace⟩ := hbody.starts rfl
    exact .bind (.matchDelimiter_false (not_isDelimiter_of_isDelimiter (by decide) hbrace))
      (.bind .pure (.bind (yields_block hinner hbody) .pure))
  | someCapture hbar hprimary hbar' =>
    exact .bind (.matchDelimiter_true hbar) (.bind (yields_primary hinner hprimary)
      (.bind (.discard (.consumeDelimiter hbar'))
        (.bind .pure (.bind (yields_block hinner hbody) .pure))))

/-- What is behind an at sign is read as the statement of the directive. -/
theorem yields_directive {keyword : Token} {tree : Tree} {xs ys : List Token}
    (hys : Delimited (keyword :: xs) ys) (hkeyword : keyword.kind = .directive)
    (h : Reads (n + 1) (.statement tree) (keyword :: xs) ys) :
    Yields depth (directive inner) (keyword :: xs) tree ys := by
  refine .bind .advance ?_
  have hword {d : Directive} (his : keyword.is .directive d.word) :
      Directive.ofWord? keyword.lexeme = some d :=
    Directive.ofWord?_eq_some_iff.mpr (Token.is_iff.mp his).2
  cases h with
  | declaresConst his hdeclaration =>
    simp only [hword (d := .const) his]
    exact yields_declaration hinner hys.of_cons hdeclaration
  | imports his hopening hpath hclosing hsemicolon =>
    simp only [hword (d := .importUnit) his]
    refine .bind (.discard (.consumeDelimiter hopening)) (.bind .next ?_)
    rw [if_neg (not_not.mpr hpath)]
    exact .bind (.discard .advance) (.bind (.discard (.consumeDelimiter hclosing))
      (.bind (.discard (.consumeDelimiter hsemicolon)) .pure))
  | function his hname hopening hparams hclosing htype hbody =>
    simp only [hword (d := .func) his]
    obtain ⟨brace, tokens, rfl, hbrace⟩ := hbody.starts rfl
    exact .bind (.consume hname) (yields_params_bind hopening hclosing hparams
      (.bind (yields_typeAfterColon (not_isDelimiter_of_isDelimiter (by decide) hbrace) htype)
        (.bind (yields_block hinner hbody) .pure)))
  | loop his hopening hcondition hclosing hcapture hbody =>
    simp only [hword (d := .whileLoop) his]
    exact yields_whileLoop hinner hopening hcondition hclosing hcapture hbody
  | declares hdeclaration =>
    obtain ⟨first, tokens, hxs, hstarts⟩ := hdeclaration.starts rfl
    cases hxs
    simp [Phrase.starts, hkeyword] at hstarts
  | returnsNothing his | returnsValue his =>
    rw [(Token.is_iff.mp his).1] at hkeyword
    cases hkeyword
  | evaluates hstarts =>
    obtain ⟨first, hfirst, hkind'⟩ := hstarts
    obtain rfl : keyword = first := by simpa using hfirst
    simp [hkeyword, expressionStarts] at hkind'

/-! ### Any statement -/

omit hinner in
/-- Whether a declaration starts at a register is found out by looking at the tokens behind it. -/
theorem yields_startsDeclaration {further : Bool → Parse Tree} {b : Bool} {tree : Tree}
    {register : Token} {xs ys : List Token} (hkind : register.kind = .register)
    (hb : StartsDeclaration (register :: xs) ↔ b = true)
    (hfurther : Yields depth (further b) (register :: xs) tree ys) :
    Yields depth (startsDeclaration >>= further) (register :: xs) tree ys := by
  intro s hs hd
  have hnext := (ParseState.next_eq_of_pending hs).1
  have hstarts := startsDeclaration_pending_iff (s := s) (by rw [hnext]; exact hkind)
  rw [hs, hb] at hstarts
  rw [startsDeclaration, bind_assoc, get_bind_run, pure_bind_run, ← Bool.eq_iff_iff.mpr hstarts]
  exact hfurther s hs hd

/-- An expression is read as a statement, up to its semicolon. -/
theorem yields_expressionStatement {tree : Tree} {semicolon : Token} {xs ys : List Token}
    (hsemicolon : semicolon.isDelimiter ";") (h : Reads n (.expression tree) xs (semicolon :: ys)) :
    Yields depth (expressionStatement inner) xs tree ys :=
  .bind (yields_expression hinner h (endsExpression_of_isDelimiter hsemicolon (by decide)))
    (.bind (.discard (.consumeDelimiter hsemicolon)) .pure)

omit hinner in
/-- A declaration starts as a declaration does. -/
theorem startsDeclaration_of_declaration {isConst : Bool} {tree : Tree} {xs ys : List Token}
    (h : Reads n (.declaration isConst tree) xs ys) : StartsDeclaration xs := by
  cases h with
  | plainDeclaration hregister hequals => exact ⟨hregister, .inr hequals⟩
  | typedDeclaration hregister htype | statementDeclaration hregister htype =>
    exact ⟨hregister, .inl htype⟩

/-- A statement is read, whatever it starts with. -/
theorem yields_statementBody {tree : Tree} {xs ys : List Token} (hys : Delimited xs ys)
    (h : Reads (n + 1) (.statement tree) xs ys) :
    Yields depth (statementBody inner) xs tree ys := by
  obtain ⟨first, tokens, rfl, _⟩ := h.starts rfl
  refine .bind .next ?_
  have hstatement := h
  cases h with
  | declares hdeclaration =>
    have hstarts := startsDeclaration_of_declaration hdeclaration
    obtain ⟨register, tokens', hxs, hregister⟩ := hdeclaration.starts rfl
    obtain ⟨rfl, rfl⟩ := List.cons.inj hxs
    have hkind : first.kind = .register := by simpa [Phrase.starts] using hregister
    simp only [hkind]
    refine yields_startsDeclaration hkind (iff_of_true hstarts rfl) ?_
    exact yields_declaration hinner hys hdeclaration
  | evaluates hstarts hexpression hsemicolon =>
    have hread := yields_expressionStatement hinner hsemicolon hexpression
    obtain ⟨first', hfirst, hkind⟩ := hstarts
    obtain rfl : first = first' := by simpa using hfirst
    rcases hkind with hmem | ⟨hregister, hnone⟩
    · split
      · next hkind => simp [hkind, expressionStarts] at hmem
      · next hkind => simp [hkind, expressionStarts] at hmem
      · next hkind => simp [hkind, expressionStarts] at hmem
      · rw [if_pos (by simpa using hmem)]
        exact hread
    · simp only [hregister]
      refine yields_startsDeclaration hregister (b := false) (by simpa using hnone) ?_
      exact hread
  | returnsNothing hkeyword | returnsValue hkeyword =>
    obtain ⟨hkind, hlexeme⟩ := Token.is_iff.mp hkeyword
    simp only [hkind, if_pos hlexeme]
    exact yields_returning hinner hkeyword hstatement
  | declaresConst hkeyword | imports hkeyword | function hkeyword | loop hkeyword =>
    have hkind := (Token.is_iff.mp hkeyword).1
    simp only [hkind]
    exact yields_directive hinner hys hkind hstatement

end

/-! ### All levels -/

/-- What a production derives is read, when there are enough levels left below the limit. -/
theorem produceWithin_complete (limit : Int) (n : Nat) {depth : Nat}
    (hlevels : n ≤ (limit - depth).toNat) : Complete depth n (produceWithin limit n) := by
  induction n generalizing depth with
  | zero =>
    intro production tree xs ys _ hopens
    cases production with
    | statement => cases (show Reads 0 (.statement tree) xs ys from hopens)
    | expression => cases hopens.1
    | operand =>
      obtain ⟨m, hm, _⟩ := hopens
      cases hm
  | succ n ih =>
    have hinner : Complete (depth + 1) n (produceWithin limit n) := ih (by omega)
    intro production tree xs ys hends hopens
    refine .nested (by omega) ?_
    cases production with
    | statement => exact yields_statementBody hinner hends hopens
    | expression => exact yields_assignment hinner hends hopens.1
    | operand =>
      obtain ⟨m, hm, hoperand⟩ := hopens
      cases hm
      exact yields_unary hinner hoperand hends

end RegisterLang.Grammar
