import RegisterLang.Proofs.Grammar.Cursor
import RegisterLang.Proofs.Grammar.Derivation

/-!
# What is read has a derivation

Whenever a step of the parser succeeds, the tokens that it took form the phrase whose tree it
returned. The steps that open a level of nesting are reached through `inner`, so each statement
assumes `Sound` of `inner`, and `produceWithin_sound` supplies it level by level.
-/

namespace RegisterLang.Grammar

open Parse

/-- Derivations as the parser makes them: nodes carry the locations of their tokens, and a
declaration that could go on with a sign does so. -/
abbrev Reads : Nat → Phrase Location → List Token → List Token → Prop :=
  Derives Token.location (fun token => isSign token = false)

/-- No binary operator of rank `least` or more is the first of the tokens. -/
def Below (least : Nat) (tokens : List Token) : Prop :=
  ∀ op ∈ tokens.head?, op.kind = .binaryOperator → rank op.lexeme ≠ 0 → rank op.lexeme < least

/-- Tokens in front of which operators of a rank end are such tokens for all higher ranks. -/
theorem Below.mono {p q : Nat} {tokens : List Token} (h : Below p tokens) (hle : p ≤ q) :
    Below q tokens := by
  intro op hop hkind hrank
  have hlt := h op hop hkind hrank
  omega

/-- A tree that a production reads when at most `n` levels are left; the production itself takes one
of them. An expression does not end in front of a binary operator. -/
def Opens (n : Nat) : Production → Tree → List Token → List Token → Prop
  | .statement, tree => Reads n (.statement tree)
  | .expression, tree => fun xs ys => Reads n (.expression tree) xs ys ∧ Below 0 ys
  | .operand, tree => fun xs ys => ∃ m, n = m + 1 ∧ Reads m (.operand tree) xs ys

/-- Whatever a production reads has a derivation. -/
def Sound (n : Nat) (inner : Production → Parse Tree) : Prop :=
  ∀ production s tree s', inner production s = .ok tree s' →
    Opens n production tree s.pending s'.pending

/-- A production of expressions reads what has the derivation of an expression. -/
theorem Sound.expression {n : Nat} {inner : Production → Parse Tree} (hinner : Sound n inner)
    {s s' : ParseState} {tree : Tree} (h : inner .expression s = .ok tree s') :
    Reads n (.expression tree) s.pending s'.pending :=
  (hinner .expression s tree s' h).1

/-- Every rank is below the top one. -/
theorem rank_lt_topRank (op : String) : rank op < topRank :=
  Nat.lt_of_le_of_lt (rank_le op) (by decide)

/-- A phrase of tighter operators is also one of looser operators. -/
theorem Derives.weaken {α : Type} {mark : Token → α} {apart : Token → Prop} {n p q : Nat}
    {tree : Node α} {xs ys : List Token} (h : Derives mark apart n (.binary q tree) xs ys)
    (hle : p ≤ q) : Derives mark apart n (.binary p tree) xs ys := by
  cases h with
  | single hoperand => exact .single hoperand
  | binary hkind hrank hleast hleft hright =>
    exact .binary hkind hrank (Nat.le_trans hle hleast) hleft hright

/-- A sign is a binary operator that has a rank. -/
theorem Below.not_sign {ys : List Token} (h : Below 0 ys) :
    ∀ token ∈ ys.head?, isSign token = false := by
  intro token hmem
  by_contra hsign
  rw [Bool.not_eq_false] at hsign
  have hbelow := h token hmem (kind_of_isSign hsign) (rank_ne_zero_of_isSign hsign)
  exact absurd hbelow (Nat.not_lt_zero _)

section

variable {n : Nat} {inner : Production → Parse Tree} (hinner : Sound n inner)
include hinner

/-! ### Expressions -/

/-- What an expression starts with is a literal, a name, a register or an expression in
parentheses. -/
theorem reads_of_primary {s s' : ParseState} {tree : Tree} (h : primary inner s = .ok tree s') :
    Reads n (.primary tree) s.pending s'.pending := by
  rw [primary, liftM_eq, next_bind_run] at h
  cases hkind : literalKind? s.next.kind with
  | some kind =>
    simp only [hkind] at h
    have hne : s.next.kind ≠ .endOfInput := by
      intro heq
      rw [heq] at hkind
      cases hkind
    obtain ⟨s₁, hpending, hresult⟩ := exists_of_discard_advance_bind hne h
    obtain ⟨rfl, rfl⟩ := pure_eq_ok.mp hresult
    rw [hpending]
    exact .literal hkind
  | none =>
    simp only [hkind] at h
    split at h
    · next hkind =>
      obtain ⟨s₁, hpending, hresult⟩ := exists_of_discard_advance_bind (by rw [hkind]; decide) h
      obtain ⟨rfl, rfl⟩ := pure_eq_ok.mp hresult
      rw [hpending]
      exact .identifier hkind
    · split at h
      · next hkind =>
        obtain ⟨s₁, hpending, hresult⟩ := exists_of_discard_advance_bind (by rw [hkind]; decide) h
        obtain ⟨rfl, rfl⟩ := pure_eq_ok.mp hresult
        rw [hpending]
        exact .register hkind
      · split at h
        · next hopening =>
          obtain ⟨s₁, hpending, hrest⟩ :=
            exists_of_discard_advance_bind (kind_ne_of_isDelimiter hopening) h
          obtain ⟨content, s₂, hcontent, hrest⟩ := bind_eq_ok.mp hrest
          obtain ⟨closing, hclosing, hpending₂, rfl⟩ :=
            exists_of_discard_consumeDelimiter_pure hrest
          have hreads := hinner.expression hcontent
          rw [hpending₂] at hreads
          rw [hpending]
          exact .parenthesized hopening hreads hclosing
        · exact absurd h fail_ne_ok

/-- Further arguments are derived as they are read, and so is a comma that is left over. -/
theorem reads_of_furtherArguments {room : List Token} {s s' : ParseState} {trees : List Tree}
    (h : furtherArguments inner room s = .ok trees s') :
    Reads n (.furtherArguments trees) s.pending s'.pending := by
  induction room generalizing s trees with
  | nil =>
    obtain ⟨rfl, rfl⟩ := pure_eq_ok.mp h
    exact .noFurtherArgument
  | cons _ room ih =>
    rw [furtherArguments] at h
    rcases cases_of_matchDelimiter_bind h with ⟨comma, s₁, hcomma, hpending, hrest⟩ | ⟨_, hrest⟩
    · rw [if_pos rfl, liftM_eq, checkDelimiter_bind_run] at hrest
      rw [hpending]
      split at hrest
      · obtain ⟨rfl, rfl⟩ := pure_eq_ok.mp hrest
        exact .trailingComma hcomma
      · obtain ⟨argument, s₂, hargument, hrest⟩ := bind_eq_ok.mp hrest
        obtain ⟨arguments, s₃, harguments, hresult⟩ := bind_eq_ok.mp hrest
        obtain ⟨rfl, rfl⟩ := pure_eq_ok.mp hresult
        have hreads := hinner.expression hargument
        exact .furtherArgument hcomma hreads (ih harguments)
    · obtain ⟨rfl, rfl⟩ := pure_eq_ok.mp hrest
      exact .noFurtherArgument

/-- The arguments of a call are all that it reads, with the parentheses around them. -/
theorem exists_arguments_of_call {s s' : ParseState} {callee tree : Tree}
    (hopening : s.next.isDelimiter "(") (h : call inner callee s = .ok tree s') :
    ∃ args closing xs, s.pending = s.next :: xs ∧
      Reads n (.arguments args) xs (closing :: s'.pending) ∧ closing.isDelimiter ")" ∧
      tree = .call callee.tag callee args := by
  obtain ⟨s₁, hpending, hrest⟩ :=
    exists_of_discard_advance_bind (kind_ne_of_isDelimiter hopening) h
  rw [liftM_eq, checkDelimiter_bind_run] at hrest
  split at hrest
  · obtain ⟨closing, hclosing, hpending₁, rfl⟩ := exists_of_discard_consumeDelimiter_pure hrest
    have hargs : Reads n (.arguments []) s₁.pending s₁.pending := .noArgument
    rw [hpending₁] at hargs hpending
    exact ⟨[], closing, _, hpending, hargs, hclosing, rfl⟩
  · obtain ⟨argument, s₂, hargument, hrest⟩ := bind_eq_ok.mp hrest
    rw [liftM_eq, room_bind_run] at hrest
    obtain ⟨arguments, s₃, harguments, hrest⟩ := bind_eq_ok.mp hrest
    obtain ⟨closing, hclosing, hpending₃, rfl⟩ := exists_of_discard_consumeDelimiter_pure hrest
    have hreads := reads_of_furtherArguments hinner harguments
    rw [hpending₃] at hreads
    exact ⟨_, closing, _, hpending, .someArguments (hinner.expression hargument) hreads, hclosing,
      rfl⟩

/-- A call of an expression is derived behind it. -/
theorem reads_of_call {xs : List Token} {s s' : ParseState} {callee tree : Tree}
    (hopening : s.next.isDelimiter "(") (hcallee : Reads n (.suffixed callee) xs s.pending)
    (h : call inner callee s = .ok tree s') : Reads n (.suffixed tree) xs s'.pending := by
  obtain ⟨args, closing, us, hpending, hargs, hclosing, rfl⟩ :=
    exists_arguments_of_call hinner hopening h
  rw [hpending] at hcallee
  exact .call hcallee hopening hargs hclosing

omit hinner in
/-- A member of an expression is derived behind it. -/
theorem reads_of_member {xs : List Token} {s s' : ParseState} {object tree : Tree}
    (hdot : s.next.isDelimiter ".") (hobject : Reads n (.suffixed object) xs s.pending)
    (h : member (m := Parse) object s = .ok tree s') : Reads n (.suffixed tree) xs s'.pending := by
  obtain ⟨s₁, hpending, hrest⟩ := exists_of_discard_advance_bind (kind_ne_of_isDelimiter hdot) h
  obtain ⟨name, s₂, hname, hresult⟩ := bind_eq_ok.mp hrest
  obtain ⟨hkind, hpending₂⟩ := pending_of_consume (by decide) hname
  obtain ⟨rfl, rfl⟩ := pure_eq_ok.mp hresult
  rw [hpending, hpending₂] at hobject
  exact .member hobject hdot hkind

/-- Calls and members are derived behind the expression that they follow. -/
theorem reads_of_suffixes {room xs : List Token} {s s' : ParseState} {tree result : Tree}
    (htree : Reads n (.suffixed tree) xs s.pending)
    (h : suffixes inner room tree s = .ok result s') :
    Reads n (.suffixed result) xs s'.pending := by
  induction room generalizing s tree with
  | nil =>
    obtain ⟨rfl, rfl⟩ := pure_eq_ok.mp h
    exact htree
  | cons _ room ih =>
    rw [suffixes, liftM_eq, checkDelimiter_bind_run] at h
    split at h
    · next hopening =>
      obtain ⟨called, s₁, hcall, hrest⟩ := bind_eq_ok.mp h
      exact ih (reads_of_call hinner hopening htree hcall) hrest
    · rw [liftM_eq, checkDelimiter_bind_run] at h
      split at h
      · next hdot =>
        obtain ⟨object, s₁, hmember, hrest⟩ := bind_eq_ok.mp h
        exact ih (reads_of_member hdot htree hmember) hrest
      · obtain ⟨rfl, rfl⟩ := pure_eq_ok.mp h
        exact htree

/-- An expression is derived with its calls and members. -/
theorem reads_of_suffixed {s s' : ParseState} {tree : Tree} (h : suffixed inner s = .ok tree s') :
    Reads n (.suffixed tree) s.pending s'.pending := by
  obtain ⟨first, s₁, hfirst, hrest⟩ := bind_eq_ok.mp h
  rw [liftM_eq, room_bind_run] at hrest
  exact reads_of_suffixes hinner (.bare (reads_of_primary hinner hfirst)) hrest

/-- An operand is derived with its sign, one level deeper for each. -/
theorem reads_of_unary {s s' : ParseState} {tree : Tree} (h : unary inner s = .ok tree s') :
    Reads n (.operand tree) s.pending s'.pending := by
  rw [unary, liftM_eq, next_bind_run] at h
  split at h
  · next hop =>
    obtain ⟨s₁, hpending, hrest⟩ := exists_of_discard_advance_bind (kind_ne_of_isUnary hop) h
    obtain ⟨operand, s₂, hoperand, hresult⟩ := bind_eq_ok.mp hrest
    obtain ⟨rfl, rfl⟩ := pure_eq_ok.mp hresult
    obtain ⟨m, rfl, hreads⟩ := hinner _ _ _ _ hoperand
    rw [hpending]
    exact .unary hop hreads
  · exact .plain (reads_of_suffixed hinner h)

omit hinner in
/-- A loop over operators takes all operators that it may, and what it has read on the left is
always tight enough to be the left operand of the next one. -/
theorem reads_of_climb {right : Nat → Parse Tree} {least p : Nat}
    (hright : ∀ m, least < m → ∀ s tree s', right m s = .ok tree s' →
      Reads n (.binary m tree) s.pending s'.pending ∧ Below m s'.pending)
    {room xs : List Token} {s s' : ParseState} {left tree : Tree}
    (hroom : s.pending.length ≤ room.length) (hleast : least ≤ p)
    (hleft : Reads n (.binary p left) xs s.pending) (hbelow : Below (p + 1) s.pending)
    (h : climb right least room left s = .ok tree s') :
    Reads n (.binary least tree) xs s'.pending ∧ Below least s'.pending := by
  induction room generalizing s left p with
  | nil =>
    obtain ⟨rfl, rfl⟩ := pure_eq_ok.mp h
    have hnil : s'.pending = [] := List.eq_nil_of_length_eq_zero (Nat.le_zero.mp hroom)
    refine ⟨hleft.weaken hleast, ?_⟩
    rw [hnil]
    rintro op ⟨⟩
  | cons _ room ih =>
    rw [climb, liftM_eq, next_bind_run] at h
    split at h
    · next hop =>
      obtain ⟨hkind, hrank, hle⟩ := hop
      have hne : s.next.kind ≠ .endOfInput := by
        rw [hkind]
        decide
      obtain ⟨s₁, hpending, hrest⟩ := exists_of_discard_advance_bind hne h
      obtain ⟨operand, s₂, hoperand, hrest⟩ := bind_eq_ok.mp hrest
      obtain ⟨hreads, hbelow₂⟩ := hright _ (by omega) _ _ _ hoperand
      have hp : rank s.next.lexeme < p + 1 := hbelow _ (by rw [hpending]; rfl) hkind hrank
      rw [hpending] at hleft hroom
      have hlength := hreads.length_le
      simp only [List.length_cons] at hroom
      exact ih (by omega) hle (.binary hkind hrank (Nat.le_refl _)
        (hleft.weaken (Nat.le_of_lt_succ hp)) hreads) hbelow₂ hrest
    · next hop =>
      obtain ⟨rfl, rfl⟩ := pure_eq_ok.mp h
      refine ⟨hleft.weaken hleast, ?_⟩
      intro op hmem hkind hrank
      by_contra hge
      have hne : s'.next.kind ≠ .endOfInput := by
        intro heq
        rw [ParseState.pending_eq_nil_iff.mpr heq] at hmem
        cases hmem
      rw [ParseState.pending_eq_cons hne] at hmem
      obtain rfl : s'.next = op := by simpa using hmem
      exact hop ⟨hkind, hrank, by omega⟩

/-- What is read between operators is derived at its level of precedence, and no operator of that
level comes next. There have to be enough levels. -/
theorem reads_of_binaryWithin {levels least : Nat} (hlevels : topRank ≤ levels + least)
    {s s' : ParseState} {tree : Tree} (h : binaryWithin inner levels least s = .ok tree s') :
    Reads n (.binary least tree) s.pending s'.pending ∧ Below least s'.pending := by
  induction levels generalizing least s s' tree with
  | zero =>
    refine ⟨.single (reads_of_unary hinner h), ?_⟩
    intro op _ _ _
    have htop := rank_lt_topRank op.lexeme
    omega
  | succ levels ih =>
    obtain ⟨left, s₁, hleft, hrest⟩ := bind_eq_ok.mp h
    rw [liftM_eq, room_bind_run] at hrest
    have hbelow : Below (least + topRank + 1) s₁.pending := by
      intro op _ _ _
      have htop := rank_lt_topRank op.lexeme
      omega
    exact reads_of_climb (fun m hm s tree s' hm' => ih (by omega) hm')
      s₁.length_pending_le (Nat.le_add_right _ _) (.single (reads_of_unary hinner hleft)) hbelow
      hrest

/-- An assignment is derived with both its sides, and an expression without one in front of no
operator. -/
theorem reads_of_assignment {s s' : ParseState} {tree : Tree}
    (h : assignment inner s = .ok tree s') :
    Opens (n + 1) .expression tree s.pending s'.pending := by
  obtain ⟨left, s₁, hleft, hrest⟩ := bind_eq_ok.mp h
  obtain ⟨hreads, hbelow⟩ := reads_of_binaryWithin hinner (Nat.le_of_eq rfl) hleft
  rw [liftM_eq, check_bind_run] at hrest
  split at hrest
  · next hop =>
    have hkind : s₁.next.kind = .assignOperator := eq_of_beq hop
    obtain ⟨s₂, hpending, hrest⟩ := exists_of_advance_bind (by rw [hkind]; decide) hrest
    obtain ⟨right, s₃, hright, hresult⟩ := bind_eq_ok.mp hrest
    obtain ⟨rfl, rfl⟩ := pure_eq_ok.mp hresult
    obtain ⟨hreads₂, hbelow₂⟩ := hinner _ _ _ _ hright
    rw [hpending] at hreads
    exact ⟨.assignment hreads hkind hreads₂, hbelow₂⟩
  · obtain ⟨rfl, rfl⟩ := pure_eq_ok.mp hrest
    exact ⟨.value hreads, hbelow⟩

/-! ### Statements -/

/-- A statement is derived as it is read one level deeper. -/
theorem reads_of_statement {s s' : ParseState} {tree : Tree} (h : statement inner s = .ok tree s') :
    Reads n (.statement tree) s.pending s'.pending :=
  hinner .statement { s with entered := s.next :: s.entered } tree s' h

/-- Statements are read up to a token that ends them. -/
theorem reads_of_statementsUntil {isEnd : Token → Bool} {room : List Token} {s s' : ParseState}
    {trees : List Tree} (hroom : s.pending.length ≤ room.length)
    (h : statementsUntil inner isEnd room s = .ok trees s') :
    Reads n (.statements trees) s.pending s'.pending ∧ (isEnd s'.next ∨ s'.pending = []) := by
  induction room generalizing s trees with
  | nil =>
    obtain ⟨rfl, rfl⟩ := pure_eq_ok.mp h
    exact ⟨.noStatement, .inr (List.eq_nil_of_length_eq_zero (Nat.le_zero.mp hroom))⟩
  | cons _ room ih =>
    rw [statementsUntil, liftM_eq, next_bind_run] at h
    split at h
    · next hend =>
      obtain ⟨rfl, rfl⟩ := pure_eq_ok.mp h
      exact ⟨.noStatement, .inl hend⟩
    · obtain ⟨first, s₁, hfirst, hrest⟩ := bind_eq_ok.mp h
      obtain ⟨others, s₂, hothers, hresult⟩ := bind_eq_ok.mp hrest
      obtain ⟨rfl, rfl⟩ := pure_eq_ok.mp hresult
      have hreads := reads_of_statement hinner hfirst
      have hlength := hreads.length_le
      simp only [Phrase.nonempty, Bool.toNat_true, List.length_cons] at hlength hroom
      obtain ⟨hreads₂, hend⟩ := ih (by omega) hothers
      exact ⟨.moreStatements hreads hreads₂, hend⟩

/-- The value of a declaration is derived with its semicolon, or without one in front of no sign. -/
theorem reads_of_initialValue {s s' : ParseState} {tree : Tree}
    (h : initialValue inner s = .ok tree s') :
    Reads n (.initialValue tree) s.pending s'.pending := by
  obtain ⟨value, s₁, hvalue, hrest⟩ := bind_eq_ok.mp h
  obtain ⟨hreads, hbelow⟩ := hinner _ _ _ _ hvalue
  obtain ⟨b, s₂, hsemicolon, hresult⟩ := discard_bind_eq_ok.mp hrest
  obtain ⟨rfl, rfl⟩ := pure_eq_ok.mp hresult
  rcases cases_of_matchDelimiter hsemicolon with
    ⟨_, semicolon, hclosed, hpending⟩ | ⟨_, _, rfl⟩
  · rw [hpending] at hreads
    exact .closedValue hreads hclosed
  · exact .openValue hreads hbelow.not_sign

/-- A declaration is derived in the form in which it is read. -/
theorem reads_of_declaration {isConst : Bool} {s s' : ParseState} {tree : Tree}
    (h : declaration inner isConst s = .ok tree s') :
    Reads n (.declaration isConst tree) s.pending s'.pending := by
  obtain ⟨register, s₁, hregister, hrest⟩ := bind_eq_ok.mp h
  obtain ⟨hkind, hpending⟩ := pending_of_consume (by decide) hregister
  rw [liftM_eq, check_bind_run] at hrest
  rw [hpending]
  split at hrest
  · next htype =>
    have htype : s₁.next.kind = .typeName := eq_of_beq htype
    obtain ⟨s₂, hpending₁, hrest⟩ := exists_of_advance_bind (by rw [htype]; decide) hrest
    rw [identifier_eq, pure_bind_run, liftM_eq, checkIs_bind_run] at hrest
    rw [hpending₁]
    split at hrest
    · next hequals =>
      obtain ⟨s₃, hpending₂, hrest⟩ :=
        exists_of_discard_advance_bind (kind_ne_of_is (by decide) hequals) hrest
      obtain ⟨value, s₄, hvalue, hresult⟩ := bind_eq_ok.mp hrest
      obtain ⟨rfl, rfl⟩ := pure_eq_ok.mp hresult
      rw [hpending₂]
      exact .typedDeclaration hkind htype hequals (reads_of_initialValue hinner hvalue)
    · next hequals =>
      obtain ⟨value, s₃, hvalue, hresult⟩ := bind_eq_ok.mp hrest
      obtain ⟨rfl, rfl⟩ := pure_eq_ok.mp hresult
      refine .statementDeclaration hkind htype ?_ (reads_of_statement hinner hvalue)
      intro next hnext
      rw [ParseState.eq_next_of_mem_head?_pending hnext]
      exact hequals
  · obtain ⟨equals, s₂, hequals, hrest⟩ := discard_bind_eq_ok.mp hrest
    obtain ⟨value, s₃, hvalue, hresult⟩ := bind_eq_ok.mp hrest
    obtain ⟨rfl, rfl⟩ := pure_eq_ok.mp hresult
    obtain ⟨hequals, hpending₁⟩ := pending_of_consumeIf (fun _ => kind_ne_of_is (by decide)) hequals
    rw [hpending₁]
    exact .plainDeclaration hkind hequals (reads_of_initialValue hinner hvalue)

/-- A return is derived with a value or without one. -/
theorem reads_of_returning {s s' : ParseState} {tree : Tree}
    (hkeyword : s.next.is .keyword "return") (h : returning inner s = .ok tree s') :
    Reads (n + 1) (.statement tree) s.pending s'.pending := by
  obtain ⟨s₁, hpending, hrest⟩ := exists_of_advance_bind (kind_ne_of_is (by decide) hkeyword) h
  rw [hpending]
  rw [liftM_eq, checkDelimiter_bind_run] at hrest
  split at hrest
  · rw [pure_bind_run] at hrest
    obtain ⟨semicolon, hsemicolon, hpending₁, rfl⟩ := exists_of_discard_consumeDelimiter_pure hrest
    rw [hpending₁]
    exact .returnsNothing hkeyword hsemicolon
  · obtain ⟨argument, s₂, hargument, hrest⟩ := bind_eq_ok.mp hrest
    obtain ⟨value, hvalue, rfl⟩ := map_eq_ok.mp hargument
    obtain ⟨semicolon, hsemicolon, hpending₁, rfl⟩ := exists_of_discard_consumeDelimiter_pure hrest
    have hreads := hinner.expression hvalue
    rw [hpending₁] at hreads
    exact .returnsValue hkeyword hreads hsemicolon

/-- A block is derived between its braces. -/
theorem reads_of_block {s s' : ParseState} {tree : Tree} (h : block inner s = .ok tree s') :
    Reads n (.block tree) s.pending s'.pending := by
  obtain ⟨opening, s₁, hopening, hrest⟩ := bind_eq_ok.mp h
  obtain ⟨hopening, hpending⟩ := pending_of_consumeDelimiter hopening
  rw [liftM_eq, room_bind_run] at hrest
  obtain ⟨trees, s₂, htrees, hrest⟩ := bind_eq_ok.mp hrest
  obtain ⟨closing, hclosing, hpending₁, rfl⟩ := exists_of_discard_consumeDelimiter_pure hrest
  have hreads := (reads_of_statementsUntil hinner s₁.length_pending_le htrees).1
  rw [hpending₁] at hreads
  rw [hpending]
  exact .block hopening hreads hclosing

end

section

variable {n : Nat}

/-! ### Directives -/

/-- An import is derived behind its keyword. -/
theorem reads_of_importUnit {keyword : Token} {s s' : ParseState} {tree : Tree}
    (hkeyword : keyword.is .directive "import") (h : importUnit (m := Parse) s = .ok tree s') :
    Reads (n + 1) (.statement tree) (keyword :: s.pending) s'.pending := by
  obtain ⟨opening, s₁, hopening, hpending, hrest⟩ := exists_of_discard_consumeDelimiter_bind h
  rw [liftM_eq, next_bind_run] at hrest
  split at hrest
  · obtain ⟨u, s₂, hfail, _⟩ := bind_eq_ok.mp hrest
    exact absurd hfail fail_ne_ok
  · next hkind =>
    have hkind : s₁.next.kind = .string := not_not.mp hkind
    obtain ⟨s₂, hpending₁, hrest⟩ := exists_of_discard_advance_bind (by rw [hkind]; decide) hrest
    obtain ⟨closing, s₃, hclosing, hpending₂, hrest⟩ :=
      exists_of_discard_consumeDelimiter_bind hrest
    obtain ⟨semicolon, hsemicolon, hpending₃, rfl⟩ := exists_of_discard_consumeDelimiter_pure hrest
    rw [hpending, hpending₁, hpending₂, hpending₃]
    exact .imports hkeyword hopening hkind hclosing hsemicolon

/-- A type that may be missing is derived as it is read. -/
theorem reads_of_typeAfterColon {what : String} {s s' : ParseState} {tree : Option Tree}
    (h : typeAfterColon (m := Parse) what s = .ok tree s') :
    Reads n (.typeAfterColon tree) s.pending s'.pending := by
  rcases cases_of_matchDelimiter_bind h with ⟨colon, s₁, hcolon, hpending, hrest⟩ | ⟨_, hrest⟩
  · rw [if_pos rfl] at hrest
    obtain ⟨name, s₂, hname, hresult⟩ := bind_eq_ok.mp hrest
    obtain ⟨hkind, hpending₁⟩ := pending_of_consume (by decide) hname
    obtain ⟨rfl, rfl⟩ := pure_eq_ok.mp hresult
    rw [hpending, hpending₁]
    exact .someType hcolon hkind
  · obtain ⟨rfl, rfl⟩ := pure_eq_ok.mp hrest
    exact .noType

/-- A parameter is derived with its type or without one. -/
theorem reads_of_param {s s' : ParseState} {tree : Tree} (h : param (m := Parse) s = .ok tree s') :
    Reads n (.param tree) s.pending s'.pending := by
  obtain ⟨name, s₁, hname, hrest⟩ := bind_eq_ok.mp h
  obtain ⟨hkind, hpending⟩ := pending_of_consume (by decide) hname
  obtain ⟨typeName, s₂, htype, hresult⟩ := bind_eq_ok.mp hrest
  obtain ⟨rfl, rfl⟩ := pure_eq_ok.mp hresult
  rw [hpending]
  exact .param hkind (reads_of_typeAfterColon htype)

/-- Further parameters are derived as they are read. -/
theorem reads_of_furtherParams {room : List Token} {s s' : ParseState} {trees : List Tree}
    (h : furtherParams (m := Parse) room s = .ok trees s') :
    Reads n (.furtherParams trees) s.pending s'.pending := by
  induction room generalizing s trees with
  | nil =>
    obtain ⟨rfl, rfl⟩ := pure_eq_ok.mp h
    exact .noFurtherParam
  | cons _ room ih =>
    rw [furtherParams] at h
    rcases cases_of_matchDelimiter_bind h with ⟨comma, s₁, hcomma, hpending, hrest⟩ | ⟨_, hrest⟩
    · rw [if_pos rfl] at hrest
      obtain ⟨first, s₂, hfirst, hrest⟩ := bind_eq_ok.mp hrest
      obtain ⟨others, s₃, hothers, hresult⟩ := bind_eq_ok.mp hrest
      obtain ⟨rfl, rfl⟩ := pure_eq_ok.mp hresult
      rw [hpending]
      exact .furtherParam hcomma (reads_of_param hfirst) (ih hothers)
    · obtain ⟨rfl, rfl⟩ := pure_eq_ok.mp hrest
      exact .noFurtherParam

/-- Parameters carry the mark of the token in front of them, their opening parenthesis. -/
theorem reads_of_params {s s' : ParseState} {tree : Tree}
    (h : params (m := Parse) s = .ok tree s') :
    ∃ trees closing, tree = .params s.previous.location trees ∧
      Reads n (.params trees) s.pending (closing :: s'.pending) ∧ closing.isDelimiter ")" := by
  rw [params, liftM_eq, get_bind_run, paramsBehind, liftM_eq, checkDelimiter_bind_run] at h
  split at h
  · obtain ⟨closing, hclosing, hpending, rfl⟩ := exists_of_discard_consumeDelimiter_pure h
    rw [hpending]
    exact ⟨[], closing, rfl, .noParam, hclosing⟩
  · obtain ⟨first, s₁, hfirst, hrest⟩ := bind_eq_ok.mp h
    rw [liftM_eq, room_bind_run] at hrest
    obtain ⟨others, s₂, hothers, hrest⟩ := bind_eq_ok.mp hrest
    obtain ⟨closing, hclosing, hpending, rfl⟩ := exists_of_discard_consumeDelimiter_pure hrest
    have hreads := reads_of_furtherParams (n := n) hothers
    rw [hpending] at hreads
    exact ⟨_, closing, rfl, .someParams (reads_of_param hfirst) hreads, hclosing⟩

variable {inner : Production → Parse Tree} (hinner : Sound n inner)
include hinner

/-- A function is derived behind its keyword. -/
theorem reads_of_function {keyword : Token} {s s' : ParseState} {tree : Tree}
    (hkeyword : keyword.is .directive "func") (h : function inner s = .ok tree s') :
    Reads (n + 1) (.statement tree) (keyword :: s.pending) s'.pending := by
  obtain ⟨name, s₁, hname, hrest⟩ := bind_eq_ok.mp h
  obtain ⟨hkind, hpending⟩ := pending_of_consume (by decide) hname
  obtain ⟨opening, s₂, hopening, hrest⟩ := discard_bind_eq_ok.mp hrest
  rw [liftM_eq] at hopening
  have hprevious := previous_of_consumeIf hopening
  obtain ⟨hopening, hpending₁⟩ := pending_of_consumeDelimiter hopening
  obtain ⟨list, s₃, hlist, hrest⟩ := bind_eq_ok.mp hrest
  obtain ⟨trees, closing, rfl, hparams, hclosing⟩ := reads_of_params (n := n) hlist
  obtain ⟨returnType, s₄, htype, hrest⟩ := bind_eq_ok.mp hrest
  obtain ⟨body, s₅, hbody, hresult⟩ := bind_eq_ok.mp hrest
  obtain ⟨rfl, rfl⟩ := pure_eq_ok.mp hresult
  rw [hpending, hpending₁, hprevious]
  exact .function hkeyword hkind hopening hparams hclosing (reads_of_typeAfterColon htype)
    (reads_of_block hinner hbody)

/-- A loop is derived behind its keyword. -/
theorem reads_of_whileLoop {keyword : Token} {s s' : ParseState} {tree : Tree}
    (hkeyword : keyword.is .directive "while") (h : whileLoop inner keyword s = .ok tree s') :
    Reads (n + 1) (.statement tree) (keyword :: s.pending) s'.pending := by
  obtain ⟨opening, s₁, hopening, hpending, hrest⟩ := exists_of_discard_consumeDelimiter_bind h
  obtain ⟨condition, s₂, hcondition, hrest⟩ := bind_eq_ok.mp hrest
  obtain ⟨closing, s₃, hclosing, hpending₁, hrest⟩ := exists_of_discard_consumeDelimiter_bind hrest
  have hreads := hinner.expression hcondition
  rw [hpending₁] at hreads
  rw [hpending]
  rcases cases_of_matchDelimiter_bind hrest with ⟨bar, s₄, hbar, hpending₂, hrest⟩ | ⟨_, hrest⟩
  · rw [if_pos rfl] at hrest
    obtain ⟨capture, s₅, hcapture, hrest⟩ := bind_eq_ok.mp hrest
    obtain ⟨bar', s₆, hbar', hpending₃, hrest⟩ := exists_of_discard_consumeDelimiter_bind hrest
    have hreads₂ := reads_of_primary hinner hcapture
    rw [hpending₃] at hreads₂
    have hcaptured := Derives.someCapture hbar hreads₂ hbar'
    rw [← hpending₂] at hcaptured
    rw [pure_bind_run] at hrest
    obtain ⟨body, s₇, hbody, hresult⟩ := bind_eq_ok.mp hrest
    obtain ⟨rfl, rfl⟩ := pure_eq_ok.mp hresult
    exact .loop hkeyword hopening hreads hclosing hcaptured (reads_of_block hinner hbody)
  · rw [if_neg Bool.false_ne_true, pure_bind_run] at hrest
    obtain ⟨body, s₄, hbody, hresult⟩ := bind_eq_ok.mp hrest
    obtain ⟨rfl, rfl⟩ := pure_eq_ok.mp hresult
    exact .loop hkeyword hopening hreads hclosing .noCapture (reads_of_block hinner hbody)

/-- What is behind an at sign is derived with its keyword. -/
theorem reads_of_directive {s s' : ParseState} {tree : Tree} (hkind : s.next.kind = .directive)
    (h : directive inner s = .ok tree s') :
    Reads (n + 1) (.statement tree) s.pending s'.pending := by
  obtain ⟨s₁, hpending, hrest⟩ := exists_of_advance_bind (by rw [hkind]; decide) h
  rw [hpending]
  cases hword : Directive.ofWord? s.next.lexeme with
  | none =>
    simp only [hword] at hrest
    cases hrest
  | some d =>
    have his : s.next.is .directive d.word :=
      Token.is_iff.mpr ⟨hkind, Directive.ofWord?_eq_some_iff.mp hword⟩
    simp only [hword] at hrest
    cases d with
    | importUnit => exact reads_of_importUnit his hrest
    | const => exact .declaresConst his (reads_of_declaration hinner hrest)
    | func => exact reads_of_function hinner his hrest
    | whileLoop => exact reads_of_whileLoop hinner his hrest
    | typeOf | forLoop => cases hrest

/-! ### Any statement -/

/-- An expression is derived as a statement, if such a statement may start with it. -/
theorem reads_of_expressionStatement {s s' : ParseState} {tree : Tree}
    (hstarts : startsOperand s.next → StartsExpressionStatement s.pending)
    (h : expressionStatement inner s = .ok tree s') :
    Reads (n + 1) (.statement tree) s.pending s'.pending := by
  obtain ⟨value, s₁, hvalue, hrest⟩ := bind_eq_ok.mp h
  obtain ⟨semicolon, hsemicolon, hpending, rfl⟩ := exists_of_discard_consumeDelimiter_pure hrest
  have hreads := hinner.expression hvalue
  obtain ⟨first, tokens, hfirst, hoperand⟩ := hreads.starts rfl
  rw [← (ParseState.next_eq_of_pending hfirst).1] at hoperand
  rw [hpending] at hreads
  exact .evaluates (hstarts hoperand) hreads hsemicolon

omit hinner in
/-- The test on the token behind a register tells whether the pending tokens are a declaration. -/
theorem startsDeclaration_pending_iff {s : ParseState} (hkind : s.next.kind = .register) :
    StartsDeclaration s.pending ↔
      ((s.peek 1).kind == .typeName || (s.peek 1).is .assignOperator "=") = true := by
  have hne : s.next.kind ≠ .endOfInput := by
    rw [hkind]
    decide
  have htest (u : Token) (hu : (u.kind == .typeName || u.is .assignOperator "=") = true) :
      u.kind ≠ .endOfInput := by
    rcases Bool.or_eq_true _ _ ▸ hu with hu | hu
    · rw [eq_of_beq hu]
      decide
    · exact kind_ne_of_is (by decide) hu
  rw [ParseState.peek_one_iff htest (ParseState.pending_eq_cons hne),
    ParseState.pending_eq_cons hne]
  cases s.advance.pending with
  | nil => simp [StartsDeclaration]
  | cons u us => simp [StartsDeclaration, hkind]

omit hinner in
/-- A token that an expression statement may start with is no end of the input, so it is pending. -/
theorem startsExpressionStatement_pending {s : ParseState}
    (h : s.next.kind ∈ expressionStarts ∨
      (s.next.kind = .register ∧ ¬ StartsDeclaration s.pending)) :
    StartsExpressionStatement s.pending := by
  have hne : s.next.kind ≠ .endOfInput := by
    intro heq
    rw [heq] at h
    simp [expressionStarts] at h
  exact ⟨s.next, by rw [ParseState.pending_eq_cons hne]; rfl, h⟩

variable (inner) in
/-- What the next token of a state decides about the statement there: the step that reads it. -/
inductive Dispatches (s : ParseState) : Parse Tree → Prop
  | declaration (hstarts : StartsDeclaration s.pending) : Dispatches s (declaration inner false)
  | expression (hstarts : startsOperand s.next → StartsExpressionStatement s.pending) :
      Dispatches s (expressionStatement inner)
  | returning (hreturn : s.next.is .keyword "return") : Dispatches s (returning inner)
  | directive (hkind : s.next.kind = .directive) : Dispatches s (directive inner)
  | reserved (hkind : s.next.kind = .keyword) (hlexeme : s.next.lexeme ≠ "return") :
      Dispatches s (fail .unexpectedKeyword)
  | unexpected : Dispatches s (fail .unexpectedToken)

omit hinner in
variable (inner) in
/-- A statement is read by the step that its next token decides on. -/
theorem exists_dispatches (s : ParseState) :
    ∃ step, Dispatches inner s step ∧ statementBody inner s = step s := by
  rw [statementBody, liftM_eq, next_bind_run]
  cases hkind : s.next.kind
  case register =>
    have hpending := startsDeclaration_pending_iff hkind
    simp only
    rw [startsDeclaration, liftM_eq, bind_assoc, get_bind_run, pure_bind_run]
    split
    · next hdeclares => exact ⟨_, .declaration (hpending.mpr hdeclares), rfl⟩
    · next hdeclares =>
      have hnone : ¬ StartsDeclaration s.pending := fun h => hdeclares (hpending.mp h)
      have hstarts := startsExpressionStatement_pending (.inr ⟨hkind, hnone⟩)
      exact ⟨_, .expression fun _ => hstarts, rfl⟩
  case keyword =>
    simp only
    split
    · next hreturn => exact ⟨_, .returning (Token.is_iff.mpr ⟨hkind, hreturn⟩), rfl⟩
    · next hlexeme =>
      split
      · refine ⟨_, .expression fun hoperand => ?_, rfl⟩
        -- No keyword starts an operand, so that this expression fails at its first token.
        simp [startsOperand, startsPrimary, isUnary, literalKind?, Token.isDelimiter, Token.is,
          hkind] at hoperand
      · exact ⟨_, .reserved hkind hlexeme, rfl⟩
  case directive => exact ⟨_, .directive hkind, rfl⟩
  all_goals
    simp only
    split
    · next hmem =>
      refine ⟨_, .expression fun _ => startsExpressionStatement_pending (.inl ?_), rfl⟩
      rw [hkind]
      exact List.contains_iff_mem.mp hmem
    · exact ⟨_, .unexpected, rfl⟩

/-- A statement is derived, whatever it starts with. -/
theorem reads_of_statementBody {s s' : ParseState} {tree : Tree}
    (h : statementBody inner s = .ok tree s') :
    Reads (n + 1) (.statement tree) s.pending s'.pending := by
  obtain ⟨step, hstep, hrun⟩ := exists_dispatches inner s
  rw [hrun] at h
  cases hstep with
  | declaration => exact .declares (reads_of_declaration hinner h)
  | expression hstarts => exact reads_of_expressionStatement hinner hstarts h
  | returning hreturn => exact reads_of_returning hinner hreturn h
  | directive hkind => exact reads_of_directive hinner hkind h
  | reserved | unexpected => exact absurd h fail_ne_ok

end

/-! ### All levels -/

/-- A level of nesting succeeds only if there is one left, and then reads what its step reads. -/
theorem eq_ok_of_nested {limit : Int} {step : Parse Tree} {s s' : ParseState} {tree : Tree}
    (h : nested limit step s = .ok tree s') :
    ∃ s₁ s₂, step s₁ = .ok tree s₂ ∧ s.pending = s₁.pending ∧ s'.pending = s₂.pending := by
  obtain ⟨_, s₂, hstep, rfl⟩ := nested_eq_ok.mp h
  exact ⟨_, s₂, hstep, rfl, rfl⟩

/-- With `n` levels left, every production reads what has a derivation with `n` levels. -/
theorem produceWithin_sound (limit : Int) (n : Nat) : Sound n (produceWithin limit n) := by
  induction n with
  | zero =>
    intro production s tree s' h
    exact absurd h fail_ne_ok
  | succ n ih =>
    intro production s tree s' h
    obtain ⟨s₁, s₂, hstep, hpending, hpending'⟩ := eq_ok_of_nested h
    rw [hpending, hpending']
    cases production with
    | statement => exact reads_of_statementBody ih hstep
    | expression => exact reads_of_assignment ih hstep
    | operand => exact ⟨n, rfl, reads_of_unary ih hstep⟩

end RegisterLang.Grammar
