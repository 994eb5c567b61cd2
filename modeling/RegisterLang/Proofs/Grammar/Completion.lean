import RegisterLang.Proofs.Grammar.Failure
import RegisterLang.Proofs.Grammar.Open

/-!
# Every syntax error is at the first hopeless token

Whatever is read before a syntax error is the start of something that can be read. Statements and
directives are completed here, like expressions before, and then whole token lists.
-/

namespace RegisterLang

namespace Grammar

open Parse

section

variable {m : Nat} {inner : Production → Parse Tree} (hinner : Sound m inner)
  (hopen : ∀ production s rest, Blocked (inner production s) rest →
    Open (readingOf production) s.pending rest)
include hinner hopen

/-! ### Statements -/

omit hinner hopen in
/-- A return of nothing is a statement, so wherever a statement may start, one can be put. -/
theorem open_statement_here (rest : List Token) : Open (Reading .statement) rest rest := by
  refine .here [.bare .keyword "return", .bare .delimiter ";"] rfl 1 fun k ys => ?_
  exact ⟨_, .returnsNothing rfl rfl⟩

omit hinner in
/-- Where a statement gets stuck, what was read of it can be completed. -/
theorem open_statement {s : ParseState} {rest : List Token} (h : Blocked (statement inner s) rest) :
    Open (Reading .statement) s.pending rest :=
  hopen .statement { s with entered := s.next :: s.entered } rest h

/-- Where one of the statements gets stuck, it can be completed, and the ones in front of it
stand. -/
theorem open_statementsUntil {isEnd : Token → Bool} {room : List Token} {s : ParseState}
    {rest : List Token} (h : Blocked (statementsUntil inner isEnd room s) rest) :
    Open (Reading .statements) s.pending rest := by
  induction room generalizing s with
  | nil => exact h.not_ok.elim
  | cons _ room ih =>
    rw [statementsUntil, liftM_eq, next_bind_run] at h
    split at h
    · exact h.not_ok.elim
    · rcases h.of_bind with h | ⟨first, s₁, hfirst, h⟩
      · refine (open_statement hopen h).imp 0 ?_
        rintro n us' ys ⟨first, hfirst⟩
        exact ⟨[first], .moreStatements hfirst .noStatement⟩
      · have hreads := reads_of_statement hinner hfirst
        refine (ih h.of_bind_pure).within [] rfl m 0 ?_
        rintro n hn us' ys hapart ⟨others, hothers⟩
        obtain ⟨xs', hxs, hreads'⟩ := hreads.graft hapart
        exact ⟨xs', hxs, first :: others, .moreStatements (hreads'.mono hn) hothers⟩

omit hinner in
/-- Where a value gets stuck, it can be completed and closed with a semicolon. -/
theorem open_initialValue {s : ParseState} {rest : List Token}
    (h : Blocked (initialValue inner s) rest) : Open (Reading .initialValue) s.pending rest := by
  rcases h.of_bind with h | ⟨value, s₁, _, h⟩
  · refine (open_expression hopen h).within [.bare .delimiter ";"] rfl 0 0 ?_
    rintro n _ us' ys _ ⟨value, hvalue⟩
    exact ⟨us', .refl _ _, value, .closedValue hvalue rfl⟩
  · rcases h.of_discard_bind with h | ⟨_, _, _, h⟩
    · rw [matchDelimiter, liftM_eq, checkDelimiter_bind_run] at h
      split at h
      · exact h.not_ok.elim
      · exact h.not_ok.elim
    · exact h.not_ok.elim

omit hinner in
/-- Where a declaration gets stuck, it can be completed with what its form still lacks: a register,
an equals sign, a value or a statement. -/
theorem open_declaration {isConst : Bool} {s : ParseState} {rest : List Token}
    (h : Blocked (declaration inner isConst s) rest) :
    Open (Reading (.declaration isConst)) s.pending rest := by
  have value (n : Nat) (ys : List Token) : Reads (n + 1) (.initialValue _)
      (.bare .identifier "x" :: .bare .delimiter ";" :: ys) ys :=
    .closedValue (reads_expression_identifier n "x" _) rfl
  rcases h.of_consume_bind (by decide) with rfl | ⟨register, s₁, hkind, hpending, h⟩
  · refine .here [.bare .register "x", .bare .assignOperator "=", .bare .identifier "x",
      .bare .delimiter ";"] rfl 1 fun k ys => ?_
    exact ⟨_, .plainDeclaration rfl rfl (value k ys)⟩
  · rw [hpending]
    rw [liftM_eq, check_bind_run] at h
    split at h
    · next htype =>
      have htype : s₁.next.kind = .typeName := eq_of_beq htype
      obtain ⟨s₂, hpending₁, h⟩ := h.of_advance_bind (by rw [htype]; decide)
      rw [hpending₁]
      rw [identifier_eq, pure_bind_run, liftM_eq, checkIs_bind_run] at h
      split at h
      · next hequals =>
        obtain ⟨s₃, hpending₂, h⟩ :=
          h.of_discard_advance_bind (kind_ne_of_is (by decide) hequals)
        rw [hpending₂]
        refine (open_initialValue hopen h.of_bind_pure).within [] rfl 0 0 ?_
        rintro n _ us' ys _ ⟨value, hvalue⟩
        exact ⟨_, (Grafted.refl _ _).cons.cons.cons, _,
          .typedDeclaration hkind htype hequals hvalue⟩
      · refine (open_statement hopen h.of_bind_pure).within [] rfl 0 0 ?_
        rintro n _ us' ys _ ⟨statement, hstatement⟩
        refine ⟨_, (Grafted.refl _ _).cons.cons, _, .statementDeclaration hkind htype ?_ hstatement⟩
        obtain ⟨first, tokens, rfl, hstarts⟩ := hstatement.starts rfl
        rintro next ⟨⟩
        exact not_is_equals_of_startsStatement hstarts
    · rcases h.of_discard_bind with h | ⟨equals, s₂, hequals, h⟩
      · have hrest : rest = s₁.pending := by
          rw [← bind_pure (consumeIf _ _)] at h
          rcases h.of_consumeIf_bind (fun _ => kind_ne_of_is (by decide)) with
            hrest | ⟨_, _, _, _, h⟩
          · exact hrest
          · exact h.not_ok.elim
        subst hrest
        refine .missing [.bare .assignOperator "=", .bare .identifier "x", .bare .delimiter ";"] rfl
          1 fun k ys => ?_
        exact ⟨_, (Grafted.refl _ _).cons, _, .plainDeclaration hkind rfl (value k ys)⟩
      · obtain ⟨hequals, hpending₁⟩ :=
          pending_of_consumeIf (fun _ => kind_ne_of_is (by decide)) hequals
        rw [hpending₁]
        refine (open_initialValue hopen h.of_bind_pure).within [] rfl 0 0 ?_
        rintro n _ us' ys _ ⟨value, hvalue⟩
        exact ⟨_, (Grafted.refl _ _).cons.cons, _, .plainDeclaration hkind hequals hvalue⟩

/-- Where a return gets stuck, its value can be completed, or the semicolon is all that is
missing. -/
theorem open_returning {s : ParseState} {rest : List Token} (hkeyword : s.next.is .keyword "return")
    (h : Blocked (returning inner s) rest) : Open (Reading .statement) s.pending rest := by
  obtain ⟨s₁, hpending, h⟩ := h.of_advance_bind (kind_ne_of_is (by decide) hkeyword)
  rw [hpending]
  rw [liftM_eq, checkDelimiter_bind_run] at h
  split at h
  · rw [pure_bind_run] at h
    obtain rfl := h.of_discard_consumeDelimiter_bind_pure
    refine .missing [.bare .delimiter ";"] rfl 1 fun k ys => ?_
    exact ⟨_, (Grafted.refl _ _).cons, _, .returnsNothing hkeyword rfl⟩
  · rw [map_eq_pure_bind, bind_assoc] at h
    simp only [pure_bind] at h
    rcases open_closedExpression hinner hopen h with hvalue | ⟨_, _, _, _, _, h⟩
    · refine hvalue.within [] rfl 0 1 ?_
      rintro n _ us' ys _ ⟨value, semicolon, hvalue, hsemicolon⟩
      exact ⟨_, (Grafted.refl _ _).cons, _, .returnsValue hkeyword hvalue hsemicolon⟩
    · exact h.not_ok.elim

/-- Where a block gets stuck, a statement in it can be completed, or one of its braces is
missing. -/
theorem open_block {s : ParseState} {rest : List Token} (h : Blocked (block inner s) rest) :
    Open (Reading .block) s.pending rest := by
  rcases h.of_consumeDelimiter_bind with rfl | ⟨opening, s₁, hopening, hpending, h⟩
  · refine .here [.bare .delimiter openingBrace, .bare .delimiter closingBrace] rfl 0 fun n ys => ?_
    exact ⟨_, .block (Token.isDelimiter_bare _) .noStatement (Token.isDelimiter_bare _)⟩
  · rw [hpending]
    rw [liftM_eq, room_bind_run] at h
    have hreads {isEnd : Token → Bool} (trees : List Tree) (s' : ParseState)
        (htrees : statementsUntil inner isEnd s₁.rest s₁ = .ok trees s') :
        Reads m (.statements trees) s₁.pending s'.pending :=
      (reads_of_statementsUntil hinner s₁.length_pending_le htrees).1
    rcases open_closed hreads (open_statementsUntil hinner hopen) h with
      htrees | ⟨_, _, _, _, _, h⟩
    · refine htrees.within [] rfl 0 0 ?_
      rintro n _ us' ys _ ⟨trees, closing, htrees, hclosing⟩
      exact ⟨_, (Grafted.refl _ _).cons, _, .block hopening htrees hclosing⟩
    · exact h.not_ok.elim

end

/-! ### Directives -/

section

variable {m : Nat}

/-- Some tree is read as a statement that starts with `keyword`. -/
def Directed (keyword : Token) (n : Nat) (xs ys : List Token) : Prop :=
  Reading .statement n (keyword :: xs) ys

/-- Empty braces are a block. -/
theorem reads_emptyBlock (n : Nat) (ys : List Token) :
    Reads n (.block (.block (Token.bare .delimiter openingBrace).location []))
      (.bare .delimiter openingBrace :: .bare .delimiter closingBrace :: ys) ys :=
  .block (Token.isDelimiter_bare _) .noStatement (Token.isDelimiter_bare _)

/-- Where an import gets stuck, some of its path and delimiters are missing, and there they can be
put. -/
theorem open_importUnit {keyword : Token} {s : ParseState} {rest : List Token}
    (hkeyword : keyword.is .directive "import") (h : Blocked (importUnit (m := Parse) s) rest) :
    Open (Directed keyword) s.pending rest := by
  rcases h.of_discard_consumeDelimiter_bind with rfl | ⟨opening, s₁, hopening, hpending, h⟩
  · refine .here [.bare .delimiter "(", .bare .string "", .bare .delimiter ")",
      .bare .delimiter ";"] rfl 1 fun k ys => ?_
    exact ⟨_, .imports hkeyword rfl rfl rfl rfl⟩
  · rw [hpending]
    rw [liftM_eq, next_bind_run] at h
    split at h
    · rcases h.of_bind with h | ⟨u, s₂, hfail, _⟩
      · obtain rfl := h.of_fail (by rintro word ⟨⟩)
        refine .missing [.bare .string "", .bare .delimiter ")", .bare .delimiter ";"] rfl 1
          fun k ys => ?_
        exact ⟨_, (Grafted.refl _ _).cons, _, .imports hkeyword hopening rfl rfl rfl⟩
      · exact absurd hfail fail_ne_ok
    · next hkind =>
      have hkind : s₁.next.kind = .string := not_not.mp hkind
      obtain ⟨s₂, hpending₁, h⟩ := h.of_discard_advance_bind (by rw [hkind]; decide)
      rw [hpending₁]
      rcases h.of_discard_consumeDelimiter_bind with rfl | ⟨closing, s₃, hclosing, hpending₂, h⟩
      · refine .missing [.bare .delimiter ")", .bare .delimiter ";"] rfl 1 fun k ys => ?_
        exact ⟨_, (Grafted.refl _ _).cons.cons, _, .imports hkeyword hopening hkind rfl rfl⟩
      · rw [hpending₂]
        obtain rfl := h.of_discard_consumeDelimiter_bind_pure
        refine .missing [.bare .delimiter ";"] rfl 1 fun k ys => ?_
        exact ⟨_, (Grafted.refl _ _).cons.cons.cons, _,
          .imports hkeyword hopening hkind hclosing rfl⟩

/-- Where a type gets stuck, its name is missing behind the colon. -/
theorem open_typeAfterColon {what : String} {s : ParseState} {rest : List Token}
    (h : Blocked (typeAfterColon (m := Parse) what s) rest) :
    Open (Reading .typeAfterColon) s.pending rest := by
  rcases h.of_matchDelimiter_bind with ⟨colon, s₁, hcolon, hpending, h⟩ | h
  · rw [if_pos rfl] at h
    rw [hpending]
    rcases h.of_consume_bind (by decide) with rfl | ⟨_, _, _, _, h⟩
    · refine .missing [.bare .identifier "x"] rfl 0 fun n ys => ?_
      exact ⟨_, (Grafted.refl _ _).cons, _, .someType hcolon rfl⟩
    · exact h.not_ok.elim
  · exact h.not_ok.elim

/-- Where a parameter gets stuck, its name or its type is missing. -/
theorem open_param {s : ParseState} {rest : List Token} (h : Blocked (param (m := Parse) s) rest) :
    Open (Reading .param) s.pending rest := by
  rcases h.of_consume_bind (by decide) with rfl | ⟨name, s₁, hkind, hpending, h⟩
  · exact .here [.bare .identifier "x"] rfl 0 fun n ys => ⟨_, .param rfl .noType⟩
  · rw [hpending]
    refine (open_typeAfterColon h.of_bind_pure).within [] rfl 0 0 ?_
    rintro n _ us' ys _ ⟨typeName, htype⟩
    exact ⟨_, (Grafted.refl _ _).cons, _, .param hkind htype⟩

/-- Where further parameters get stuck, the last of them can be completed. -/
theorem open_furtherParams {room : List Token} {s : ParseState} {rest : List Token}
    (h : Blocked (furtherParams (m := Parse) room s) rest) :
    Open (Reading .furtherParams) s.pending rest := by
  induction room generalizing s with
  | nil => exact h.not_ok.elim
  | cons _ room ih =>
    rw [furtherParams] at h
    rcases h.of_matchDelimiter_bind with ⟨comma, s₁, hcomma, hpending, h⟩ | h
    · rw [if_pos rfl] at h
      rw [hpending]
      rcases h.of_bind with h | ⟨first, s₂, hfirst, h⟩
      · refine (open_param h).within [] rfl 0 0 ?_
        rintro n _ us' ys _ ⟨first, hfirst⟩
        exact ⟨_, (Grafted.refl _ _).cons, [first], .furtherParam hcomma hfirst .noFurtherParam⟩
      · have hreads := reads_of_param (n := 0) hfirst
        refine (ih h.of_bind_pure).within [] rfl 0 0 ?_
        rintro n _ us' ys hapart ⟨others, hothers⟩
        obtain ⟨xs', hxs, hreads'⟩ := hreads.graft hapart
        exact ⟨_, hxs.cons, first :: others,
          .furtherParam hcomma (hreads'.mono (Nat.zero_le n)) hothers⟩
    · exact h.not_ok.elim

/-- Where parameters get stuck, the last of them can be completed, and they can be closed. -/
theorem open_params {s : ParseState} {rest : List Token}
    (h : Blocked (params (m := Parse) s) rest) :
    Open (Closed .params ")") s.pending rest := by
  have finish {trees : List Tree} {s₂ : ParseState} {what : String} {tree : Tree}
      (hreads : Reads 0 (.params trees) s.pending s₂.pending)
      (h : Blocked ((discard (consumeDelimiter ")" what) >>= fun _ => pure tree) s₂) rest) :
      Open (Closed .params ")") s.pending rest := by
    obtain rfl := h.of_discard_consumeDelimiter_bind_pure
    refine .behind hreads [.bare .delimiter ")"] rfl 0 ?_
    exact fun n _ xs' ys _ hreads' => ⟨trees, _, hreads', rfl⟩
  rw [params, liftM_eq, get_bind_run, paramsBehind, liftM_eq, checkDelimiter_bind_run] at h
  split at h
  · exact finish .noParam h
  · rcases h.of_bind with h | ⟨first, s₁, hfirst, h⟩
    · refine (open_param h).within [.bare .delimiter ")"] rfl 0 0 ?_
      rintro n _ us' ys _ ⟨first, hfirst⟩
      exact ⟨us', .refl _ _, [first], _, .someParams hfirst .noFurtherParam, rfl⟩
    · have hreads := reads_of_param (n := 0) hfirst
      rw [liftM_eq, room_bind_run] at h
      rcases h.of_bind with h | ⟨others, s₂, hothers, h⟩
      · refine (open_furtherParams h).within [.bare .delimiter ")"] rfl 0 0 ?_
        rintro n _ us' ys hapart ⟨others, hothers⟩
        obtain ⟨xs', hxs, hreads'⟩ := hreads.graft hapart
        exact ⟨xs', hxs, first :: others, _,
          .someParams (hreads'.mono (Nat.zero_le n)) hothers, rfl⟩
      · exact finish (.someParams hreads (reads_of_furtherParams hothers)) h

variable {inner : Production → Parse Tree} (hinner : Sound m inner)
  (hopen : ∀ production s rest, Blocked (inner production s) rest →
    Open (readingOf production) s.pending rest)
include hinner hopen

/-- Where a function gets stuck, the part at which it does can be completed, and those behind it can
be put. -/
theorem open_function {keyword : Token} {s : ParseState} {rest : List Token}
    (hkeyword : keyword.is .directive "func") (h : Blocked (function inner s) rest) :
    Open (Directed keyword) s.pending rest := by
  rcases h.of_consume_bind (by decide) with rfl | ⟨name, s₁, hkind, hpending, h⟩
  · refine .here [.bare .identifier "f", .bare .delimiter "(", .bare .delimiter ")",
      .bare .delimiter openingBrace, .bare .delimiter closingBrace] rfl 1 fun k ys => ?_
    exact ⟨_, .function hkeyword rfl rfl .noParam rfl .noType (reads_emptyBlock k ys)⟩
  · rw [hpending]
    rcases h.of_discard_consumeDelimiter_bind with rfl | ⟨opening, s₂, hopening, hpending₁, h⟩
    · refine .missing [.bare .delimiter "(", .bare .delimiter ")", .bare .delimiter openingBrace,
        .bare .delimiter closingBrace] rfl 1 fun k ys => ?_
      exact ⟨_, (Grafted.refl _ _).cons, _,
        .function hkeyword hkind rfl .noParam rfl .noType (reads_emptyBlock k ys)⟩
    · rw [hpending₁]
      rcases h.of_bind with h | ⟨list, s₃, hlist, h⟩
      · refine (open_params h).within
          [.bare .delimiter openingBrace, .bare .delimiter closingBrace] rfl 0 1 ?_
        rintro n _ us' ys _ ⟨params, closing, hparams, hclosing⟩
        exact ⟨_, (Grafted.refl _ _).cons.cons, _,
          .function hkeyword hkind hopening hparams hclosing .noType (reads_emptyBlock n ys)⟩
      · obtain ⟨params, closing, _, hparams, hclosing⟩ := reads_of_params (n := m) hlist
        rcases h.of_bind with h | ⟨returnType, s₄, htype, h⟩
        · refine (open_typeAfterColon h).within
            [.bare .delimiter openingBrace, .bare .delimiter closingBrace] rfl m 1 ?_
          rintro n hn us' ys _ ⟨returnType, htype⟩
          obtain ⟨xs', hxs, hparams'⟩ := hparams.graft (.cons closing _ us')
          exact ⟨_, hxs.behind.cons.cons, _, .function hkeyword hkind hopening (hparams'.mono hn)
            hclosing htype (reads_emptyBlock n ys)⟩
        · have htype := reads_of_typeAfterColon (n := m) htype
          refine (open_block hinner hopen h.of_bind_pure).within [] rfl m 1 ?_
          rintro n hn us' ys hapart ⟨body, hbody⟩
          obtain ⟨vs, hvs, htype'⟩ := htype.graft hapart
          obtain ⟨xs', hxs, hparams'⟩ := hparams.graft (.cons closing _ vs)
          exact ⟨_, (hxs.behind.trans hvs).cons.cons, _, .function hkeyword hkind hopening
            (hparams'.mono hn) hclosing (htype'.mono hn) hbody⟩

/-- Where a loop gets stuck, the part at which it does can be completed, and those behind it can be
put. -/
theorem open_whileLoop {keyword : Token} {s : ParseState} {rest : List Token}
    (hkeyword : keyword.is .directive "while") (h : Blocked (whileLoop inner keyword s) rest) :
    Open (Directed keyword) s.pending rest := by
  rcases h.of_discard_consumeDelimiter_bind with rfl | ⟨opening, s₁, hopening, hpending, h⟩
  · refine .here [.bare .delimiter "(", .bare .identifier "x", .bare .delimiter ")",
      .bare .delimiter openingBrace, .bare .delimiter closingBrace] rfl 2 fun k ys => ?_
    exact ⟨_, .loop hkeyword rfl (reads_expression_identifier k "x" _) rfl .noCapture
      (reads_emptyBlock _ ys)⟩
  · rw [hpending]
    rcases open_closedExpression hinner hopen h with
      hcondition | ⟨condition, closing, s₃, hclosing, hcondition, h⟩
    · refine hcondition.within
        [.bare .delimiter openingBrace, .bare .delimiter closingBrace] rfl 0 1 ?_
      rintro n _ us' ys _ ⟨condition, closing, hcondition, hclosing⟩
      exact ⟨_, (Grafted.refl _ _).cons, _, .loop hkeyword hopening hcondition hclosing .noCapture
        (reads_emptyBlock n ys)⟩
    -- Behind the condition, a capture and then a block make the loop complete.
    · have whole {reads : Nat → List Token → List Token → Prop} (tail : List Token)
          (htail : tail.all (·.kind != .endOfInput)) {us : List Token} (hus : Open reads us rest)
          (hbody : ∀ n ≥ m, ∀ us' ys, StaysApart (fun token => isSign token = false) us us' →
            reads n us' (tail ++ ys) → ∃ xs' capture body zs, Grafted s₃.pending us xs' us' ∧
              Reads n (.capture capture) xs' zs ∧ Reads n (.block body) zs ys) :
          Open (Directed keyword) (opening :: s₁.pending) rest := by
        refine hus.within tail htail m 1 fun n hn us' ys hapart hreads => ?_
        obtain ⟨xs', capture, body, zs, hxs, hcapture, hbody⟩ := hbody n hn us' ys hapart hreads
        obtain ⟨ws, hws, hcondition'⟩ := hcondition.graft (.cons closing _ xs')
        exact ⟨_, (hws.behind.trans hxs).cons, _, .loop hkeyword hopening (hcondition'.mono hn)
          hclosing hcapture hbody⟩
      have finish {capture : Option Tree} {tree : Node Location → Tree} {s₄ : ParseState}
          (hcapture : Reads m (.capture capture) s₃.pending s₄.pending)
          (h : Blocked ((do return tree (← block inner) : Parse Tree) s₄) rest) :
          Open (Directed keyword) (opening :: s₁.pending) rest := by
        refine whole [] rfl (open_block hinner hopen h.of_bind_pure) ?_
        rintro n hn us' ys hapart ⟨body, hbody⟩
        obtain ⟨xs', hxs, hcapture'⟩ := hcapture.graft hapart
        exact ⟨xs', _, body, us', hxs, hcapture'.mono hn, hbody⟩
      rcases h.of_matchDelimiter_bind with ⟨bar, s₄, hbar, hpending₂, h⟩ | h
      · rw [if_pos rfl] at h
        rcases open_closed (fun _ _ => reads_of_primary hinner) (open_primary hinner hopen) h with
          hcapture | ⟨capture, bar', s₅, hbar', hcapture, h⟩
        · refine whole [.bare .delimiter openingBrace, .bare .delimiter closingBrace] rfl
            hcapture ?_
          rintro n _ us' ys _ ⟨capture, bar', hcapture, hbar'⟩
          rw [hpending₂]
          exact ⟨_, _, _, _, (Grafted.refl _ _).cons, .someCapture hbar hcapture hbar',
            reads_emptyBlock n ys⟩
        · have hcaptured := Derives.someCapture hbar hcapture hbar'
          rw [← hpending₂] at hcaptured
          exact finish hcaptured h
      · exact finish .noCapture h

/-- Where a directive gets stuck, its form can be completed. One without a form is itself what
cannot be read on. -/
theorem open_directive {s : ParseState} {rest : List Token} (hkind : s.next.kind = .directive)
    (h : Blocked (directive inner s) rest) : Open (Reading .statement) s.pending rest := by
  obtain ⟨s₁, hpending, h⟩ := h.of_advance_bind (by rw [hkind]; decide)
  rw [hpending]
  -- What a directive asks for behind its keyword makes a statement with the keyword.
  have whole (hopen : Open (Directed s.next) s₁.pending rest) :
      Open (Reading .statement) (s.next :: s₁.pending) rest :=
    hopen.within [] rfl 0 0 fun _ _ us' ys _ hreads => ⟨_, (Grafted.refl _ _).cons, hreads⟩
  cases hword : Directive.ofWord? s.next.lexeme with
  | none =>
    simp only [hword] at h
    cases h
  | some d =>
    have his : s.next.is .directive d.word :=
      Token.is_iff.mpr ⟨hkind, Directive.ofWord?_eq_some_iff.mp hword⟩
    simp only [hword] at h
    cases d with
    | importUnit => exact whole (open_importUnit his h)
    | const =>
      refine (open_declaration hopen h).within [] rfl 0 1 ?_
      rintro n _ us' ys _ ⟨tree, htree⟩
      exact ⟨_, (Grafted.refl _ _).cons, tree, .declaresConst his htree⟩
    | func => exact whole (open_function hinner hopen his h)
    | whileLoop => exact whole (open_whileLoop hinner hopen his h)
    | typeOf | forLoop =>
      cases h with
      | next _ hunsupported => exact absurd rfl (hunsupported _)
      | keyword => exact open_statement_here _

/-! ### Any statement -/

/-- An expression statement that got past its first token is completed like its expression. Only
when nothing but a register was read, the completion must not turn it into a declaration. -/
theorem open_expressionStatement {s : ParseState} {rest : List Token}
    (hstarts : startsOperand s.next → StartsExpressionStatement s.pending)
    (h : Blocked (expressionStatement inner s) rest) :
    Open (Reading .statement) s.pending rest := by
  rcases open_closedExpression hinner hopen h with hclosed | ⟨_, _, _, _, _, h⟩
  · obtain ⟨zs, hzs, least, hreads⟩ := hclosed
    obtain ⟨xs₀, ⟨taken, htaken, hxs₀⟩, tree₀, _, htree₀, _⟩ := hreads least (Nat.le_refl _) []
    cases taken with
    | nil =>
      rw [htaken]
      exact open_statement_here rest
    | cons first taken =>
      have hfirst : startsOperand first := by
        obtain ⟨first', tokens, hcons, hoperand⟩ := htree₀.starts rfl
        rw [hxs₀, List.cons_append, List.cons.injEq] at hcons
        rw [hcons.1]
        exact hoperand
      have hpending : StartsExpressionStatement (first :: (taken ++ rest)) := by
        have hnext := (ParseState.next_eq_of_pending htaken).1
        have h := hstarts (by rw [hnext]; exact hfirst)
        rwa [htaken] at h
      obtain ⟨_, ⟨⟩, hkind⟩ := id hpending
      by_cases hregister : first.kind = .register ∧ taken = []
      · obtain ⟨hregister, rfl⟩ := hregister
        refine .missing [.bare .delimiter ";"] rfl 2 fun k ys => ?_
        refine ⟨_, ⟨[first], htaken, rfl⟩, _, .evaluates ⟨first, rfl, .inr ⟨hregister, ?_⟩⟩
          (.value (.single (.plain (.bare (.register hregister))))) rfl⟩
        rintro ⟨_, htype | hequals⟩
        · cases htype
        · cases hequals
      · refine ⟨zs, hzs, least + 1, fun n hn ys => ?_⟩
        obtain ⟨k, rfl⟩ : ∃ k, n = k + 1 := ⟨n - 1, by omega⟩
        obtain ⟨xs', ⟨taken', htaken', rfl⟩, tree, semicolon, htree, hsemicolon⟩ :=
          hreads k (by omega) ys
        obtain rfl := List.append_cancel_right (htaken'.symm.trans htaken)
        refine ⟨_, ⟨_, htaken, rfl⟩, tree, .evaluates ?_ htree hsemicolon⟩
        rcases hkind with hkind | ⟨hkind, _⟩
        · exact ⟨first, rfl, .inl hkind⟩
        · cases taken with
          | nil => exact absurd ⟨hkind, rfl⟩ hregister
          | cons second taken => exact hpending.congr
  · exact h.not_ok.elim

/-- Where a statement gets stuck, it can be completed, whatever it starts with. -/
theorem open_statementBody {s : ParseState} {rest : List Token}
    (h : Blocked (statementBody inner s) rest) : Open (Reading .statement) s.pending rest := by
  obtain ⟨step, hstep, hrun⟩ := exists_dispatches inner s
  rw [hrun] at h
  cases hstep with
  | declaration =>
    refine (open_declaration hopen h).imp 1 ?_
    rintro n us' ys ⟨tree, htree⟩
    exact ⟨tree, .declares htree⟩
  | expression hstarts => exact open_expressionStatement hinner hopen hstarts h
  | returning hreturn => exact open_returning hinner hopen hreturn h
  | directive hkind => exact open_directive hinner hopen hkind h
  | reserved | unexpected =>
    obtain rfl := h.of_fail (by rintro word ⟨⟩)
    exact open_statement_here _

end

/-! ### All levels -/

/-- A level of nesting gets stuck where its step does. -/
theorem exists_blocked_of_nested {limit : Int} {step : Parse Tree} {s : ParseState}
    {rest : List Token} (h : Blocked (nested limit step s) rest) :
    ∃ s₁, Blocked (step s₁) rest ∧ s.pending = s₁.pending := by
  by_cases hdeep : limit ≤ s.depth
  · rw [nested_run_of_le hdeep] at h
    cases h with
    | next hplain _ => exact absurd rfl (hplain limit)
  · rw [nested_run hdeep] at h
    exact ⟨{ s with depth := s.depth + 1 }, h.of_closing, rfl⟩

/-- What a production has read when it gets stuck can be completed. -/
theorem open_produceWithin (limit : Int) (levels : Nat) (production : Production) (s : ParseState)
    (rest : List Token) (h : Blocked (produceWithin (m := Parse) limit levels production s) rest) :
    Open (readingOf production) s.pending rest := by
  induction levels generalizing production s rest with
  | zero =>
    have hresult : produceWithin (m := Parse) limit 0 production s =
        .error (.rejected ⟨.tooDeep limit, s.next⟩) s := rfl
    rw [hresult] at h
    cases h with
    | next hdeep _ => exact absurd rfl (hdeep limit)
  | succ levels ih =>
    have hsound := produceWithin_sound limit levels
    obtain ⟨s₁, hstep, hpending⟩ := exists_blocked_of_nested h
    rw [hpending]
    cases production with
    | statement => exact open_statementBody hsound ih hstep
    | expression => exact open_assignment hsound ih hstep
    | operand => exact open_unary hsound ih hstep

/-- Where any production gets stuck, what was read of it can be completed. -/
theorem open_produce (limit : Int) (production : Production) (s : ParseState) (rest : List Token)
    (h : Blocked (produce (m := Parse) limit production s) rest) :
    Open (readingOf production) s.pending rest :=
  open_produceWithin limit _ production s rest h

/-- A list whose tokens in front of the first end of the input are an expression is read as that
expression. -/
theorem parseTokens_of_reads_expression {n : Nat} {tree : Tree} {tokens : List Token}
    (hended : ∃ last ∈ tokens.getLast?, last.kind = .endOfInput)
    (h : Reads n (.expression tree) (tokens.takeWhile (·.kind != .endOfInput)) []) :
    parseTokens .expression n tokens = .ok tree := by
  obtain ⟨start, hstart, htokens⟩ := ParseState.exists_ofTokens hended
  have hends : EndsExpression [] := ⟨by rintro t ⟨⟩, by rintro t ⟨⟩, by rintro t ⟨⟩⟩
  have hyields := yields_expression (produce_complete (n : Int)) h hends
  obtain ⟨s, hrun, hpending, _⟩ := hyields start.rewind
    (by rw [start.pending_rewind, htokens]) start.depth_rewind
  have hkind := ParseState.pending_eq_nil_iff.mp hpending
  have hparse : Goal.expression.parse n start = .ok tree s := by
    rw [Goal.parse_run, Goal.read, loneExpression, expression, framed_eq, bind_of_eq_ok hrun,
      liftM_eq, check_bind_run, hkind]
    rfl
  exact parseTokens_of_ok hstart hparse

end Grammar

open Grammar Parse

/-! ### Whole readings -/

namespace Goal

/-- What the tokens in front of the first end of the input must be read as. -/
def reading : Goal → Nat → List Token → List Token → Prop
  | program => Reading .statements
  | expression => Reading .expression

/-- Reading succeeds, with some limit on nesting, on what has a derivation. -/
theorem exists_parseTokens_of_reading {goal : Goal} {n : Nat} {tokens : List Token}
    (hended : ∃ last ∈ tokens.getLast?, last.kind = .endOfInput)
    (h : goal.reading n (tokens.takeWhile (·.kind != .endOfInput)) []) :
    ∃ tree, parseTokens goal n tokens = .ok tree := by
  cases goal with
  | program =>
    obtain ⟨trees, htrees⟩ := h
    obtain ⟨start, hstart, htokens⟩ := ParseState.exists_ofTokens hended
    have hreads : Reads (n : Int).toNat (.statements trees)
        (start.tokens.takeWhile (·.kind != .endOfInput)) [] := by
      rwa [htokens, Int.toNat_natCast]
    obtain ⟨s, hrun⟩ := program_eq_ok_iff.mpr ⟨trees, rfl, hreads⟩
    have hparse : Goal.program.parse n start = .ok _ s := hrun
    exact ⟨_, parseTokens_of_ok hstart hparse⟩
  | expression =>
    obtain ⟨tree, htree⟩ := h
    exact ⟨tree, parseTokens_of_reads_expression hended htree⟩

/-- A reading that gets stuck from the start can be completed in front of what it is stuck at. -/
theorem exists_grafted_of_blocked {goal : Goal} {limit : Int} {s : ParseState} {rest : List Token}
    (h : Blocked (goal.read (m := Parse) limit s) rest) :
    ∃ n xs' zs, Grafted s.pending rest xs' zs ∧ zs.all (·.kind != .endOfInput) ∧
      goal.reading n xs' [] := by
  have hproduce := open_produce limit
  -- What can be completed with anything behind it can be completed with nothing behind it.
  have close (h : Open goal.reading s.pending rest) :
      ∃ n xs' zs, Grafted s.pending rest xs' zs ∧ zs.all (·.kind != .endOfInput) ∧
        goal.reading n xs' [] := by
    obtain ⟨zs, hzs, least, hreads⟩ := h
    obtain ⟨xs', hxs, hreads⟩ := hreads least (Nat.le_refl _) []
    rw [List.append_nil] at hxs
    rw [completes, Bool.and_eq_true] at hzs
    exact ⟨least, xs', zs, hxs, hzs.2, hreads⟩
  cases goal with
  | program =>
    rw [read, Grammar.program, liftM_eq, next_bind_run, liftM_eq, room_bind_run] at h
    exact close (open_statementsUntil (produce_sound limit) hproduce h.of_bind_pure)
  | expression =>
    rcases h.of_bind with h | ⟨tree, s₁, htree, h⟩
    · exact close (open_expression hproduce h)
    · rw [liftM_eq, check_bind_run] at h
      split at h
      · exact h.not_ok.elim
      · obtain rfl := h.of_fail (by rintro word ⟨⟩)
        have hreads := (produce_sound limit).expression htree
        have hapart : StaysApart (fun token => isSign token = false) s₁.pending [] := by
          rintro _ next ⟨⟩
        obtain ⟨xs', hxs, hreads'⟩ := hreads.graft hapart
        exact ⟨_, xs', [], hxs, rfl, tree, hreads'⟩

/-- A syntax error that is not about nesting is where a run gets stuck. -/
theorem blocked_of_error {result : EStateM.Result ParseFailure ParseState Tree} {e : ParseError}
    {s : ParseState} (h : result = .error (.rejected e) s) (hdeep : e.cause.code ≠ "P007") :
    Blocked result (if e.cause.code = "P006" then e.token :: s.pending else s.pending) := by
  obtain ⟨cause, token⟩ := e
  subst h
  cases cause with
  | unsupportedDirective word => exact .keyword
  | tooDeep limit => exact absurd rfl hdeep
  | _ =>
    refine .next ?_ ?_
    · rintro limit ⟨⟩
    · rintro word ⟨⟩

/-- What was pending at the start is what has been passed since and what is pending now. -/
theorem pending_of_reaches {start s : ParseState} (hpassed : start.passed = [])
    (h : start.Reaches s) : start.pending = s.passed.reverse ++ s.pending := by
  have htokens := h.tokens
  rw [ParseState.tokens, ParseState.tokens, hpassed, List.reverse_nil, List.nil_append] at htokens
  rw [ParseState.pending, ← htokens, List.takeWhile_append_of_pos]
  · rfl
  · intro token hmem
    rcases h.passed token (List.mem_reverse.mp hmem) with hstart | hkind
    · rw [hpassed] at hstart
      cases hstart
    · simpa using hkind

/-- With the tokens of a completion and an end of the input, what was passed is read. -/
theorem exists_parseTokens_of_grafted {goal : Goal} {n : Nat} {xs rest xs' zs taken : List Token}
    (hxs : Grafted xs rest xs' zs) (htaken : xs = taken ++ rest)
    (hunended : ∀ token ∈ taken, token.kind ≠ .endOfInput) (hzs : zs.all (·.kind != .endOfInput))
    (hreads : goal.reading n xs' []) :
    ∃ suffix limit tree, (∃ last ∈ suffix.getLast?, last.kind = .endOfInput) ∧
      parseTokens goal limit (taken ++ suffix) = .ok tree := by
  obtain ⟨taken', htaken', rfl⟩ := hxs
  obtain rfl := List.append_cancel_right (htaken'.symm.trans htaken)
  have hlast : (zs ++ [Token.bare .endOfInput ""]).getLast? = some (.bare .endOfInput "") := by
    rw [List.getLast?_append]
    rfl
  have hended : ∃ last ∈ (taken' ++ (zs ++ [Token.bare .endOfInput ""])).getLast?,
      last.kind = .endOfInput := by
    rw [List.getLast?_append, hlast]
    exact ⟨_, rfl, rfl⟩
  have hpending : (taken' ++ (zs ++ [Token.bare .endOfInput ""])).takeWhile
      (·.kind != .endOfInput) = taken' ++ zs := by
    rw [← List.append_assoc, List.takeWhile_append_of_pos]
    · simp
    · intro token hmem
      rcases List.mem_append.mp hmem with hmem | hmem
      · simpa using hunended token hmem
      · exact List.all_eq_true.mp hzs token hmem
  obtain ⟨tree, htree⟩ := exists_parseTokens_of_reading hended (by rwa [hpending])
  exact ⟨_, n, tree, ⟨_, hlast, rfl⟩, htree⟩

/-- A syntax error is reported at the first token that makes the input hopeless: the tokens in front
of it can be completed to a list that is read as the same goal. -/
theorem Ends.exists_completion {goal : Goal} {limit : Int} {tokens : List Token} {e : ParseError}
    {index : Nat} (h : goal.Ends limit tokens (.error (.rejected e)) index) :
    (e.cause.code ∈ ["P001", "P002", "P003", "P004", "P005"] →
      ∃ suffix limit' tree, (∃ last ∈ suffix.getLast?, last.kind = .endOfInput) ∧
        parseTokens goal limit' (tokens.take index ++ suffix) = .ok tree) ∧
    (e.cause.code = "P006" →
      ∃ suffix limit' tree, (∃ last ∈ suffix.getLast?, last.kind = .endOfInput) ∧
        parseTokens goal limit' (tokens.take (index - 1) ++ suffix) = .ok tree) := by
  obtain ⟨start, s, hstart, hrun, rfl⟩ := exists_of_ends_error h
  obtain ⟨rfl, hpassed, _, _, hrewind⟩ := ParseState.eq_of_ofTokens hstart
  rw [goal.parse_run, hrewind] at hrun
  have hreaches := Comparison.reaches_parse goal limit start
  rw [goal.parse_run, hrewind, hrun] at hreaches
  have hreaches : start.Reaches s := hreaches
  have hpending := pending_of_reaches hpassed hreaches
  have htokens : start.tokens = s.passed.reverse ++ s.next :: s.rest := hreaches.tokens.symm
  have hunended (token : Token) (hmem : token ∈ s.passed) : token.kind ≠ .endOfInput := by
    rcases hreaches.passed token hmem with hstart | hkind
    · rw [hpassed] at hstart
      cases hstart
    · exact hkind
  constructor
  · intro hcode
    have hword : e.cause.code ≠ "P006" := ne_of_mem_of_not_mem hcode (by decide)
    have hdeep : e.cause.code ≠ "P007" := ne_of_mem_of_not_mem hcode (by decide)
    have hblocked := blocked_of_error hrun hdeep
    rw [if_neg hword] at hblocked
    obtain ⟨n, xs', zs, hxs, hzs, hreads⟩ := exists_grafted_of_blocked hblocked
    have htake : start.tokens.take s.index = s.passed.reverse := by
      rw [htokens, ParseState.index, List.take_left' (by simp)]
    rw [htake]
    exact exists_parseTokens_of_grafted hxs hpending
      (fun token hmem => hunended token (List.mem_reverse.mp hmem)) hzs hreads
  · intro hcode
    have hblocked := blocked_of_error hrun (by rw [hcode]; decide)
    rw [if_pos hcode] at hblocked
    obtain ⟨n, xs', zs, hxs, hzs, hreads⟩ := exists_grafted_of_blocked hblocked
    have hshows := goal.showsFailure_read limit start _ s hrun
    obtain ⟨passed, hlast⟩ := List.head?_eq_some_iff.mp (hshows.mem_head?_passed hcode)
    have htake : start.tokens.take (s.index - 1) = passed.reverse := by
      rw [htokens, ParseState.index, hlast, List.length_cons, Nat.add_sub_cancel,
        List.reverse_cons, List.append_assoc, List.take_left' (by simp)]
    rw [hlast, List.reverse_cons, List.append_assoc] at hpending
    rw [htake]
    refine exists_parseTokens_of_grafted hxs hpending (fun token hmem => ?_) hzs hreads
    refine hunended token ?_
    rw [hlast]
    exact List.mem_cons_of_mem _ (List.mem_reverse.mp hmem)

/-- A parenthesis that is not closed can be. -/
theorem exists_completion_unclosedTokens :
    Goal.expression.Ends 64 unclosedTokens (.error (.rejected
        ⟨.expected "')' after expression", .bare .endOfInput ""⟩)) 2 ∧
      ∃ suffix limit' tree, (∃ last ∈ suffix.getLast?, last.kind = .endOfInput) ∧
        parseTokens .expression limit' (unclosedTokens.take 2 ++ suffix) = .ok tree := by
  have hends : Goal.expression.Ends 64 unclosedTokens (.error (.rejected
      ⟨.expected "')' after expression", .bare .endOfInput ""⟩)) 2 := ⟨_, rfl, rfl⟩
  exact ⟨hends, hends.exists_completion.1 (by decide)⟩

end Goal

end RegisterLang
