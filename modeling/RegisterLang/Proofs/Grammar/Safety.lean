import RegisterLang.Proofs.Grammar.Failure
import RegisterLang.Proofs.Grammar.Frames
import RegisterLang.Proofs.Token.Charwise
import RegisterLang.Proofs.Token.Lawful

/-!
# How reading ends

A source has a tree, a scanning error or a syntax error, unless the interpreter breaks off because
it has too few frames or a number has too many digits. What could fail besides is asking a table,
the text or the token list for something that is not there. The level above an operator always is a
level, the tokens that are looked at are in the list, and the directives of a text are in their
table.
-/

namespace RegisterLang

/-! ### Levels of precedence -/

/-- The level with a number, if there is one. -/
def Precedence.ofRank? (n : Nat) : Option Precedence :=
  all.find? (·.rank == n)

/-- No operator is on the level above all binary operators. -/
theorem Operator.level_ne_unary (op : String) : level op ≠ .unary := by
  intro hlevel
  have hle := Grammar.rank_le op
  rw [Grammar.rank, hlevel] at hle
  exact absurd hle (by decide)

/-- Above the level of every operator there is another one. -/
theorem Operator.exists_ofRank?_succ (op : String) :
    ∃ above, Precedence.ofRank? ((level op).rank + 1) = some above ∧
      above.rank = (level op).rank + 1 := by
  have hne := level_ne_unary op
  cases hlevel : level op with
  | unary => exact absurd hlevel hne
  | _ => exact ⟨_, rfl, rfl⟩

namespace Grammar

/-- What follows an operator is read on the level above that of the operator, which always is a
level: reading does not depend on what is done for a number that is none. -/
theorem climb_congr {m : Type → Type} {τ : Type} [Monad m] [LawfulMonad m] [MonadLiftT Parse m]
    [Reader m τ] {right right' : Nat → m (Node τ)}
    (hright : ∀ level : Precedence, right level.rank = right' level.rank) (least : Nat)
    (room : List Token) (left : Node τ) :
    climb right least room left = climb right' least room left := by
  induction room generalizing left with
  | nil => rfl
  | cons _ room ih =>
    refine bind_congr fun op => ?_
    obtain ⟨above, _, hrank⟩ := Operator.exists_ofRank?_succ op.lexeme
    have hoperand : right (rank op.lexeme + 1) = right' (rank op.lexeme + 1) := by
      rw [show rank op.lexeme + 1 = above.rank from hrank.symm]
      exact hright above
    simp only [hoperand, ih]

end Grammar

/-! ### Looking at tokens -/

namespace ParseState

/-- A look ahead is at a token of the list, and no further than at the last one. -/
theorem getElem?_tokens_min (s : ParseState) (n : Nat) :
    s.tokens[min (s.index + n) (s.tokens.length - 1)]? = some (s.peek n) := by
  have hlength : s.tokens.length = s.index + (s.rest.length + 1) := by simp [tokens, index]
  have hahead (i : Nat) : s.tokens[s.index + i]? = (s.next :: s.rest)[i]? := by
    rw [tokens, index, List.getElem?_append_right (by simp), List.length_reverse,
      Nat.add_sub_cancel_left]
  rw [peek, List.getD_eq_getElem?_getD]
  by_cases hn : n ≤ s.rest.length
  · have hmin : min (s.index + n) (s.tokens.length - 1) = s.index + n := by omega
    have hsome : n < (s.next :: s.rest).length := by simpa using Nat.lt_succ_of_le hn
    rw [hmin, hahead, List.getElem?_eq_getElem hsome, Option.getD_some]
  · have hmin : min (s.index + n) (s.tokens.length - 1) = s.index + s.rest.length := by omega
    have hnone : (s.next :: s.rest)[n]? = none :=
      List.getElem?_eq_none (by rw [List.length_cons]; omega)
    rw [hmin, hahead, hnone, Option.getD_none, List.getLastD_eq_getLast?, ← List.getLast?_cons,
      List.getLast?_eq_getElem?]
    rfl

/-- A look back is at a token of the list, and at the first one when none is passed. -/
theorem getElem?_tokens_previous (s : ParseState) :
    s.tokens[s.index - 1]? = some s.previous := by
  cases hpassed : s.passed with
  | nil =>
    have hindex : s.index = 0 := by rw [index, hpassed, List.length_nil]
    have hnext := s.getElem?_tokens_index
    rw [hindex] at hnext ⊢
    rw [previous, hpassed]
    exact hnext
  | cons last passed =>
    rw [previous, hpassed]
    exact (getElem?_tokens_index_sub_one (by rw [hpassed]; rfl)).2

end ParseState

/-! ### Outcomes -/

/-- The codes of scanning errors. -/
theorem ScanError.Cause.code_mem (cause : ScanError.Cause) :
    cause.code ∈ ["L001", "L002", "L003", "L004", "L005", "L006", "L007", "L008", "L009"] := by
  cases cause <;> simp [code]

/-- The codes of syntax errors other than that for a reserved word. -/
theorem ParseError.Cause.code_mem {cause : ParseError.Cause} (h : cause ≠ .unexpectedKeyword) :
    cause.code ∈ ["P001", "P002", "P004", "P005", "P006", "P007"] := by
  cases cause with
  | unexpectedKeyword => exact absurd rfl h
  | _ => simp [code]

/-- A token list has a tree, a syntax error at one of its tokens, or an unknown directive. -/
theorem cases_of_parseTokens {goal : Goal} {limit : Int} {tokens : List Token}
    (hended : ∃ last ∈ tokens.getLast?, last.kind = .endOfInput) :
    (∃ tree, parseTokens goal limit tokens = .ok tree) ∨
      (∃ e, parseTokens goal limit tokens = .error (.rejected e) ∧ e.token ∈ tokens ∧
        (e.cause = .unexpectedKeyword → e.token.kind = .keyword ∧ e.token.lexeme ≠ "return") ∧
        ∀ told, e.cause = .tooDeep told → told = limit) ∨
      ∃ token ∈ tokens, token.kind = .directive ∧ Directive.ofWord? token.lexeme = none ∧
        parseTokens goal limit tokens = .error (.unknownDirective token.lexeme) := by
  obtain ⟨result, index, hends⟩ := goal.exists_ends limit hended
  rw [Goal.parseTokens_of_ends hends]
  cases result with
  | ok tree => exact .inl ⟨tree, rfl⟩
  | error failure =>
    rcases hends.cases_of_error with ⟨e, rfl, htoken, hkeyword⟩ | ⟨token, htoken, hkind, hword, rfl⟩
    · exact .inr (.inl ⟨e, rfl, htoken, hkeyword⟩)
    · exact .inr (.inr ⟨token, htoken, hkind, hword, rfl⟩)

/-- What an interpreter lacks when it breaks reading off with a fault. It has no more frames than
the calls of the grammar may need below the limit, or fewer than the tree that was read needs; or it
does not write out the limit, which a failure would have to tell. -/
def Interpreter.Lacks (i : Interpreter) (goal : Goal) (limit : Int) (read : Option Tree) :
    Fault → Prop
  | .recursion => i.frames ≤ 14 * limit.toNat ∨ ∃ tree ∈ read, i.frames < goal.lastFrames tree
  | .digits => i.writes limit = false
  | .overflow | .memory => False

/-- An interpreter reads a token list as it is read, or it breaks off because it lacks something. -/
theorem cases_of_interpreter_parseTokens {i : Interpreter} {goal : Goal} {limit : Int}
    {tokens : List Token} (hended : ∃ last ∈ tokens.getLast?, last.kind = .endOfInput) :
    i.parseTokens goal limit tokens = .ok (parseTokens goal limit tokens) ∨
      ∃ fault, i.parseTokens goal limit tokens = .error fault ∧
        i.Lacks goal limit (parseTokens goal limit tokens).toOption fault := by
  rcases @interpreter_parseTokens_cases i goal limit tokens with
    ⟨hread, _⟩ | ⟨hbroken, hlacks⟩ | ⟨hbroken, failure, hfailure, htells⟩
  · exact .inl hread
  · refine .inr ⟨_, hbroken, hlacks.imp_right ?_⟩
    rintro ⟨tree, htree, hlt⟩
    exact ⟨tree, by rw [htree]; rfl, hlt⟩
  · refine .inr ⟨_, hbroken, ?_⟩
    rcases @cases_of_parseTokens goal limit tokens hended with
      ⟨tree, htree⟩ | ⟨⟨cause, token⟩, he, _, _, hlimit⟩ | ⟨token, _, _, _, he⟩
    · rw [hfailure] at htree
      cases htree
    · obtain rfl : failure = .rejected ⟨cause, token⟩ := Except.error.inj (hfailure.symm.trans he)
      cases cause with
      | tooDeep told =>
        obtain rfl := hlimit told rfl
        exact htells
      | _ => cases htells
    · obtain rfl : failure = .unknownDirective token.lexeme :=
        Except.error.inj (hfailure.symm.trans he)
      cases htells

/-- An interpreter reads a source as it is read, or it breaks off because it lacks something. -/
theorem cases_of_interpreter_parseSource {i : Interpreter} {goal : Goal} {limit : Int}
    (source file : String) :
    i.parseSource goal source file limit = .ok (parseSource goal source file limit) ∨
      ∃ fault, i.parseSource goal source file limit = .error fault ∧
        i.Lacks goal limit (parseSource goal source file limit).toOption fault := by
  cases hscan : scan source file with
  | error e =>
    rw [Grammar.parseSource_eq_error_scan.mpr hscan, Interpreter.parseSource, hscan]
    exact .inl rfl
  | ok tokens =>
    rw [interpreter_parseSource_of_scan hscan, Grammar.parseSource_of_scan hscan]
    have hread : ((parseTokens goal limit tokens).mapError SourceError.parse).toOption =
        (parseTokens goal limit tokens).toOption := by
      cases parseTokens goal limit tokens <;> rfl
    rw [hread]
    rcases @cases_of_interpreter_parseTokens i goal limit tokens (Scanner.ended_of_scan hscan) with
      h | ⟨fault, h, hlacks⟩
    · exact .inl (by rw [h]; rfl)
    · exact .inr ⟨fault, by rw [h]; rfl, hlacks⟩

/-- A document that is higher than there are frames is not read. -/
theorem interpreter_parseSource_of_lt {i : Interpreter} {goal : Goal} {limit : Int}
    {source file : String} {tree : Tree} (h : parseSource goal source file limit = .ok tree)
    (hlt : i.frames < goal.lastFrames tree) :
    i.parseSource goal source file limit = .error .recursion := by
  obtain ⟨tokens, hscan, htree⟩ := Grammar.parseSource_eq_ok.mp h
  rw [interpreter_parseSource_of_scan hscan, interpreter_parseTokens_of_lt htree hlt]
  rfl

/-- A source has a tree, a scanning error, or a syntax error at one of its tokens that is not the
one for a reserved word. -/
theorem cases_of_parseSource {goal : Goal} {limit : Int} (source file : String) :
    (∃ tree, parseSource goal source file limit = .ok tree) ∨
      (∃ e, parseSource goal source file limit = .error (.scan e)) ∨
      ∃ tokens e, scan source file = .ok tokens ∧
        parseSource goal source file limit = .error (.parse (.rejected e)) ∧ e.token ∈ tokens ∧
        e.cause ≠ .unexpectedKeyword := by
  cases hscan : scan source file with
  | error e => exact .inr (.inl ⟨e, Grammar.parseSource_eq_error_scan.mpr hscan⟩)
  | ok tokens =>
    rcases @cases_of_parseTokens goal limit tokens (Scanner.ended_of_scan hscan) with
      ⟨tree, htree⟩ | ⟨e, he, htoken, hkeyword, _⟩ | ⟨token, htoken, hkind, hword, _⟩
    · exact .inl ⟨tree, Grammar.parseSource_eq_ok.mpr ⟨tokens, hscan, htree⟩⟩
    · refine .inr (.inr ⟨tokens, e, rfl, Grammar.parseSource_eq_error_parse.mpr ⟨tokens, hscan, he⟩,
        htoken, fun hcause => ?_⟩)
      obtain ⟨hkind, hlexeme⟩ := hkeyword hcause
      exact hlexeme (Scanner.eq_return_of_scan hscan _ htoken hkind)
    · exact absurd hword (Scanner.ofWord?_ne_none_of_scan hscan token htoken hkind)

open Grammar in
/-- What happens to a source on an interpreter. It has a tree, or a scanning error, or a syntax
error at one of its tokens, which is not that for a reserved word; or the interpreter breaks off,
since it lacks frames or digits, and it does when a document is higher than there are frames. To a
token list that ends with the end of the input, nothing else happens than that error, and that a
directive is unknown. On the way, no character behind the end of the text is taken, no level is
asked for that does not exist, and every token that is looked at is in the list. -/
theorem parseSource_outcomes (i : Interpreter) (goal : Goal) (limit : Int) (file : String) :
    (∀ source,
      ((∃ tree, i.parseSource goal source file limit = .ok (.ok tree)) ∨
        (∃ e, i.parseSource goal source file limit = .ok (.error (.scan e)) ∧
          e.cause.code ∈
            ["L001", "L002", "L003", "L004", "L005", "L006", "L007", "L008", "L009"]) ∨
        (∃ tokens e, scan source file = .ok tokens ∧
          i.parseSource goal source file limit = .ok (.error (.parse (.rejected e))) ∧
          e.token ∈ tokens ∧ e.cause.code ∈ ["P001", "P002", "P004", "P005", "P006", "P007"]) ∨
        ∃ fault, i.parseSource goal source file limit = .error fault ∧
          i.Lacks goal limit (parseSource goal source file limit).toOption fault) ∧
      (∀ result, i.parseSource goal source file limit = .ok result →
        result = parseSource goal source file limit) ∧
      ∀ tree, parseSource goal source file limit = .ok tree → i.frames < goal.lastFrames tree →
        i.parseSource goal source file limit = .error .recursion) ∧
    (∀ tokens, (∃ last ∈ tokens.getLast?, last.kind = .endOfInput) →
      (∃ tree, i.parseTokens goal limit tokens = .ok (.ok tree)) ∨
      (∃ e, i.parseTokens goal limit tokens = .ok (.error (.rejected e)) ∧ e.token ∈ tokens ∧
        e.cause.code ∈ ["P001", "P002", "P003", "P004", "P005", "P006", "P007"]) ∨
      (∃ token ∈ tokens, token.kind = .directive ∧ Directive.ofWord? token.lexeme = none ∧
        i.parseTokens goal limit tokens = .ok (.error (.unknownDirective token.lexeme))) ∨
      ∃ fault, i.parseTokens goal limit tokens = .error fault ∧
        i.Lacks goal limit (parseTokens goal limit tokens).toOption fault) ∧
    (∀ beyond source, Scanner.Charwise.scan beyond source file = scan source file) ∧
    (∀ (right right' : Nat → Framed Tree) (least : Nat) (room : List Token) (left : Tree),
      (∀ level : Precedence, right level.rank = right' level.rank) →
      climb right least room left = climb right' least room left) ∧
    ∀ s : ParseState, s.tokens[s.index - 1]? = some s.previous ∧
      ∀ n, s.tokens[min (s.index + n) (s.tokens.length - 1)]? = some (s.peek n) := by
  refine ⟨fun source => ⟨?_, ?_, fun tree => interpreter_parseSource_of_lt⟩,
    fun tokens hended => ?_, fun beyond source => Scanner.charwise_scan _ _,
    fun right right' least room left hright => climb_congr hright least room left, fun s => ?_⟩
  · rcases @cases_of_interpreter_parseSource i goal limit source file with h | hbroken
    · rw [h]
      rcases @cases_of_parseSource goal limit source file with
        ⟨tree, htree⟩ | ⟨e, he⟩ | ⟨tokens, e, hscan, he, htoken, hcause⟩
      · exact .inl ⟨tree, congrArg Except.ok htree⟩
      · exact .inr (.inl ⟨e, congrArg Except.ok he, e.cause.code_mem⟩)
      · exact .inr (.inr (.inl ⟨tokens, e, hscan, congrArg Except.ok he, htoken,
          ParseError.Cause.code_mem hcause⟩))
    · exact .inr (.inr (.inr hbroken))
  · intro result hresult
    rcases @cases_of_interpreter_parseSource i goal limit source file with h | ⟨fault, h, _⟩
    · exact Except.ok.inj (hresult.symm.trans h)
    · rw [h] at hresult
      cases hresult
  · rcases @cases_of_interpreter_parseTokens i goal limit tokens hended with h | hbroken
    · rw [h]
      rcases @cases_of_parseTokens goal limit tokens hended with
        ⟨tree, htree⟩ | ⟨e, he, htoken, _⟩ | ⟨token, htoken, hkind, hword, he⟩
      · exact .inl ⟨tree, congrArg Except.ok htree⟩
      · refine .inr (.inl ⟨e, congrArg Except.ok he, htoken, ?_⟩)
        cases e.cause <;> simp [ParseError.Cause.code]
      · exact .inr (.inr (.inl ⟨token, htoken, hkind, hword, congrArg Except.ok he⟩))
    · exact .inr (.inr (.inr hbroken))
  · exact ⟨s.getElem?_tokens_previous, s.getElem?_tokens_min⟩

/-- A directive that is in no table, as tokens. -/
def strayTokens : List Token :=
  [.bare .directive "x", .bare .endOfInput ""]

/-- No source has a directive that is in no table, but a list of tokens may have one, and then it is
neither read nor rejected. -/
theorem parseSource_outcomes_strayTokens :
    (∃ last ∈ strayTokens.getLast?, last.kind = .endOfInput) ∧
      ∃ token ∈ strayTokens, token.kind = .directive ∧ Directive.ofWord? token.lexeme = none ∧
        (Interpreter.standard 0).parseTokens .program 64 strayTokens =
          .ok (.error (.unknownDirective token.lexeme)) := by
  have hended : ∃ last ∈ strayTokens.getLast?, last.kind = .endOfInput := ⟨_, rfl, rfl⟩
  have hresult : (Interpreter.standard 0).parseTokens .program 64 strayTokens =
      .ok (.error (.unknownDirective "x")) := rfl
  refine ⟨hended, ?_⟩
  rcases (parseSource_outcomes (.standard 0) .program 64 "f").2.1 strayTokens hended with
    ⟨tree, htree⟩ | ⟨e, he, _⟩ | hunknown | ⟨fault, hfault, _⟩
  · rw [hresult] at htree
    cases htree
  · rw [hresult] at he
    cases he
  · exact hunknown
  · rw [hresult] at hfault
    cases hfault

end RegisterLang
