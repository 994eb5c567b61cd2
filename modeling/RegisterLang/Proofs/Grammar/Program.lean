import RegisterLang.Proofs.Grammar.Completeness
import RegisterLang.Proofs.Grammar.Shape

/-!
# The language of programs

A token list is read as a program exactly if the tokens in front of its first end of the input
derive statements, and then the document holds the derived statements.
-/

namespace RegisterLang

namespace ParseState

/-- Back at the start, the whole list is in front of the cursor. -/
theorem next_cons_rest_rewind (s : ParseState) : s.rewind.next :: s.rewind.rest = s.tokens := by
  unfold rewind
  split
  · next h => simp [tokens] at h
  · next first rest h => exact h.symm

/-- From the start of the list, everything in front of the first end of the input is pending. -/
theorem pending_rewind (s : ParseState) :
    s.rewind.pending = s.tokens.takeWhile (·.kind != .endOfInput) := by
  rw [pending, next_cons_rest_rewind]

/-- At the start of the list nothing is open. -/
theorem depth_rewind (s : ParseState) : s.rewind.depth = 0 := by
  unfold rewind
  split
  · next h => simp [tokens] at h
  · rfl

/-- Every list that ends with the end of the input is one to start from. -/
theorem exists_ofTokens {tokens : List Token}
    (hended : ∃ last ∈ tokens.getLast?, last.kind = .endOfInput) :
    ∃ s, ofTokens tokens = .ok s ∧ s.tokens = tokens := by
  obtain ⟨last, hlast, hkind⟩ := hended
  cases tokens with
  | nil => cases hlast
  | cons first rest =>
    have hend : (rest.getLastD first).kind = .endOfInput := by
      rw [List.getLast?_cons, Option.mem_some_iff] at hlast
      rw [List.getLastD_eq_getLast?, hlast, hkind]
    exact ⟨⟨[], first, rest, 0, [], hend⟩, dif_pos hend, rfl⟩

end ParseState

namespace Grammar

open Parse

/-- What a production reads with some levels left it can read with more. -/
theorem Opens.mono {n m : Nat} (hle : n ≤ m) {production : Production} {tree : Tree}
    {xs ys : List Token} (h : Opens n production tree xs ys) : Opens m production tree xs ys := by
  cases production with
  | statement => exact Derives.mono h hle
  | expression => exact ⟨h.1.mono hle, h.2⟩
  | operand =>
    obtain ⟨k, hk, hoperand⟩ := h
    exact ⟨m - 1, by omega, hoperand.mono (by omega)⟩

/-- Whatever is read at any depth below the limit has a derivation with as many levels as the limit
allows. -/
theorem produce_sound (limit : Int) : Sound limit.toNat (produce limit) := by
  intro production s tree s' h
  exact (produceWithin_sound limit (limit - s.depth).toNat production s tree s' h).mono (by omega)

/-- Whatever is derived with as many levels as the limit allows is read when no level is open. -/
theorem produce_complete (limit : Int) : Complete 0 limit.toNat (produce limit) := by
  intro production tree xs ys hends hopens s hs hd
  obtain ⟨s', hresult, hs', hd'⟩ := produceWithin_complete limit limit.toNat (by omega)
    production tree xs ys hends hopens s hs hd
  refine ⟨s', ?_, hs', hd'⟩
  rw [produce, liftM_eq, get_bind_run, hd]
  simpa using hresult

/-- A program is statements, read from the start of the token list. -/
theorem program_run (limit : Int) (s : ParseState) :
    Goal.program.parse limit s =
      (statementsUntil (m := Parse) (produce limit) (·.kind == .endOfInput) s.rewind.rest >>=
        fun trees => pure (.document s.rewind.next.location trees)) s.rewind := rfl

/-- A program is read exactly as far as the tokens in front of the first end of the input derive
statements. -/
theorem program_eq_ok_iff {limit : Int} {s : ParseState} {tree : Tree} :
    (∃ s', Goal.program.parse limit s = .ok tree s') ↔
      ∃ trees, tree = .document s.rewind.next.location trees ∧
        Reads limit.toNat (.statements trees) (s.tokens.takeWhile (·.kind != .endOfInput)) [] := by
  rw [program_run, ← s.pending_rewind]
  constructor
  · rintro ⟨s', h⟩
    obtain ⟨trees, s₁, htrees, hresult⟩ := bind_eq_ok.mp h
    obtain ⟨rfl, rfl⟩ := pure_eq_ok.mp hresult
    obtain ⟨hreads, hend⟩ := reads_of_statementsUntil (produce_sound limit)
      s.rewind.length_pending_le htrees
    refine ⟨trees, rfl, ?_⟩
    rcases hend with hend | hend
    · rwa [ParseState.pending_eq_nil_iff.mpr (eq_of_beq hend)] at hreads
    · rwa [hend] at hreads
  · rintro ⟨trees, rfl, hreads⟩
    have hstarts (t : Token) (ht : startsStatement t) : (t.kind == .endOfInput) = false :=
      (Bool.or_eq_false_iff.mp (not_endsBlock_of_startsStatement ht)).1
    obtain ⟨s', htrees, _⟩ := yields_statementsUntil (produce_complete limit)
      (fun t ht => by simp [ht]) hstarts (.inr (by rintro t ⟨⟩)) (by rintro t ⟨⟩)
      s.rewind.length_pending_le hreads s.rewind rfl s.depth_rewind
    exact ⟨s', bind_eq_ok.mpr ⟨trees, s', htrees, rfl⟩⟩

section

variable {goal : Goal} {limit : Int} {tokens : List Token} {s s' : ParseState}

/-- What a goal reads from the start of a token list is what is read from the list. -/
theorem parseTokens_of_ok {tree : Tree} (hstart : ParseState.ofTokens tokens = .ok s)
    (h : goal.parse limit s = .ok tree s') : parseTokens goal limit tokens = .ok tree := by
  simp only [parseTokens, hstart, bind, Except.bind, EStateM.run, h]

/-- The failure of a goal at the start of a token list is the failure of the list. -/
theorem parseTokens_of_error {failure : ParseFailure} (hstart : ParseState.ofTokens tokens = .ok s)
    (h : goal.parse limit s = .error failure s') :
    parseTokens goal limit tokens = .error failure := by
  simp only [parseTokens, hstart, bind, Except.bind, EStateM.run, h]

end

section

variable {goal : Goal} {limit : Int} {source file : String} {tokens : List Token}

/-- What is read from a source is what is read from its tokens. -/
theorem parseSource_of_scan (hscan : scan source file = .ok tokens) :
    parseSource goal source file limit = (parseTokens goal limit tokens).mapError .parse := by
  rw [parseSource, hscan]
  cases hresult : parseTokens goal limit tokens <;> simp only [hresult] <;> rfl

/-- A source has a tree if it is scanned and its tokens have one. -/
theorem parseSource_eq_ok {tree : Tree} :
    parseSource goal source file limit = .ok tree ↔
      ∃ tokens, scan source file = .ok tokens ∧ parseTokens goal limit tokens = .ok tree := by
  cases hscan : scan source file with
  | error e => simp [parseSource, hscan]
  | ok tokens =>
    rw [parseSource_of_scan hscan]
    cases hresult : parseTokens goal limit tokens <;> simp [Except.mapError, hresult]

/-- The failures of the scanner are those of reading a source that stem from it. -/
theorem parseSource_eq_error_scan {e : ScanError} :
    parseSource goal source file limit = .error (.scan e) ↔ scan source file = .error e := by
  cases hscan : scan source file with
  | error e' => simp [parseSource, hscan]
  | ok tokens =>
    rw [parseSource_of_scan hscan]
    cases hresult : parseTokens goal limit tokens <;> simp [Except.mapError]

/-- A source has a syntax error if it is scanned and its tokens have one. -/
theorem parseSource_eq_error_parse {failure : ParseFailure} :
    parseSource goal source file limit = .error (.parse failure) ↔
      ∃ tokens, scan source file = .ok tokens ∧
        parseTokens goal limit tokens = .error failure := by
  cases hscan : scan source file with
  | error e => simp [parseSource, hscan]
  | ok tokens =>
    rw [parseSource_of_scan hscan]
    cases hresult : parseTokens goal limit tokens <;> simp [Except.mapError, hresult]

end

/-- A list with one end of the input at its end is its tokens in front of that. -/
theorem takeWhile_append_ended {ts : List Token} {eof : Token}
    (hts : ∀ t ∈ ts, t.kind ≠ .endOfInput) (heof : eof.kind = .endOfInput) :
    (ts ++ [eof]).takeWhile (·.kind != .endOfInput) = ts := by
  rw [List.takeWhile_append_of_pos (by simpa using hts)]
  simp [heof]

/-- The document that is read from a token list is located at its first token. -/
theorem parseTokens_eq_ok_iff {limit : Int} {tokens : List Token} {tree : Tree}
    (hended : ∃ last ∈ tokens.getLast?, last.kind = .endOfInput) :
    parseTokens .program limit tokens = .ok tree ↔
      ∃ first ∈ tokens.head?, ∃ trees, tree = .document first.location trees ∧
        Reads limit.toNat (.statements trees) (tokens.takeWhile (·.kind != .endOfInput)) [] := by
  obtain ⟨s, hstart, rfl⟩ := ParseState.exists_ofTokens hended
  have hfirst : s.tokens.head? = some s.rewind.next := by
    rw [← s.next_cons_rest_rewind, List.head?_cons]
  have hrun : parseTokens .program limit s.tokens = .ok tree ↔
      ∃ s', Goal.program.parse limit s = .ok tree s' := by
    cases hprogram : Goal.program.parse limit s with
    | ok tree' s' => simp [parseTokens_of_ok hstart hprogram]
    | error failure s' =>
      simp [parseTokens_of_error hstart hprogram]
  rw [hrun, program_eq_ok_iff, hfirst]
  simp

/-! ### Shapes of programs -/

/-- Derivations of shapes, where a declaration ends without a semicolon only in front of a token
that is no sign. -/
abbrev Forms : Nat → Phrase Unit → List Token → List Token → Prop :=
  Derives (fun _ => ()) (fun token => isSign token = false)

/-- Reading the same tokens with locations and without gives the same shapes. -/
theorem forms_iff_exists_reads {n : Nat} {statements : List (Node Unit)} {tokens : List Token} :
    Forms n (.statements statements) tokens [] ↔
      ∃ trees, trees.map Node.shape = statements ∧ Reads n (.statements trees) tokens [] := by
  have hsame : List.Forall₂ Token.Alike tokens tokens :=
    List.forall₂_same.mpr fun t _ => Token.Alike.refl t
  have happart (t u : Token) (h : t.Alike u) (ht : isSign t = false) : isSign u = false := by
    rwa [isSign, ← h.kind, ← h.lexeme]
  constructor
  · intro h
    obtain ⟨_, _ | _, trees, htrees, hreads⟩ := h.twin Token.location happart hsame
    exact ⟨trees, by simpa using htrees, hreads⟩
  · rintro ⟨trees, rfl, h⟩
    obtain ⟨_, _ | _, shapes, hshapes, hforms⟩ := h.twin (fun _ => ()) happart hsame
    have hshapes' : shapes = trees.map Node.shape := by simpa using hshapes
    rwa [← hshapes']

/-- The programs are exactly what the grammar derives: a token list is read as a document of some
statements, places aside, if and only if the tokens in front of its first end of the input derive
these statements with as many levels of nesting as the limit allows. -/
theorem exists_parseTokens_iff_forms (limit : Int) {tokens : List Token}
    (hended : ∃ last ∈ tokens.getLast?, last.kind = .endOfInput) (statements : List (Node Unit)) :
    (∃ document, parseTokens .program limit tokens = .ok document ∧
        document.shape = .document () statements) ↔
      Forms limit.toNat (.statements statements) (tokens.takeWhile (·.kind != .endOfInput)) [] := by
  rw [forms_iff_exists_reads]
  constructor
  · rintro ⟨document, hdocument, hshape⟩
    obtain ⟨first, _, trees, rfl, hreads⟩ := (parseTokens_eq_ok_iff hended).mp hdocument
    exact ⟨trees, by simpa [Node.map] using hshape, hreads⟩
  · rintro ⟨trees, rfl, hreads⟩
    cases tokens with
    | nil => simp at hended
    | cons first rest =>
      have hdocument := (parseTokens_eq_ok_iff hended).mpr ⟨first, rfl, trees, rfl, hreads⟩
      exact ⟨_, hdocument, by simp [Node.map]⟩

/-- A declaration of a difference, `$a = 1 - 2;`, as tokens. -/
def differenceTokens : List Token :=
  [.bare .register "a", .bare .assignOperator "=", .bare .number "1", .bare .binaryOperator "-",
    .bare .number "2", .bare .delimiter ";", .bare .endOfInput ""]

/-- The declaration of a difference is one statement. -/
def differenceStatements : List (Node Unit) :=
  [.declaration () "a" false none
    (.binary () "-" (.literal () .number "1") (.literal () .number "2"))]

/-- A number alone is an operand. -/
theorem derives_number (apart : Token → Prop) (n : Nat) (lexeme : String) (ys : List Token) :
    Derives (fun _ => ()) apart n (.operand (.literal () .number lexeme))
      (.bare .number lexeme :: ys) ys :=
  .plain (.bare (@Derives.literal _ _ _ _ _ (.bare .number lexeme) _ rfl))

/-- The declaration of a difference is derived as one statement, whatever may stand behind a
declaration without a semicolon. -/
theorem derives_differenceStatements (apart : Token → Prop) :
    Derives (fun _ => ()) apart 2 (.statements differenceStatements)
      (differenceTokens.takeWhile (·.kind != .endOfInput)) [] := by
  have hdifference := @Derives.binary Unit (fun _ => ()) apart 0 0 _ _ (.bare .binaryOperator "-")
    _ _ _ rfl (by decide) (Nat.zero_le _)
    (.single (derives_number apart 0 "1" _))
    (.single (derives_number apart 0 "2" [.bare .delimiter ";"]))
  have hvalue := Derives.closedValue (.value hdifference) rfl
  exact .moreStatements (.declares (@Derives.plainDeclaration _ _ _ _ _ _ (.bare .register "a")
    (.bare .assignOperator "=") _ _ rfl rfl hvalue)) .noStatement

/-- The declaration of a difference is read as one statement. -/
theorem exists_parseTokens_differenceTokens :
    (∃ last ∈ differenceTokens.getLast?, last.kind = .endOfInput) ∧
      ∃ document, parseTokens .program 64 differenceTokens = .ok document ∧
        document.shape = .document () differenceStatements := by
  have hended : ∃ last ∈ differenceTokens.getLast?, last.kind = .endOfInput := ⟨_, rfl, rfl⟩
  refine ⟨hended, (exists_parseTokens_iff_forms 64 hended _).mpr ?_⟩
  exact (derives_differenceStatements _).mono (by decide)

/-- A declaration may end without a semicolon, and a statement may start with a sign. If both were
allowed in a row, the declaration of a difference would also be a declaration and a statement, which
is not how it is read. -/
theorem not_parseTokens_iff_derives_everywhere :
    ¬ ∀ (limit : Int) (tokens : List Token) (statements : List (Node Unit)),
      (∃ last ∈ tokens.getLast?, last.kind = .endOfInput) →
      ((∃ document, parseTokens .program limit tokens = .ok document ∧
          document.shape = .document () statements) ↔
        Derives (fun _ => ()) (fun _ => True) limit.toNat (.statements statements)
          (tokens.takeWhile (·.kind != .endOfInput)) []) := by
  intro h
  have hnegation := @Derives.unary Unit (fun _ => ()) (fun _ => True) 0 _
    (.bare .binaryOperator "-") _ _ rfl (derives_number _ 0 "2" [.bare .delimiter ";"])
  have hvalue (ys : List Token) : Derives (fun _ => ()) (fun _ => True) 2
      (.initialValue (.literal () .number "1")) (.bare .number "1" :: ys) ys :=
    .openValue (.value (.single (derives_number _ 1 "1" ys))) fun _ _ => trivial
  have hsplit : Derives (fun _ => ()) (fun _ => True) 3 (.statements _)
      (differenceTokens.takeWhile (·.kind != .endOfInput)) [] :=
    .moreStatements (.declares (@Derives.plainDeclaration _ _ _ _ false _ (.bare .register "a")
        (.bare .assignOperator "=") _ _ rfl rfl (hvalue _)))
      (.moreStatements (.evaluates ⟨_, rfl, .inl (by decide)⟩ (.value (.single hnegation)) rfl)
        .noStatement)
  have hended : ∃ last ∈ differenceTokens.getLast?, last.kind = .endOfInput := ⟨_, rfl, rfl⟩
  obtain ⟨document, hdocument, hshape⟩ := (h 3 differenceTokens _ hended).mpr hsplit
  obtain ⟨document', hdocument', hshape'⟩ := (h 3 differenceTokens _ hended).mpr
    ((derives_differenceStatements _).mono (by decide))
  obtain rfl : document = document' := Except.ok.inj (hdocument.symm.trans hdocument')
  have hlength := congrArg (fun n => n.children.length) (hshape.symm.trans hshape')
  revert hlength
  decide

end Grammar

end RegisterLang
