import RegisterLang.Proofs.Grammar.Lockstep
import RegisterLang.Proofs.Grammar.Program

/-!
# How reading ends

`Goal.Ends` says with which result the reading of a token list ends, and where the cursor then is.
Two readings of lists that agree as far as they are read end alike.
-/

namespace RegisterLang

open Parse

namespace ParseState

/-- The start of a token list. -/
theorem eq_of_ofTokens {tokens : List Token} {start : ParseState}
    (h : ofTokens tokens = .ok start) :
    start.tokens = tokens ∧ start.passed = [] ∧ start.depth = 0 ∧ start.entered = [] ∧
      start.rewind = start := by
  cases tokens with
  | nil => cases h
  | cons first rest =>
    by_cases hend : (rest.getLastD first).kind = .endOfInput
    · rw [ofTokens, dif_pos hend] at h
      cases h
      exact ⟨rfl, rfl, rfl, rfl, rfl⟩
    · rw [ofTokens, dif_neg hend] at h
      cases h

/-- A token list to start from ends with the end of the input. -/
theorem ended_of_ofTokens {tokens : List Token} {start : ParseState}
    (h : ofTokens tokens = .ok start) : ∃ last ∈ tokens.getLast?, last.kind = .endOfInput := by
  obtain ⟨htokens, _⟩ := eq_of_ofTokens h
  have hlast : tokens.getLast? = some (start.rest.getLastD start.next) := by
    rw [← htokens, ParseState.tokens, List.getLast?_append, List.getLast?_cons,
      List.getLastD_eq_getLast?]
    rfl
  exact ⟨_, hlast, start.ended⟩

/-- From the start, everything is ahead. -/
theorem next_cons_rest_of_ofTokens {tokens : List Token} {start : ParseState}
    (h : ofTokens tokens = .ok start) : start.next :: start.rest = tokens := by
  obtain ⟨htokens, hpassed, _⟩ := eq_of_ofTokens h
  rw [← htokens, ParseState.tokens, hpassed]
  rfl

end ParseState

namespace Parse

/-- The result of a run and the index of its last cursor. -/
def ending {β : Type} : EStateM.Result ParseFailure ParseState β → Except ParseFailure β × Nat
  | .ok b s => (.ok b, s.index)
  | .error e s => (.error e, s.index)

end Parse

namespace Goal

/-- Reading a token list as a goal ends with a result, and then the cursor is at an index. -/
def Ends (goal : Goal) (limit : Int) (tokens : List Token) (result : Except ParseFailure Tree)
    (index : Nat) : Prop :=
  ∃ start, ParseState.ofTokens tokens = .ok start ∧
    ending (goal.parse limit start) = (result, index)

variable {goal : Goal} {limit : Int} {tokens : List Token}

/-- Every reading of a list that ends with the end of the input ends in some way. -/
theorem exists_ends (goal : Goal) (limit : Int)
    (hended : ∃ last ∈ tokens.getLast?, last.kind = .endOfInput) :
    ∃ result index, goal.Ends limit tokens result index := by
  obtain ⟨start, hstart, _⟩ := ParseState.exists_ofTokens hended
  exact ⟨_, _, start, hstart, rfl⟩

/-- The result of reading a token list is the one that it ends with. -/
theorem parseTokens_of_ends {result : Except ParseFailure Tree} {index : Nat}
    (h : goal.Ends limit tokens result index) : parseTokens goal limit tokens = result := by
  obtain ⟨start, hstart, hending⟩ := h
  cases hrun : goal.parse limit start with
  | ok tree s =>
    rw [hrun, ending, Prod.mk.injEq] at hending
    rw [Grammar.parseTokens_of_ok hstart hrun, hending.1]
  | error failure s =>
    rw [hrun, ending, Prod.mk.injEq] at hending
    rw [Grammar.parseTokens_of_error hstart hrun, hending.1]

/-- A reading that ends in some way is of a list that ends with the end of the input. -/
theorem Ends.ended {result : Except ParseFailure Tree} {index : Nat}
    (h : goal.Ends limit tokens result index) :
    ∃ last ∈ tokens.getLast?, last.kind = .endOfInput := by
  obtain ⟨start, hstart, _⟩ := h
  exact ParseState.ended_of_ofTokens hstart

/-- Where a run ends, its last cursor is. -/
theorem index_final {β : Type} (result : EStateM.Result ParseFailure ParseState β) :
    (final result).index = (ending result).2 := by
  cases result <;> rfl

/-- A run that succeeds is a reading that ends with its tree. -/
theorem ends_of_ok {start s : ParseState} {tree : Tree}
    (hstart : ParseState.ofTokens tokens = .ok start) (h : goal.parse limit start = .ok tree s) :
    goal.Ends limit tokens (.ok tree) s.index :=
  ⟨start, hstart, by rw [h, ending]⟩

/-- A run that fails is a reading that ends with its failure. -/
theorem ends_of_error {start s : ParseState} {failure : ParseFailure}
    (hstart : ParseState.ofTokens tokens = .ok start)
    (h : goal.parse limit start = .error failure s) :
    goal.Ends limit tokens (.error failure) s.index :=
  ⟨start, hstart, by rw [h, ending]⟩

/-- A reading that ends with a tree is a run that succeeds with it. -/
theorem exists_of_ends_ok {tree : Tree} {index : Nat}
    (h : goal.Ends limit tokens (.ok tree) index) :
    ∃ start s, ParseState.ofTokens tokens = .ok start ∧ goal.parse limit start = .ok tree s ∧
      s.index = index := by
  obtain ⟨start, hstart, hending⟩ := h
  cases hrun : goal.parse limit start with
  | ok tree' s =>
    rw [hrun, ending, Prod.mk.injEq, Except.ok.injEq] at hending
    obtain ⟨rfl, hindex⟩ := hending
    exact ⟨start, s, hstart, hrun, hindex⟩
  | error failure s =>
    rw [hrun, ending] at hending
    cases hending

/-- A reading that ends with a failure is a run that fails with it. -/
theorem exists_of_ends_error {failure : ParseFailure} {index : Nat}
    (h : goal.Ends limit tokens (.error failure) index) :
    ∃ start s, ParseState.ofTokens tokens = .ok start ∧ goal.parse limit start = .error failure s ∧
      s.index = index := by
  obtain ⟨start, hstart, hending⟩ := h
  cases hrun : goal.parse limit start with
  | ok tree' s =>
    rw [hrun, ending] at hending
    cases hending
  | error failure' s =>
    rw [hrun, ending, Prod.mk.injEq, Except.error.injEq] at hending
    obtain ⟨rfl, hindex⟩ := hending
    exact ⟨start, s, hstart, hrun, hindex⟩

end Goal

/-- A goal goes back to the start of the list before it reads. -/
theorem Goal.parse_run (goal : Goal) (limit : Int) (s : ParseState) :
    goal.parse limit s = goal.read (m := Parse) limit s.rewind := rfl

/-- A lone expression is an expression in front of the end of the input. -/
theorem Goal.read_expression_eq_ok {limit : Int} {s s' : ParseState} {tree : Tree} :
    Goal.expression.read (m := Parse) limit s = .ok tree s' ↔
      Grammar.produce (m := Parse) limit .expression s = .ok tree s' ∧
        s'.next.kind = .endOfInput := by
  rw [Goal.read, Grammar.loneExpression, bind_eq_ok]
  simp only [liftM_eq, check_bind_run]
  constructor
  · rintro ⟨tree', s₁, htree, hrest⟩
    split at hrest
    · next hend =>
      obtain ⟨rfl, rfl⟩ := pure_eq_ok.mp hrest
      exact ⟨htree, eq_of_beq hend⟩
    · exact absurd hrest fail_ne_ok
  · rintro ⟨htree, hend⟩
    exact ⟨tree, s', htree, by rw [if_pos (beq_of_eq hend)]; rfl⟩

/-! ### Two readings -/

namespace Comparison

open Grammar

variable {κ : Type} {c : Comparison κ} {goal : Goal}

/-- Whole readings keep pace. -/
theorem keepsPace_read (c : Comparison κ) (goal : Goal) :
    KeepsPace c c.tree (goal.read c.limit) (goal.read c.limit') := by
  cases goal with
  | program =>
    refine KeepsPace.next.bind fun first first' hfirst => ?_
    have hend (x y : Token) (h : x.Alike y) :
        (x.kind == .endOfInput) = (y.kind == .endOfInput) := by
      rw [h.kind]
    have hstop (token : Token) (hkind : token.kind = .endOfInput) :
        (token.kind == .endOfInput) = true := by
      simp [hkind]
    refine keepsPace_room_bind () () (keepsPace_statementsUntil keepsPace_produce hend)
      (runsInAnyRoom_statementsUntil (produce_sound _) hstop)
      (runsInAnyRoom_statementsUntil (produce_sound _) hstop) fun trees trees' htrees => .pure ?_
    have htrees' : trees.map (Node.map c.view) = trees'.map (Node.map c.view) := htrees
    simp [tree, Node.map, view_eq hfirst, htrees']
  | expression =>
    refine (keepsPace_produce .expression).bind fun x y h => ?_
    refine KeepsPace.check.bind ?_
    rintro ended _ rfl
    cases ended with
    | true => exact .pure h
    | false => exact .fail

/-- Reading only moves forward from the start. -/
theorem reaches_parse (goal : Goal) (limit : Int) (s : ParseState) :
    s.rewind.Reaches (final (goal.parse limit s)) := by
  rw [goal.parse_run]
  exact (keepsPace_read (everything (Int.le_refl limit)) goal).left s.rewind

/-- Readings of two lists that agree as far as the first one is read match. -/
theorem matched_parse (goal : Goal) {tokens tokens' : List Token} {start start' : ParseState}
    {horizon : Nat}
    (hstart : ParseState.ofTokens tokens = .ok start)
    (hstart' : ParseState.ofTokens tokens' = .ok start') (hagree : c.Agree horizon tokens tokens')
    (hbelow : (final (goal.parse c.limit start)).index + 2 ≤ horizon) :
    c.Matched horizon c.tree (goal.parse c.limit start) (goal.parse c.limit' start') := by
  obtain ⟨_, hpassed, hdepth, hentered, hrewind⟩ := ParseState.eq_of_ofTokens hstart
  obtain ⟨_, hpassed', hdepth', hentered', hrewind'⟩ := ParseState.eq_of_ofTokens hstart'
  have hinStep : c.InStep horizon start start' := by
    refine ⟨by rw [hdepth, hdepth'], by rw [hpassed, hpassed'], by rw [hentered, hentered'], ?_⟩
    rw [ParseState.next_cons_rest_of_ofTokens hstart, ParseState.next_cons_rest_of_ofTokens hstart',
      ParseState.index, hpassed]
    exact hagree
  rw [goal.parse_run, hrewind] at hbelow
  rw [goal.parse_run, goal.parse_run, hrewind, hrewind']
  exact (keepsPace_read c goal).matched horizon start start' hinStep hbelow

/-! ### When everything is seen -/

section

variable {limit limit' : Int} {hle : limit ≤ limit'}

/-- Tokens that look the same are the same when everything is seen. -/
theorem eq_of_seen_eq {x y : Token} (h : (everything hle).seen x = (everything hle).seen y) :
    x = y := by
  obtain ⟨⟨hkind, hlexeme⟩, hplace⟩ := seen_eq_iff.mp h
  have hlocation : x.location = y.location := hplace
  cases x
  cases y
  simp only at hkind hlexeme hlocation
  rw [hkind, hlexeme, hlocation]

/-- Trees that look the same are the same when everything is seen. -/
theorem eq_of_tree_eq {x y : Tree} (h : (everything hle).tree x = (everything hle).tree y) :
    x = y := by
  have hself (n : Tree) : (everything hle).tree n = n := Node.map_eq_self (fun _ => rfl) n
  rwa [hself, hself] at h

/-- Failures that look the same are the same when everything is seen. -/
theorem eq_of_sameFailure {e e' : ParseFailure} (h : (everything hle).SameFailure e e') :
    e' = e := by
  cases h with
  | rejected hseen => rw [eq_of_seen_eq hseen]
  | other => rfl

/-- Two runs that are compared in everything end alike, unless the lower limit cuts the first one
short. -/
theorem ending_of_matched {horizon : Nat}
    {result result' : EStateM.Result ParseFailure ParseState Tree}
    (h : (everything hle).Matched horizon (everything hle).tree result result') :
    ending result' = ending result ∨
      limit < limit' ∧ ∃ token s, result = .error (.rejected ⟨.tooDeep limit, token⟩) s ∧
        s.index ≤ (final result').index := by
  cases h with
  | done htree hstep => exact .inl (by rw [ending, ending, eq_of_tree_eq htree, hstep.index])
  | failed he hstep => exact .inl (by rw [ending, ending, eq_of_sameFailure he, hstep.index])
  | cut hlimit hindex => exact .inr ⟨hlimit, _, _, rfl, hindex⟩

end

/-! ### Agreement -/

/-- Lists with the same tokens in the first `n` places agree on `n` tokens. -/
theorem agree_of_forall_lt (c : Comparison κ) {n : Nat} {xs ys : List Token} (hn : n ≤ xs.length)
    (h : ∀ j < n, ys[j]? = xs[j]?) : c.Agree n xs ys := by
  induction n generalizing xs ys with
  | zero => exact .unseen
  | succ n ih =>
    have hfirst := h 0 (by omega)
    have hrest (j : Nat) (hj : j < n) : ys[j + 1]? = xs[j + 1]? := h (j + 1) (by omega)
    cases xs with
    | nil => simp at hn
    | cons x xs =>
      cases ys with
      | nil => simp at hfirst
      | cons y ys =>
        obtain rfl : y = x := by simpa using hfirst
        exact .next rfl (ih (by simpa using hn) (by simpa using hrest))

/-- Lists with the same tokens up to an end of the input agree on any number of tokens. -/
theorem agree_of_end (c : Comparison κ) (n : Nat) {i : Nat} {xs ys : List Token}
    (hend : ∃ token ∈ xs[i]?, token.kind = .endOfInput) (h : ∀ j ≤ i, ys[j]? = xs[j]?) :
    c.Agree n xs ys := by
  induction i generalizing n xs ys with
  | zero =>
    obtain ⟨token, htoken, hkind⟩ := hend
    have hfirst := h 0 (Nat.le_refl 0)
    cases xs with
    | nil => simp at htoken
    | cons x xs =>
      cases ys with
      | nil => simp at hfirst
      | cons y ys =>
        obtain rfl : x = token := by simpa using htoken
        obtain rfl : y = x := by simpa using hfirst
        exact .stop rfl hkind
  | succ i ih =>
    have hfirst := h 0 (Nat.zero_le _)
    have hrest (j : Nat) (hj : j ≤ i) : ys[j + 1]? = xs[j + 1]? := h (j + 1) (by omega)
    cases xs with
    | nil => simp at hend
    | cons x xs =>
      cases ys with
      | nil => simp at hfirst
      | cons y ys =>
        obtain rfl : y = x := by simpa using hfirst
        cases n with
        | zero => exact .unseen
        | succ n => exact .next rfl (ih n (by simpa using hend) (by simpa using hrest))

/-- Lists of tokens that look the same, up to an end of the input, agree on any number of tokens. -/
theorem agree_of_forall₂ (c : Comparison κ) (n : Nat) {xs ys : List Token}
    (h : List.Forall₂ (fun x y => c.seen x = c.seen y) xs ys)
    (hended : ∃ last ∈ xs.getLast?, last.kind = .endOfInput) : c.Agree n xs ys := by
  induction h generalizing n with
  | nil => simp at hended
  | @cons x y xs ys hseen _ ih =>
    cases n with
    | zero => exact .unseen
    | succ n =>
      cases xs with
      | nil =>
        obtain ⟨last, hlast, hkind⟩ := hended
        obtain rfl : x = last := by simpa using hlast
        exact .stop hseen hkind
      | cons x' xs => exact .next hseen (ih n (by simpa using hended))

/-- A list that ends with the end of the input agrees with itself. -/
theorem agree_self (c : Comparison κ) (n : Nat) {tokens : List Token}
    (hended : ∃ last ∈ tokens.getLast?, last.kind = .endOfInput) : c.Agree n tokens tokens :=
  agree_of_forall₂ c n (List.forall₂_same.mpr fun _ _ => rfl) hended

end Comparison

/-- Another list that agrees with the first one as far as that is read, and one token further, is
read alike below a limit that is not lower, unless the lower limit cuts the first reading short. -/
theorem Goal.Ends.agree {goal : Goal} {limit limit' : Int} (hle : limit ≤ limit')
    {tokens tokens' : List Token} {result : Except ParseFailure Tree} {index : Nat}
    (h : goal.Ends limit tokens result index)
    (hended : ∃ last ∈ tokens'.getLast?, last.kind = .endOfInput)
    (hagree : (Comparison.everything hle).Agree (index + 2) tokens tokens') :
    goal.Ends limit' tokens' result index ∨
      limit < limit' ∧ (∃ token, result = .error (.rejected ⟨.tooDeep limit, token⟩)) ∧
        ∃ result' index', goal.Ends limit' tokens' result' index' ∧ index ≤ index' := by
  obtain ⟨start, hstart, hending⟩ := h
  obtain ⟨start', hstart', _⟩ := ParseState.exists_ofTokens hended
  have hindex : (final (goal.parse limit start)).index = index := by
    rw [Goal.index_final, hending]
  have hmatched : (Comparison.everything hle).Matched (index + 2) (Comparison.everything hle).tree
      (goal.parse limit start) (goal.parse limit' start') :=
    Comparison.matched_parse goal hstart hstart' hagree
      (show (final (goal.parse limit start)).index + 2 ≤ index + 2 by omega)
  rcases Comparison.ending_of_matched hmatched with heq | ⟨hlimit, token, s, hcut, hbehind⟩
  · exact .inl ⟨start', hstart', heq.trans hending⟩
  · rw [hcut, ending, Prod.mk.injEq] at hending
    refine .inr ⟨hlimit, ⟨token, hending.1.symm⟩, _, _, ⟨start', hstart', rfl⟩, ?_⟩
    rw [Goal.index_final] at hbehind
    rwa [← hending.2]

/-! ### The limit on nesting -/

/-- A limit on nesting only ever cuts a reading short: with a higher limit, a reading that was not
cut short ends in the same way, and one that was ends no less far on. -/
theorem Goal.Ends.of_limit_le {goal : Goal} {limit limit' : Int} (hle : limit ≤ limit')
    {tokens : List Token} {result : Except ParseFailure Tree} {index : Nat}
    (h : goal.Ends limit tokens result index) :
    ((∀ e, result = .error (.rejected e) → e.cause.code ≠ "P007") →
        goal.Ends limit' tokens result index) ∧
      ((∃ e, result = .error (.rejected e) ∧ e.cause.code = "P007") →
        ∃ result' index', goal.Ends limit' tokens result' index' ∧
          ((∃ tree, result' = .ok tree) ∨ index ≤ index')) := by
  have hcases := h.agree hle h.ended (Comparison.agree_self _ _ h.ended)
  constructor
  · intro huncut
    rcases hcases with hsame | ⟨_, ⟨token, hcut⟩, _⟩
    · exact hsame
    · exact absurd rfl (huncut _ hcut)
  · intro _
    rcases hcases with hsame | ⟨_, _, result', index', hends, hindex⟩
    · exact ⟨result, index, hsame, .inr (Nat.le_refl index)⟩
    · exact ⟨result', index', hends, .inr hindex⟩

/-- A number in parentheses, as tokens. -/
def parenthesizedTokens : List Token :=
  [.bare .delimiter "(", .bare .number "1", .bare .delimiter ")", .bare .endOfInput ""]

/-- A number in parentheses needs two levels of nesting. -/
theorem ends_parenthesizedTokens :
    Goal.expression.Ends 1 parenthesizedTokens
        (.error (.rejected ⟨.tooDeep 1, .bare .number "1"⟩)) 1 ∧
      (∃ result index, Goal.expression.Ends 2 parenthesizedTokens result index ∧
        ((∃ tree, result = .ok tree) ∨ 1 ≤ index)) := by
  have hends : Goal.expression.Ends 1 parenthesizedTokens
      (.error (.rejected ⟨.tooDeep 1, .bare .number "1"⟩)) 1 := ⟨_, rfl, rfl⟩
  have hle : (1 : Int) ≤ 2 := by decide
  exact ⟨hends, (hends.of_limit_le hle).2 ⟨_, rfl, rfl⟩⟩

end RegisterLang
