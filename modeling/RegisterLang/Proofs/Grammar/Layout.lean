import RegisterLang.Node.Dump
import RegisterLang.Proofs.Grammar.Failure
import RegisterLang.Proofs.Token.Lawful
import RegisterLang.Proofs.Token.Layout

/-!
# Layout and reading

A parser copies the places of tokens and never tests them, so token lists that are alike are read
alike. With what is known about scanning, a source that is laid out anew has the same outcome.
-/

namespace RegisterLang

/-! ### Token lists that are alike -/

namespace Comparison

/-- The comparison by what is seen of places, below one limit. -/
def seeing {κ : Type} (view : Location → κ) (limit : Int) : Comparison κ :=
  ⟨view, limit, limit, Int.le_refl limit⟩

/-- The comparison that sees no places, below one limit. -/
def placeless (limit : Int) : Comparison (Option Location) :=
  ⟨fun _ => none, limit, limit, Int.le_refl limit⟩

variable {limit : Int}

/-- Without their places, tokens look the same exactly if they are alike. -/
theorem seen_placeless_iff {x y : Token} :
    (placeless limit).seen x = (placeless limit).seen y ↔ x.Alike y := by
  rw [seen_eq_iff]
  exact and_iff_left rfl

end Comparison

/-- Two outcomes of reading token lists are the same, places aside: two trees with the same data, or
two syntax errors with the same cause and the same message, at tokens with the same index. -/
inductive SameOutcome (tokens tokens' : List Token) :
    Except SourceError Tree → Except SourceError Tree → Prop where
  | tree {x y : Tree} :
      x.withoutPlaces.dump = y.withoutPlaces.dump → SameOutcome tokens tokens' (.ok x) (.ok y)
  | rejected {e e' : ParseError} {index : Nat} :
      e.cause = e'.cause → e.message = e'.message →
      tokens[index]? = some e.token → tokens'[index]? = some e'.token →
      SameOutcome tokens tokens' (.error (.parse (.rejected e))) (.error (.parse (.rejected e')))

/-- The message of an error does not tell the place of its token. -/
theorem ParseError.message_eq_of_alike {x y : Token} (h : x.Alike y) (cause : Cause) :
    (ParseError.mk cause x).message = (ParseError.mk cause y).message := by
  have hdescribe : x.describe = y.describe := by
    rw [Token.describe, Token.describe, h.kind, h.lexeme]
  cases cause <;> simp only [message, hdescribe, h.lexeme]

namespace Goal

open Comparison

variable {κ : Type} {view : Location → κ} {goal : Goal} {limit : Int} {tokens tokens' : List Token}

/-- Readings of token lists that look the same match. -/
theorem exists_matched_of_seen (goal : Goal) (limit : Int) {start start' : ParseState}
    (hstart : ParseState.ofTokens tokens = .ok start)
    (hstart' : ParseState.ofTokens tokens' = .ok start')
    (hseen : List.Forall₂ (fun x y => (seeing view limit).seen x = (seeing view limit).seen y)
      tokens tokens') :
    ∃ horizon, (seeing view limit).Matched horizon (seeing view limit).tree
      (goal.parse limit start) (goal.parse limit start') :=
  ⟨_, matched_parse goal hstart hstart' (agree_of_forall₂ (seeing view limit) _ hseen
    (ParseState.ended_of_ofTokens hstart)) (Nat.le_refl _)⟩

/-- Where one token list is read as a tree, one that looks the same is read as a tree that looks the
same. -/
theorem Ends.exists_ok_of_seen {tree : Tree} {index : Nat}
    (h : goal.Ends limit tokens (.ok tree) index)
    (hseen : List.Forall₂ (fun x y => (seeing view limit).seen x = (seeing view limit).seen y)
      tokens tokens')
    (hended : ∃ last ∈ tokens'.getLast?, last.kind = .endOfInput) :
    ∃ tree', goal.Ends limit tokens' (.ok tree') index ∧ tree.map view = tree'.map view := by
  obtain ⟨start, s, hstart, hrun, rfl⟩ := exists_of_ends_ok h
  obtain ⟨start', hstart', _⟩ := ParseState.exists_ofTokens hended
  obtain ⟨horizon, hmatched⟩ := exists_matched_of_seen goal limit hstart hstart' hseen
  rw [hrun] at hmatched
  generalize hrun' : goal.parse limit start' = result at hmatched
  cases hmatched with
  | done htree hstep =>
    rw [hstep.index]
    exact ⟨_, ends_of_ok hstart' hrun', htree⟩

/-- Where reading one token list fails, reading one that looks the same fails at the same index, and
in the same way. -/
theorem Ends.exists_error_of_seen {failure : ParseFailure} {index : Nat}
    (h : goal.Ends limit tokens (.error failure) index)
    (hseen : List.Forall₂ (fun x y => (seeing view limit).seen x = (seeing view limit).seen y)
      tokens tokens')
    (hended : ∃ last ∈ tokens'.getLast?, last.kind = .endOfInput) :
    ∃ failure', goal.Ends limit tokens' (.error failure') index ∧
      (seeing view limit).SameFailure failure failure' := by
  obtain ⟨start, s, hstart, hrun, rfl⟩ := exists_of_ends_error h
  obtain ⟨start', hstart', _⟩ := ParseState.exists_ofTokens hended
  obtain ⟨horizon, hmatched⟩ := exists_matched_of_seen goal limit hstart hstart' hseen
  rw [hrun] at hmatched
  generalize hrun' : goal.parse limit start' = result at hmatched
  cases hmatched with
  | failed hfailure hstep =>
    rw [hstep.index]
    exact ⟨_, ends_of_error hstart' hrun', hfailure⟩
  | cut hlimit => exact absurd hlimit (Int.lt_irrefl limit)

/-- Where all directives are known, every failure is a syntax error. -/
theorem Ends.exists_rejected {failure : ParseFailure} {index : Nat}
    (h : goal.Ends limit tokens (.error failure) index)
    (hknown : ∀ t ∈ tokens, t.kind = .directive → Directive.ofWord? t.lexeme ≠ none) :
    ∃ e, failure = .rejected e := by
  rcases h.cases_of_error with ⟨e, rfl, _⟩ | ⟨token, htoken, hkind, hword, _⟩
  · exact ⟨e, rfl⟩
  · exact absurd hword (hknown token htoken hkind)

/-- Two syntax errors with the same cause, with which two readings end at the same index, are at
tokens with the same index. -/
theorem Ends.exists_getElem?_eq {e e' : ParseError} {index : Nat}
    (h : goal.Ends limit tokens (.error (.rejected e)) index)
    (h' : goal.Ends limit tokens' (.error (.rejected e')) index) (hcause : e.cause = e'.cause) :
    ∃ i : Nat, tokens[i]? = some e.token ∧ tokens'[i]? = some e'.token := by
  obtain ⟨hat, hbefore⟩ := getElem?_of_ends h
  obtain ⟨hat', hbefore'⟩ := getElem?_of_ends h'
  by_cases hcode : e.cause.code = "P006"
  · exact ⟨index - 1, (hbefore hcode).2, (hbefore' (by rwa [← hcause])).2⟩
  · exact ⟨index, hat hcode, hat' (by rwa [← hcause])⟩

/-- Token lists that are alike have the same outcome. -/
theorem Ends.exists_sameOutcome {result : Except ParseFailure Tree} {index : Nat}
    (h : goal.Ends limit tokens result index)
    (halike : List.Forall₂ Token.Alike tokens tokens')
    (hended : ∃ last ∈ tokens'.getLast?, last.kind = .endOfInput)
    (hknown : ∀ t ∈ tokens, t.kind = .directive → Directive.ofWord? t.lexeme ≠ none) :
    ∃ result', goal.Ends limit tokens' result' index ∧
      SameOutcome tokens tokens' (result.mapError .parse) (result'.mapError .parse) := by
  have hseen : List.Forall₂ (fun x y => (placeless limit).seen x = (placeless limit).seen y)
      tokens tokens' :=
    halike.imp fun _ _ => seen_placeless_iff.mpr
  cases result with
  | ok tree =>
    obtain ⟨tree', hends, htree⟩ := h.exists_ok_of_seen hseen hended
    exact ⟨.ok tree', hends, .tree (congrArg Node.dump htree)⟩
  | error failure =>
    obtain ⟨failure', hends, hfailure⟩ := h.exists_error_of_seen hseen hended
    obtain ⟨e, rfl⟩ := h.exists_rejected hknown
    refine ⟨.error failure', hends, ?_⟩
    cases hfailure with
    | @rejected cause x y hseen =>
      obtain ⟨i, hi, hi'⟩ := h.exists_getElem?_eq hends rfl
      have hmessage := ParseError.message_eq_of_alike (seen_placeless_iff.mp hseen) cause
      exact .rejected rfl hmessage hi hi'
    | other =>
      obtain ⟨i, hi, hi'⟩ := h.exists_getElem?_eq hends rfl
      exact .rejected rfl rfl hi hi'

end Goal

/-! ### Sources -/

/-- A source is read as its tokens are. -/
theorem parseSource_of_ends {goal : Goal} {limit : Int} {source file : String}
    {tokens : List Token} {result : Except ParseFailure Tree} {index : Nat}
    (hscan : scan source file = .ok tokens) (h : goal.Ends limit tokens result index) :
    parseSource goal source file limit = result.mapError .parse := by
  rw [Grammar.parseSource_of_scan hscan, Goal.parseTokens_of_ends h]

open Scanner in
/-- Layout does not change the meaning: whenever a source is scanned, and a gap between its tokens
is laid out anew, the new source is scanned as the same tokens, and it has the same outcome below
the same limit, places aside. -/
theorem exists_sameOutcome_of_relays (goal : Goal) (limit : Int) {source file : String}
    {tokens : List Token} {before gap gap' after : List Char}
    (hscan : scan source file = .ok tokens) (hsource : source.toList = before ++ (gap ++ after))
    (hrelays : Relays tokens before gap gap') (hlayout : Layout gap') :
    ∃ tokens', scan (String.ofList (before ++ (gap' ++ after))) file = .ok tokens' ∧
      List.Forall₂ Token.Alike tokens tokens' ∧
      SameOutcome tokens tokens' (parseSource goal source file limit)
        (parseSource goal (String.ofList (before ++ (gap' ++ after))) file limit) := by
  obtain ⟨tokens', hscan', halike⟩ := exists_scan_of_relays hscan hsource hrelays hlayout
  obtain ⟨result, index, hends⟩ := goal.exists_ends limit (ended_of_scan hscan)
  obtain ⟨result', hends', hsame⟩ :=
    hends.exists_sameOutcome halike (ended_of_scan hscan') (ofWord?_ne_none_of_scan hscan)
  refine ⟨tokens', hscan', halike, ?_⟩
  rw [parseSource_of_ends hscan hends, parseSource_of_ends hscan' hends']
  exact hsame

/-- The tokens of `$a = 1 ;`. -/
def spacedTokens : List Token :=
  [⟨.register, "a", ⟨"f", 1, 1, 0⟩⟩, ⟨.assignOperator, "=", ⟨"f", 1, 4, 3⟩⟩,
    ⟨.number, "1", ⟨"f", 1, 6, 5⟩⟩, ⟨.delimiter, ";", ⟨"f", 1, 8, 7⟩⟩,
    ⟨.endOfInput, "", ⟨"f", 1, 9, 8⟩⟩]

open Scanner in
/-- A comment may stand in place of the last space of `$a = 1 ;`. -/
theorem exists_sameOutcome_spacedTokens :
    scan "$a = 1 ;" "f" = .ok spacedTokens ∧
      "$a = 1 ;".toList = "$a = 1".toList ++ ([' '] ++ [';']) ∧
      Relays spacedTokens "$a = 1".toList [' '] ['#', '1', '\n'] ∧ Layout ['#', '1', '\n'] ∧
      ∃ tokens', scan (String.ofList ("$a = 1".toList ++ (['#', '1', '\n'] ++ [';']))) "f" =
          .ok tokens' ∧
        List.Forall₂ Token.Alike spacedTokens tokens' ∧
        SameOutcome spacedTokens tokens' (parseSource .program "$a = 1 ;" "f" 64)
          (parseSource .program
            (String.ofList ("$a = 1".toList ++ (['#', '1', '\n'] ++ [';']))) "f" 64) := by
  have hscan : scan "$a = 1 ;" "f" = .ok spacedTokens := by decide
  have hsource : "$a = 1 ;".toList = "$a = 1".toList ++ ([' '] ++ [';']) := by decide
  have hrelays : Relays spacedTokens "$a = 1".toList [' '] ['#', '1', '\n'] :=
    @Relays.between (spacedTokens.take 2) _ ⟨.number, "1", ⟨"f", 1, 6, 5⟩⟩ _ _ _ _ (by decide)
      (by decide) (by decide) (by decide) (by decide)
  have hlayout : Layout ['#', '1', '\n'] := @Layout.comment ['1'] [] (by decide) .nothing
  exact ⟨hscan, hsource, hrelays, hlayout,
    exists_sameOutcome_of_relays .program 64 hscan hsource hrelays hlayout⟩

end RegisterLang
