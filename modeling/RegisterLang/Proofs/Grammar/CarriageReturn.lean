import RegisterLang.Proofs.Diagnostic.Excerpt
import RegisterLang.Proofs.Grammar.Layout
import RegisterLang.Proofs.Token.CarriageReturn

/-!
# Both ways to end a line

A source whose lines end with carriage returns and line feeds is read as the one whose lines end
with line feeds alone, and what is reported about the two is the same, offsets aside.
-/

namespace RegisterLang

open Text

/-! ### What does not tell offsets -/

/-- The data of a tree does not tell the offsets of its places. -/
theorem Node.dump_map_withoutOffset (n : Tree) :
    ((n.map Location.withoutOffset).map some).dump = (n.map some).dump := by
  have option {o : Option Tree}
      (h : ∀ c ∈ o.toList, ((c.map Location.withoutOffset).map some).dump = (c.map some).dump) :
      dumpOption ((o.map (map Location.withoutOffset)).map (map some)) =
        dumpOption (o.map (map some)) := by
    cases o with
    | none => rfl
    | some c => exact h c (by simp)
  induction n using Node.induction with
  | step n ih =>
    cases n <;> simp_all [map, dump, children, entry, placeFields, Location.withoutOffset]

/-- A report without the offset of its place. -/
def Diagnostic.withoutOffset (d : Diagnostic) : Diagnostic :=
  { d with location := d.location.withoutOffset }

/-- Syntax errors with one cause are reported alike at tokens that differ in their offsets only. -/
theorem ParseError.diagnostic_withoutOffset {x y : Token} (halike : x.Alike y)
    (hplace : x.location.withoutOffset = y.location.withoutOffset) (cause : Cause) :
    (ParseError.mk cause x).diagnostic.withoutOffset =
      (ParseError.mk cause y).diagnostic.withoutOffset := by
  simp only [Diagnostic.withoutOffset, diagnostic, message_eq_of_alike halike, hplace]

/-- A report beside its source does not tell its offset, and it depends on the lines of the source
only as far as they are shown. -/
theorem Diagnostic.page_congr {d d' : Diagnostic} {source source' : String}
    (h : d.withoutOffset = d'.withoutOffset)
    (hlines : Excerpt.sourceLines source = Excerpt.sourceLines source') (color : Bool) :
    d.page source color = d'.page source' color ∧
      ∀ i : Interpreter, d.render i source color = d'.render i source' color := by
  obtain ⟨message, ⟨file, line, column, offset⟩, severity, code, help, suggestions⟩ := d
  obtain ⟨message', ⟨file', line', column', offset'⟩, severity', code', help', suggestions'⟩ := d'
  simp only [withoutOffset, Location.withoutOffset, Diagnostic.mk.injEq, Location.mk.injEq] at h
  obtain ⟨rfl, ⟨rfl, rfl, rfl, _⟩, rfl, rfl, rfl, rfl⟩ := h
  have hpage : (⟨message, ⟨file, line, column, offset⟩, severity, code, help, suggestions⟩ :
      Diagnostic).page source color =
        (⟨message, ⟨file, line, column, offset'⟩, severity, code, help, suggestions⟩ :
          Diagnostic).page source' color := by
    simp only [page, Excerpt.page, hlines, headline, hints]
  refine ⟨hpage, fun i => ?_⟩
  rw [render_eq_elim, render_eq_elim, hpage, Excerpt.fault?_congr hlines]

/-! ### Lines -/

open Excerpt in
/-- An excerpt shows no carriage return at the end of a line. -/
theorem Excerpt.map_trimReturns_withReturns (xs : List Char) :
    (splitLines (withReturns xs)).map trimReturns = (splitLines xs).map trimReturns := by
  induction xs with
  | nil => rfl
  | cons c xs ih =>
    by_cases hc : c = '\n'
    · subst hc
      rw [withReturns_lineFeed, splitLines_cons (by decide) (splitLines_lineFeed _),
        splitLines_lineFeed, List.map_cons, List.map_cons, ih]
      rfl
    · obtain ⟨line, lines, h⟩ := exists_splitLines xs
      obtain ⟨line', lines', h'⟩ := exists_splitLines (withReturns xs)
      rw [h, h', List.map_cons, List.map_cons, List.cons.injEq] at ih
      rw [withReturns_cons hc, splitLines_cons hc h, splitLines_cons hc h', List.map_cons,
        List.map_cons, trimReturns_cons c line, trimReturns_cons c line', ih.1, ih.2]

/-- A source has the same lines with returns at their ends as without. -/
theorem Excerpt.sourceLines_returned (source : String) :
    sourceLines (returned source) = sourceLines source := by
  have h := congrArg (List.map String.ofList) (map_trimReturns_withReturns source.toList)
  rw [List.map_map, List.map_map] at h
  rw [sourceLines, returned, String.toList_ofList]
  exact h

/-! ### Sources -/

/-- What comes of reading two sources is the same: two trees with the same data, places included, or
two syntax errors with the same cause and with reports that are the same, offsets aside, and that
show the same beside their sources. -/
inductive SameReport (source source' : String) :
    Except SourceError Tree → Except SourceError Tree → Prop where
  | tree {x y : Tree} :
      (x.map some).dump = (y.map some).dump → SameReport source source' (.ok x) (.ok y)
  | rejected {e e' : ParseError} :
      e.cause = e'.cause → e.diagnostic.withoutOffset = e'.diagnostic.withoutOffset →
      (∀ color, e.diagnostic.page source color = e'.diagnostic.page source' color ∧
        ∀ i : Interpreter, e.diagnostic.render i source color =
          e'.diagnostic.render i source' color) →
      SameReport source source' (.error (.parse (.rejected e))) (.error (.parse (.rejected e')))

open Comparison Scanner in
/-- Tokens that differ in their offsets only look the same where offsets are not seen. -/
theorem Comparison.forall₂_seen_withoutOffset (limit : Int) {tokens tokens' : List Token}
    (h : tokens.map Token.withoutOffset = tokens'.map Token.withoutOffset) :
    List.Forall₂ (fun x y => (seeing Location.withoutOffset limit).seen x =
      (seeing Location.withoutOffset limit).seen y) tokens tokens' := by
  rw [← List.forall₂_eq_eq_eq, List.forall₂_map_left_iff, List.forall₂_map_right_iff] at h
  refine h.imp fun x y hxy => ?_
  simp only [Token.withoutOffset, Token.mk.injEq] at hxy
  obtain ⟨hkind, hlexeme, hplace⟩ := hxy
  exact seen_eq_iff.mpr ⟨⟨hkind, hlexeme⟩, hplace⟩

open Comparison in
/-- Where the tokens of two sources differ in their offsets only, and their lines at most in the
carriage returns at their ends, the same comes of reading them. -/
theorem Goal.Ends.exists_sameReport {goal : Goal} {limit : Int} {tokens tokens' : List Token}
    {result : Except ParseFailure Tree} {index : Nat} {source source' : String}
    (h : goal.Ends limit tokens result index)
    (hsame : tokens.map Token.withoutOffset = tokens'.map Token.withoutOffset)
    (hended : ∃ last ∈ tokens'.getLast?, last.kind = .endOfInput)
    (hknown : ∀ t ∈ tokens, t.kind = .directive → Directive.ofWord? t.lexeme ≠ none)
    (hlines : Excerpt.sourceLines source = Excerpt.sourceLines source') :
    ∃ result', goal.Ends limit tokens' result' index ∧
      SameReport source source' (result.mapError .parse) (result'.mapError .parse) := by
  have hseen := forall₂_seen_withoutOffset limit hsame
  cases result with
  | ok tree =>
    obtain ⟨tree', hends, htree⟩ := h.exists_ok_of_seen hseen hended
    refine ⟨.ok tree', hends, .tree ?_⟩
    rw [← Node.dump_map_withoutOffset, htree, Node.dump_map_withoutOffset]
  | error failure =>
    obtain ⟨failure', hends, hfailure⟩ := h.exists_error_of_seen hseen hended
    obtain ⟨e, rfl⟩ := h.exists_rejected hknown
    refine ⟨.error failure', hends, ?_⟩
    cases hfailure with
    | @rejected cause x y hxy =>
      obtain ⟨halike, hplace⟩ := seen_eq_iff.mp hxy
      have hreport := ParseError.diagnostic_withoutOffset halike hplace cause
      exact .rejected rfl hreport (Diagnostic.page_congr hreport hlines)
    | other => exact .rejected rfl rfl (Diagnostic.page_congr rfl hlines)

open Scanner in
/-- It makes no difference how lines end. Whenever a source is scanned, the same source with a
carriage return in front of every line feed is scanned as the same tokens, offsets aside, the end of
the input included; and whatever is to be read, below whatever limit, the same comes of it. -/
theorem exists_sameReport_returned {source file : String} {tokens : List Token}
    (hscan : scan source file = .ok tokens) :
    ∃ tokens', scan (returned source) file = .ok tokens' ∧
      tokens'.map Token.withoutOffset = tokens.map Token.withoutOffset ∧
      ∀ (goal : Goal) (limit : Int),
        SameReport source (returned source) (parseSource goal source file limit)
          (parseSource goal (returned source) file limit) := by
  obtain ⟨tokens', hscan', hsame⟩ := exists_scan_returned hscan
  refine ⟨tokens', hscan', hsame, fun goal limit => ?_⟩
  obtain ⟨result, index, hends⟩ := goal.exists_ends limit (ended_of_scan hscan)
  obtain ⟨result', hends', hreport⟩ :=
    hends.exists_sameReport hsame.symm (ended_of_scan hscan') (ofWord?_ne_none_of_scan hscan)
      (Excerpt.sourceLines_returned source).symm
  rw [parseSource_of_ends hscan hends, parseSource_of_ends hscan' hends']
  exact hreport

/-- The tokens of an assignment over two lines, with a comment and without its semicolon. -/
def twoLineTokens : List Token :=
  [⟨.register, "a", ⟨"f", 1, 1, 0⟩⟩, ⟨.assignOperator, "=", ⟨"f", 2, 1, 6⟩⟩,
    ⟨.endOfInput, "", ⟨"f", 2, 2, 7⟩⟩]

/-- With another line end in front of it, the equals sign is one character further on, in the same
line and column. -/
theorem exists_sameReport_twoLine :
    scan "$a #b\n=" "f" = .ok twoLineTokens ∧
      returned "$a #b\n=" = "$a #b\r\n=" ∧
      ∃ tokens', scan (returned "$a #b\n=") "f" = .ok tokens' ∧
        tokens'.map Token.withoutOffset = twoLineTokens.map Token.withoutOffset ∧
        ∀ (goal : Goal) (limit : Int),
          SameReport "$a #b\n=" (returned "$a #b\n=") (parseSource goal "$a #b\n=" "f" limit)
            (parseSource goal (returned "$a #b\n=") "f" limit) := by
  have hscan : scan "$a #b\n=" "f" = .ok twoLineTokens := by decide
  exact ⟨hscan, by decide, exists_sameReport_returned hscan⟩

end RegisterLang
