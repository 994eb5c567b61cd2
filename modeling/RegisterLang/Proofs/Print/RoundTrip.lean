import RegisterLang.Proofs.Print.Text

/-!
# Printing a program and reading it again

The canonical text of a program that was read from a text is read as the same program, places aside,
and under the same limit on nesting.
-/

namespace RegisterLang

open Scanner Grammar Print

/-- A source is read as a document if its tokens derive the statements of the document. -/
theorem parseSource_eq_ok_iff {source file : String} {limit : Int} {statements : List (Node Unit)} :
    (∃ document, parseSource .program source file limit = .ok document ∧
        document.shape = .document () statements) ↔
      ∃ ts, Scans file .free Position.start source.toList ts ∧
        Forms limit.toNat (.statements statements) ts [] := by
  constructor
  · rintro ⟨document, hdocument, hshape⟩
    obtain ⟨_, hscan, hread⟩ := parseSource_eq_ok.mp hdocument
    obtain ⟨first, _, trees, rfl, hreads⟩ := (parseTokens_eq_ok_iff (ended_of_scan hscan)).mp hread
    obtain ⟨ts, rfl, hscans⟩ := scan_eq_ok_iff.mp hscan
    rw [takeWhile_append_ended hscans.kind_ne_endOfInput rfl] at hreads
    have htrees : trees.map Node.shape = statements := by simpa [Node.map] using hshape
    exact ⟨ts, hscans, forms_iff_exists_reads.mpr ⟨trees, htrees, hreads⟩⟩
  · rintro ⟨ts, hscans, hforms⟩
    obtain ⟨trees, rfl, hreads⟩ := forms_iff_exists_reads.mp hforms
    have hscan : scan source file = .ok (ts ++ [endOfInput file source.toList]) :=
      scan_eq_ok_iff.mpr ⟨ts, rfl, hscans⟩
    obtain ⟨first, hfirst⟩ : ∃ first, first ∈ (ts ++ [endOfInput file source.toList]).head? := by
      cases ts with
      | nil => exact ⟨_, rfl⟩
      | cons t ts => exact ⟨t, rfl⟩
    have htake := @takeWhile_append_ended ts (endOfInput file source.toList)
      hscans.kind_ne_endOfInput rfl
    rw [← htake] at hreads
    have hread := (parseTokens_eq_ok_iff (ended_of_scan hscan)).mpr
      ⟨first, hfirst, trees, rfl, hreads⟩
    exact ⟨_, parseSource_eq_ok.mpr ⟨_, hscan, hread⟩, by simp [Node.map]⟩

/-- A program is read as a document. -/
theorem exists_statements_of_parseSource {source file : String} {limit : Int} {document : Tree}
    (h : parseSource .program source file limit = .ok document) :
    ∃ statements, document.shape = .document () statements := by
  unfold parseSource at h
  split at h
  · cases h
  · next tokens hscan =>
    obtain ⟨ts, rfl, _⟩ := scan_eq_ok_iff.mp hscan
    split at h
    · cases h
    · next tree htree =>
      cases h
      obtain ⟨first, _, trees, rfl, _⟩ := (parseTokens_eq_ok_iff
        ⟨endOfInput file source.toList, by simp, rfl⟩).mp htree
      exact ⟨trees.map Node.shape, by simp [Node.map]⟩

/-- The canonical items of what is derived from the tokens of a text are scanned from their text as
tokens that derive it again. -/
theorem exists_scans_text {n : Nat} {statements : List (Node Unit)} {ts : List Token}
    (hlawful : Lawful .free ts) (hforms : Forms n (.statements statements) ts []) (file : String) :
    ∃ ts', Scans file .free Position.start (Print.text (.document () statements)).toList ts' ∧
      Forms n (.statements statements) ts' [] := by
  obtain ⟨_, _, hprints⟩ := prints_of_forms hforms ⟨by decide, hlawful⟩
  obtain ⟨ts', hts', hscans⟩ := prints_lines hprints [] file Position.start [] .done
  have hrenders := hforms.rendersItems []
  have happart (t u : Token) (h : t.Alike u) (ht : isSign t = false) : isSign u = false := by
    rwa [isSign, ← h.kind, ← h.lexeme]
  rw [List.append_nil] at hrenders
  obtain ⟨_, _ | _, statements', hstatements', hforms'⟩ := hrenders.twin (fun _ => ()) happart hts'
  rw [Node.shape_eq_id, List.map_id, List.map_id] at hstatements'
  refine ⟨ts', ?_, hstatements' ▸ hforms'⟩
  rw [Print.text, String.toList_ofList, items, statementItemsAll_eq]
  simpa using hscans

/-- The canonical text of a program is read as the program, under any display name. -/
theorem exists_parseSource_text {source file : String} {limit : Int} {document : Tree}
    (h : parseSource .program source file limit = .ok document) (file' : String) :
    ∃ document', parseSource .program (Print.text document.shape) file' limit = .ok document' ∧
      document'.shape = document.shape := by
  obtain ⟨statements, hstatements⟩ := exists_statements_of_parseSource h
  obtain ⟨ts, hscans, hforms⟩ := parseSource_eq_ok_iff.mp ⟨document, h, hstatements⟩
  rw [hstatements]
  exact parseSource_eq_ok_iff.mpr
    (exists_scans_text (lawful_of_scans hscans (.free .free)) hforms file')

/-- A product of a sum and a member is printed with one pair of parentheses and a semicolon, and is
read again. -/
theorem exists_parseSource_text_product :
    ∃ document, parseSource .program "$a = ((1 + 2)) * $b.1" "f" 64 = .ok document ∧
      Print.text document.shape = "$a = (1 + 2) * $b.1;" ∧
      ∃ document', parseSource .program (Print.text document.shape) "g" 64 = .ok document' ∧
        document'.shape = document.shape := by
  have hprinted : ((parseSource .program "$a = ((1 + 2)) * $b.1" "f" 64).toOption.map
      fun document => Print.text document.shape) = some "$a = (1 + 2) * $b.1;" := by
    decide +kernel
  obtain ⟨document, hdocument, htext⟩ := Option.map_eq_some_iff.mp hprinted
  have hread : parseSource .program "$a = ((1 + 2)) * $b.1" "f" 64 = .ok document := by
    cases hresult : parseSource .program "$a = ((1 + 2)) * $b.1" "f" 64 with
    | ok tree =>
      rw [hresult] at hdocument
      exact congrArg Except.ok (Option.some.inj hdocument)
    | error e =>
      rw [hresult] at hdocument
      cases hdocument
  exact ⟨document, hread, htext, exists_parseSource_text hread "g"⟩

end RegisterLang
