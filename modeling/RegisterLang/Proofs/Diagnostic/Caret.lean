import RegisterLang.Proofs.Diagnostic.Excerpt
import RegisterLang.Proofs.Grammar.Safety
import RegisterLang.Proofs.Token.Malformed

/-!
# Where reports point

An error of a source is located at one of its characters, or at its end. The excerpt of its report
shows the line of that character, and the caret stands under it.
-/

namespace RegisterLang

/-- The report of a source error. Failures that no source has are not reported. -/
def SourceError.diagnostic? : SourceError → Option Diagnostic
  | .scan e => some e.diagnostic
  | .parse (.rejected e) => some e.diagnostic
  | .parse _ => none

/-! ### Where errors are -/

namespace Scanner

/-- Every token of a text is at the place of some offset of it. -/
theorem Tiles.exists_placeAt {file : String} {source : List Char} {mode : Mode} {n : Nat}
    {ts : List Token} (h : Tiles file source mode n ts) :
    ∀ t ∈ ts, ∃ o ≤ source.length, t.location = placeAt file source o := by
  induction ts generalizing mode n with
  | nil => simp
  | cons t ts ih =>
    obtain ⟨o, e, mode', mode'', _, hoe, he, hlocation, _, _, _, hrest⟩ := h
    rw [List.forall_mem_cons]
    exact ⟨⟨o, by omega, hlocation⟩, ih hrest⟩

/-- Every token of a source is at one of its characters or at its end. -/
theorem exists_placeAt_of_scan {source file : String} {tokens : List Token}
    (h : RegisterLang.scan source file = .ok tokens) :
    ∀ t ∈ tokens, ∃ o ≤ source.toList.length, t.location = placeAt file source.toList o := by
  obtain ⟨ts, rfl, hscans⟩ := scans_of_scan h
  intro t ht
  rcases List.mem_append.mp ht with ht | ht
  · exact (hscans.tiles (Nat.zero_le _) rfl rfl).exists_placeAt t ht
  · refine ⟨source.toList.length, Nat.le_refl _, ?_⟩
    rw [List.mem_singleton.mp ht, placeAt, List.take_length]
    rfl

/-- A scanning error is at one of the characters of the source or at its end. -/
theorem exists_placeAt_of_scan_error {source file : String} {e : ScanError}
    (h : RegisterLang.scan source file = .error e) :
    ∃ o ≤ source.toList.length, e.location = placeAt file source.toList o := by
  obtain ⟨s', hpass⟩ := scan_eq_error_iff.mp h
  have hne : source.toList ≠ [] := by
    intro hnil
    rw [@pass_of_nil _ (ScanState.start source.toList) hnil] at hpass
    cases hpass
  obtain ⟨s, hs, hstep⟩ := (Dispatched.first hne).exists_of_pass rfl hpass
  have hin := hs.inText rfl
  obtain ⟨c, xs, hrest⟩ := List.exists_cons_of_ne_nil hs.rest_ne_nil
  obtain ⟨_, front, back, hsplit, _, hlocation⟩ := rejects_of_step rfl hrest hstep
  exact ⟨_, add_length_le (hin.rest ▸ hsplit) hin.offset_le,
    hlocation.trans (hin.place_behind hsplit)⟩

end Scanner

open Grammar Scanner in
/-- Every error of a source has a report, and it is at one of the characters of the source or at its
end. -/
theorem exists_placeAt_of_parseSource {goal : Goal} {source file : String} {limit : Int}
    {e : SourceError} (h : parseSource goal source file limit = .error e) :
    ∃ d, e.diagnostic? = some d ∧
      ∃ o ≤ source.toList.length, d.location = placeAt file source.toList o := by
  rcases @cases_of_parseSource goal limit source file with
    ⟨tree, htree⟩ | ⟨e', he'⟩ | ⟨tokens, e', hscan, he', htoken, _⟩
  · rw [htree] at h
    cases h
  · obtain rfl : .scan e' = e := Except.error.inj (he'.symm.trans h)
    exact ⟨e'.diagnostic, rfl, exists_placeAt_of_scan_error (parseSource_eq_error_scan.mp he')⟩
  · obtain rfl : .parse (.rejected e') = e := Except.error.inj (he'.symm.trans h)
    exact ⟨e'.diagnostic, rfl, exists_placeAt_of_scan hscan _ htoken⟩

open Excerpt

/-! ### Reports -/

/-- The first rows of a plain report are those of its excerpt. -/
theorem Diagnostic.splitLines_page {d : Diagnostic} {source file : String}
    {line column offset : Nat} (hplace : d.location = ⟨file, line, column, offset⟩)
    (hline : hasLine (sourceLines source) line) :
    ∃ others, splitLines (d.page source false).toList =
      (rows (sourceLines source) line column false).map String.toList ++ others := by
  have hrows : ∀ row ∈ rows (sourceLines source) line column false, ∀ c ∈ row.toList, c ≠ '\n' := by
    rintro row hrow c hc rfl
    exact lineFeed_notMem_rows hrow hc
  rw [page, hplace, Excerpt.page]
  simp only [hline, if_true, Int.toNat_natCast]
  rw [String.toList_append, splitLines_intercalate hrows]
  exact ⟨_, rfl⟩

/-- The caret is the last character of its row, and the only one of its sort there: it stands under
the character of the row above that is as far behind the margin as the column says. -/
theorem Excerpt.getElem?_caretRow_iff {width n column : Nat} (hn : (toString n).length ≤ width)
    (hcolumn : 1 ≤ column) (i : Nat) :
    (" " ++ spaces width ++ " | " ++ spaces ((column : Int) - 1).toNat ++ "^").toList[i]? =
        some '^' ↔
      i = (margin width n).length + (column - 1) := by
  rw [getElem?_caret_iff, length_margin hn]
  omega

/-- The rows of a report point at the character of a source with this offset, which is in this line
and column: the line is `content`, with `front` in front of it and `back` behind it in the source,
and it is shown behind a margin. -/
structure PointsAt (source : List Char) (report : List (List Char)) (margin : List Char)
    (line column offset : Nat) (front content back : List Char) : Prop where
  isLine : IsLine source line front content back
  offset_eq : offset = front.length + (column - 1)
  /-- One row shows the line without the carriage returns at its end. -/
  row : report[rowIndex line]? = some (margin ++ trimReturns content)
  /-- The next row has one caret, as far behind the margin as the character is in its line. -/
  caret : ∃ below, report[rowIndex line + 1]? = some below ∧
    ∀ i, below[i]? = some '^' ↔ i = margin.length + (column - 1)
  /-- If the row goes as far as the caret, it shows the character over it. -/
  shown : margin.length + (column - 1) < (margin ++ trimReturns content).length →
    (margin ++ trimReturns content)[margin.length + (column - 1)]? = source[offset]?
  /-- If it does not, the character is a carriage return at the end of the line, or the line feed
  behind it, or the source ends there. -/
  beyond : (margin ++ trimReturns content).length ≤ margin.length + (column - 1) →
    offset ≤ front.length + content.length ∧ ∀ c ∈ source[offset]?, c = '\r' ∨ c = '\n'

/-- The character in a column of a line, as an excerpt shows it. -/
theorem Excerpt.IsLine.shows {source front content back : List Char} {line : Nat}
    (h : IsLine source line front content back) (n : Nat) :
    (n < (trimReturns content).length → (trimReturns content)[n]? = source[front.length + n]?) ∧
      ((trimReturns content).length ≤ n → n ≤ content.length →
        ∀ c ∈ source[front.length + n]?, c = '\r' ∨ c = '\n') := by
  obtain ⟨returns, hcontent, hreturns⟩ := exists_trimReturns content
  have hsource : source[front.length + n]? = (trimReturns content ++ (returns ++ back))[n]? := by
    rw [h.source_eq, List.getElem?_append_right (by omega), Nat.add_sub_cancel_left,
      ← List.append_assoc, ← hcontent]
  have hlength : content.length = (trimReturns content).length + returns.length := by
    rw [← List.length_append, ← hcontent]
  constructor
  · intro hn
    rw [hsource, List.getElem?_append_left hn]
  · intro hn hle c hc
    rw [hsource, List.getElem?_append_right hn] at hc
    by_cases hin : n - (trimReturns content).length < returns.length
    · rw [List.getElem?_append_left hin] at hc
      exact .inl (hreturns c (List.mem_of_getElem? hc))
    · rw [List.getElem?_append_right (by omega)] at hc
      have hzero : n - (trimReturns content).length - returns.length = 0 := by omega
      rw [hzero, ← List.head?_eq_getElem?] at hc
      exact .inr (h.ends c hc)

open Scanner in
/-- Every report points at the offending character. Whenever a source has an error, the error has a
report, at a line and a column of the source, and the excerpt beside it has a row for that line and
a caret under that column, which is where the character with the offset of the error is. The report
is made by every interpreter that has room for a number and for a run of spaces as long as the
source. -/
theorem exists_pointsAt_of_parseSource {goal : Goal} {source file : String} {limit : Int}
    {e : SourceError} (h : parseSource goal source file limit = .error e) :
    ∃ d, e.diagnostic? = some d ∧ ∃ (line column offset : Nat) (front content back : List Char),
      d.location = ⟨file, line, column, offset⟩ ∧
        1 ≤ line ∧ line ≤ (splitLines source.toList).length ∧ 1 ≤ column ∧
        PointsAt source.toList (splitLines (d.page source false).toList)
          (margin (gutterWidth (sourceLines source) line) line) line column offset front content
          back ∧
        ∀ i : Interpreter, i.writes ↑(source.length + 1) → source.length ≤ Interpreter.maxCount →
          source.length ≤ i.memory → ∀ color,
            d.render i source color = .ok (d.page source color) := by
  obtain ⟨d, hd, o, ho, hplace⟩ := exists_placeAt_of_parseSource h
  obtain ⟨front, content, back, hisLine, hstart, hfront, hcontent⟩ := exists_isLine ho
  let line := 1 + (source.toList.take o).count '\n'
  let column := o - front.length + 1
  have hlocation : d.location = ⟨file, line, column, o⟩ := by
    rw [hplace, placeAt, Position.afterAll_start, hstart, List.length_take, Nat.min_eq_left ho]
    rfl
  have hle : line ≤ (splitLines source.toList).length := by
    have hget := (List.getElem?_eq_some_iff.mp hisLine.getElem?).1
    have hpos := hisLine.number_pos
    omega
  have hlength : (sourceLines source).length = (splitLines source.toList).length :=
    List.length_map _
  have hhas : hasLine (sourceLines source) line := by
    constructor
    · exact_mod_cast hisLine.number_pos
    · rw [hlength]
      exact_mod_cast hle
  have hdigits : (toString line).length ≤ gutterWidth (sourceLines source) line :=
    length_toString_le_gutterWidth (by omega)
  obtain ⟨others, hrows⟩ := d.splitLines_page hlocation hhas
  obtain ⟨hrow, hbelow⟩ := getElem?_rows (sourceLines source) line column
  have hfirst {k : Nat} {row : String} (hk : (rows (sourceLines source) line column false)[k]? =
      some row) : (splitLines (d.page source false).toList)[k]? = some row.toList := by
    have hbound := (List.getElem?_eq_some_iff.mp hk).1
    rw [hrows, List.getElem?_append_left (by simpa using hbound), List.getElem?_map, hk]
    rfl
  have hshows := hisLine.shows (o - front.length)
  rw [Nat.add_sub_cancel' hfront] at hshows
  refine ⟨d, hd, line, column, o, front, content, back, hlocation, hisLine.number_pos, hle,
    Nat.le_add_left 1 _, ⟨hisLine, ?_, ?_, ⟨_, hfirst hbelow, ?_⟩, ?_, ?_⟩, ?_⟩
  · omega
  · rw [hfirst hrow, toList_numberedRow, toList_getD_sourceLines, List.getD_eq_getElem?_getD,
      hisLine.getElem?]
    rfl
  · exact getElem?_caretRow_iff hdigits (Nat.le_add_left 1 _)
  · intro hlt
    rw [List.length_append] at hlt
    rw [List.getElem?_append_right (by omega), Nat.add_sub_cancel_left]
    exact hshows.1 (by omega)
  · intro hge
    rw [List.length_append] at hge
    exact ⟨hcontent, hshows.2 (by omega) (by omega)⟩
  · intro i hwrites hcount hmemory color
    have hcolumn : column ≤ source.length + 1 := by
      rw [← String.length_toList]
      omega
    rw [Diagnostic.render_eq_elim, hlocation, fault?_eq_none hwrites hcount hmemory hle hcolumn]
    rfl

/-- The string on the second line has a line feed in it. The caret stands behind that line, whose
carriage return is not shown. -/
theorem exists_pointsAt_unclosedString :
    parseSource .program "$a = 1;\r\n$b = 'x\r\n" "f" 64 =
        .error (.scan ⟨.multilineString, ⟨"f", 2, 9, 17⟩⟩) ∧
      ∃ d, SourceError.diagnostic? (.scan ⟨.multilineString, ⟨"f", 2, 9, 17⟩⟩) = some d ∧
        ∃ (line column offset : Nat) (front content back : List Char),
          d.location = ⟨"f", line, column, offset⟩ ∧ 1 ≤ line ∧
            line ≤ (splitLines "$a = 1;\r\n$b = 'x\r\n".toList).length ∧ 1 ≤ column ∧
            PointsAt "$a = 1;\r\n$b = 'x\r\n".toList
              (splitLines (d.page "$a = 1;\r\n$b = 'x\r\n" false).toList)
              (margin (gutterWidth (sourceLines "$a = 1;\r\n$b = 'x\r\n") line) line) line column
              offset front content back ∧
            ∀ i : Interpreter, i.writes ↑("$a = 1;\r\n$b = 'x\r\n".length + 1) →
              "$a = 1;\r\n$b = 'x\r\n".length ≤ Interpreter.maxCount →
              "$a = 1;\r\n$b = 'x\r\n".length ≤ i.memory → ∀ color,
                d.render i "$a = 1;\r\n$b = 'x\r\n" color =
                  .ok (d.page "$a = 1;\r\n$b = 'x\r\n" color) := by
  have herror : parseSource .program "$a = 1;\r\n$b = 'x\r\n" "f" 64 =
      .error (.scan ⟨.multilineString, ⟨"f", 2, 9, 17⟩⟩) :=
    Grammar.parseSource_eq_error_scan.mpr (by decide)
  exact ⟨herror, exists_pointsAt_of_parseSource herror⟩

end RegisterLang
