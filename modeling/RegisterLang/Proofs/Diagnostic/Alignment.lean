import RegisterLang.Proofs.Diagnostic.Excerpt

/-!
# Alignment of excerpts

An excerpt shows source lines behind their numbers, and a caret under one of them. Whatever line and
column it is for, the numbers end in one column of the page, the bars stand in another, and the
caret stands under the character that it is about.
-/

namespace RegisterLang.Excerpt

/-! ### How rows should be laid out -/

/-- The rows of an excerpt above its header. -/
structure Layout where
  /-- The row of the line before, if there is one. -/
  before : Option String
  locator : String
  /-- The row of the offending line. -/
  row : String
  caret : String
  /-- The row of the line after, if there is one. -/
  behind : Option String

namespace Layout

/-- The rows from top to bottom. -/
def all (l : Layout) : List String :=
  l.before.toList ++ [l.locator, l.row, l.caret] ++ l.behind.toList

/-- The rows of source lines and the row of the caret. -/
def barred (l : Layout) : List String :=
  l.before.toList ++ [l.row, l.caret] ++ l.behind.toList

end Layout

/-- What should be shown of the line with this number: all but the carriage returns at its end. -/
def shownLine (lines : List (List Char)) (number : Nat) : List Char :=
  (lines.getD (number - 1) []).rdropWhile (· == '\r')

/-- A row shows the line with this number behind the number, which is right-aligned in a column of
this width. -/
structure ShowsLine (lines : List (List Char)) (width number : Nat) (row : String) : Prop where
  one_le : 1 ≤ number
  le_length : number ≤ lines.length
  toList_eq : ∃ blanks, (∀ c ∈ blanks, c = ' ') ∧
    blanks.length + (toString number).length = width ∧
      row.toList =
        [' '] ++ blanks ++ (toString number).toList ++ " | ".toList ++ shownLine lines number

/-- The rows for a line and a column of a text with these lines are aligned, and numbers have a
column of this width. -/
structure Layout.Aligned (lines : List (List Char)) (line : Nat) (column : Int) (width : Nat)
    (l : Layout) : Prop where
  /-- The largest number that is shown fills its column. -/
  width_eq : width = (toString (if line < lines.length then line + 1 else line)).length
  before_isSome : l.before.isSome ↔ 1 < line
  before : ∀ row ∈ l.before, ShowsLine lines width (line - 1) row
  locator : ∃ blanks, (∀ c ∈ blanks, c = ' ') ∧ blanks.length = width ∧
    l.locator.toList =
      blanks ++ ("--> line " ++ toString line ++ ":" ++ toString column).toList
  row : ShowsLine lines width line l.row
  caret : ∃ blanks marks, (∀ c ∈ blanks, c = ' ') ∧ (∀ c ∈ marks, c = ' ' ∨ c = '^') ∧
    blanks.length = width + 1 ∧ l.caret.toList = blanks ++ " | ".toList ++ marks
  behind_isSome : l.behind.isSome ↔ line < lines.length
  behind : ∀ row ∈ l.behind, ShowsLine lines width (line + 1) row
  /-- The first bar of every row stands in the same place. -/
  bar : ∀ row ∈ l.barred, row.toList.idxOf? '|' = some (width + 2)
  /-- There is one caret, and it stands as far behind the margin as the column says. -/
  caret_iff : ∀ i : Nat, l.caret.toList[i]? = some '^' ↔ (i : Int) = width + 4 + (max column 1 - 1)
  /-- The offending line starts behind the margin, too. -/
  above : ∀ i, l.row.toList[width + 4 + i]? = (shownLine lines line)[i]?
  /-- Every row is a line of its own. -/
  lineFeed_notMem : ∀ row ∈ l.all, '\n' ∉ row.toList

/-! ### How they are -/

variable {source row : String} {lines : List (List Char)} {line number width : Nat}
  {column : Int}

/-- Behind a front without bars, the bar is the first one of its row. -/
theorem idxOf?_bar {front : List Char} (h : '|' ∉ front) (ys : List Char) :
    (front ++ " | ".toList ++ ys).idxOf? '|' = some (front.length + 1) := by
  have hspace : '|' ∉ front ++ [' '] := by simp [h]
  have hsplit : front ++ " | ".toList ++ ys = front ++ [' '] ++ '|' :: ' ' :: ys := by
    simp only [List.append_assoc]
    rfl
  rw [hsplit, List.idxOf?_eq_some_iff]
  refine ⟨by simp, by simp, fun j hj heq => hspace ?_⟩
  rw [List.getElem_append_left (by simpa using hj)] at heq
  exact heq ▸ List.getElem_mem _

/-- A row with a number shows the line with this number. -/
theorem showsLine_numberedRow (hpos : 1 ≤ number)
    (hle : number ≤ (splitLines source.toList).length) (hwidth : (toString number).length ≤ width) :
    ShowsLine (splitLines source.toList) width number
      (numberedRow width (sourceLines source) number) := by
  refine ⟨hpos, hle, (spaces (width - (toString number).length)).toList,
    fun c => eq_of_mem_spaces, ?_, ?_⟩
  · rw [String.length_toList, length_spaces, Nat.sub_add_cancel hwidth]
  · have hshown : ((sourceLines source).getD (number - 1) "").toList =
        shownLine (splitLines source.toList) number := toList_getD_sourceLines source (number - 1)
    rw [toList_numberedRow, hshown, margin, alignedNumber]
    simp only [String.toList_append, List.append_assoc]
    rfl

namespace ShowsLine

variable (h : ShowsLine lines width number row)
include h

/-- What is in front of the bar of a source row is as wide as the column of numbers and the space in
front of that, and has no bar in it. -/
theorem exists_front : ∃ front, '|' ∉ front ∧ front.length = width + 1 ∧
    row.toList = front ++ " | ".toList ++ shownLine lines number := by
  obtain ⟨blanks, hblanks, hlength, hrow⟩ := h.toList_eq
  refine ⟨[' '] ++ blanks ++ (toString number).toList, ?_, ?_, hrow⟩
  · have hnumber : '|' ∉ (toString number).toList :=
      Text.notMem_toString number (by decide) (by decide)
    simp only [List.mem_append, List.mem_singleton, not_or]
    exact ⟨⟨by decide, fun hmem => absurd (hblanks _ hmem) (by decide)⟩, hnumber⟩
  · simp only [List.length_append, List.length_singleton, String.length_toList]
    omega

/-- The bar stands behind the number and the blanks around it. -/
theorem idxOf?_bar : row.toList.idxOf? '|' = some (width + 2) := by
  obtain ⟨front, hfront, hlength, hrow⟩ := h.exists_front
  rw [hrow, Excerpt.idxOf?_bar hfront, hlength]

/-- Behind the bar and a blank stands the line. -/
theorem getElem?_row (i : Nat) : row.toList[width + 4 + i]? = (shownLine lines number)[i]? := by
  obtain ⟨front, _, hlength, hrow⟩ := h.exists_front
  have hmargin : (front ++ " | ".toList).length = width + 4 := by
    rw [List.length_append, hlength]
    rfl
  rw [hrow, List.getElem?_append_right (by omega), hmargin, Nat.add_sub_cancel_left]

end ShowsLine

/-! ### Excerpts -/

/-- The rows of an excerpt, each in its place. -/
def layout (lines : List String) (line : Nat) (column : Int) : Layout where
  before := if 1 < line then some (numberedRow (gutterWidth lines line) lines (line - 1)) else none
  locator :=
    spaces (gutterWidth lines line) ++ "--> line " ++ toString line ++ ":" ++ toString column
  row := numberedRow (gutterWidth lines line) lines line
  caret := " " ++ spaces (gutterWidth lines line) ++ " | " ++ spaces (column - 1).toNat ++ "^"
  behind :=
    if line < lines.length then some (numberedRow (gutterWidth lines line) lines (line + 1))
    else none

/-- The rows of an excerpt are those of its layout. -/
theorem all_layout (lines : List String) (line : Nat) (column : Int) :
    (layout lines line column).all = rows lines line column false := by
  simp only [Layout.all, layout, rows, Ink.paint, Bool.false_eq_true, if_false]
  congr 1
  · congr 1
    split <;> rfl
  · split <;> rfl

/-- The row of a caret: spaces as far as the bar, then spaces as far as the caret. -/
theorem exists_caretRow (width n : Nat) :
    ∃ blanks marks, (∀ c ∈ blanks, c = ' ') ∧ (∀ c ∈ marks, c = ' ' ∨ c = '^') ∧
      blanks.length = width + 1 ∧
        (" " ++ spaces width ++ " | " ++ spaces n ++ "^").toList =
          blanks ++ " | ".toList ++ marks := by
  refine ⟨(" " ++ spaces width).toList, (spaces n ++ "^").toList, ?_, ?_, ?_, ?_⟩
  · intro c hc
    rw [String.toList_append, List.mem_append] at hc
    exact hc.elim List.mem_singleton.mp eq_of_mem_spaces
  · intro c hc
    rw [String.toList_append, List.mem_append] at hc
    exact hc.imp eq_of_mem_spaces List.mem_singleton.mp
  · rw [String.length_toList, String.length_append, length_spaces, Nat.add_comm]
    rfl
  · simp only [String.toList_append, List.append_assoc]

/-- The number column is as wide as the number of the line after, or of the line itself if that is
the last one. -/
theorem gutterWidth_eq (hle : line ≤ (splitLines source.toList).length) :
    gutterWidth (sourceLines source) line =
      (toString (if line < (splitLines source.toList).length then line + 1 else line)).length := by
  have hmin : min (line + 1) (splitLines source.toList).length =
      if line < (splitLines source.toList).length then line + 1 else line := by
    split <;> omega
  rw [gutterWidth, length_sourceLines, hmin]

/-- Lines up to the one after are shown with their numbers, which are no wider than the largest
one. -/
theorem showsLine_gutterWidth (hpos : 1 ≤ number)
    (hle : number ≤ min (line + 1) (splitLines source.toList).length) :
    ShowsLine (splitLines source.toList) (gutterWidth (sourceLines source) line) number
      (numberedRow (gutterWidth (sourceLines source) line) (sourceLines source) number) := by
  refine showsLine_numberedRow hpos (by omega) (Text.length_toString_le ?_)
  rw [length_sourceLines]
  exact hle

/-- The row above the offending one shows the line before, if there is one. -/
theorem showsLine_before (hle : line ≤ (splitLines source.toList).length) :
    ∀ row ∈ (layout (sourceLines source) line column).before,
      ShowsLine (splitLines source.toList) (gutterWidth (sourceLines source) line) (line - 1)
        row := by
  intro row hmem
  by_cases hline : 1 < line
  · obtain rfl : numberedRow (gutterWidth (sourceLines source) line) (sourceLines source)
        (line - 1) = row := by
      simpa [layout, hline] using hmem
    exact showsLine_gutterWidth (by omega) (by omega)
  · simp [layout, hline] at hmem

/-- The last row shows the line behind, if there is one. -/
theorem showsLine_behind :
    ∀ row ∈ (layout (sourceLines source) line column).behind,
      ShowsLine (splitLines source.toList) (gutterWidth (sourceLines source) line) (line + 1)
        row := by
  intro row hmem
  have hlength := length_sourceLines source
  by_cases hline : line < (sourceLines source).length
  · obtain rfl : numberedRow (gutterWidth (sourceLines source) line) (sourceLines source)
        (line + 1) = row := by
      simpa [layout, hline] using hmem
    exact showsLine_gutterWidth (by omega) (by omega)
  · simp [layout, hline] at hmem

/-- The bar of the caret's row stands where it does in the others. -/
theorem idxOf?_caretRow (width n : Nat) :
    (" " ++ spaces width ++ " | " ++ spaces n ++ "^").toList.idxOf? '|' = some (width + 2) := by
  obtain ⟨blanks, marks, hblanks, _, hlength, hrow⟩ := exists_caretRow width n
  have hfront : '|' ∉ blanks := fun hbar => absurd (hblanks _ hbar) (by decide)
  rw [hrow, idxOf?_bar hfront, hlength]

/-- Whatever the column, the rows for a line of a source are aligned. -/
theorem aligned_layout (hpos : 1 ≤ line) (hle : line ≤ (splitLines source.toList).length)
    (column : Int) :
    (layout (sourceLines source) line column).Aligned (splitLines source.toList) line column
      (gutterWidth (sourceLines source) line) where
  width_eq := gutterWidth_eq hle
  before_isSome := by simp [layout]
  before := showsLine_before hle
  locator := by
    refine ⟨(spaces (gutterWidth (sourceLines source) line)).toList, fun c => eq_of_mem_spaces,
      ?_, ?_⟩
    · rw [String.length_toList, length_spaces]
    · simp only [layout, String.toList_append, List.append_assoc]
  row := showsLine_gutterWidth hpos (by omega)
  caret := exists_caretRow _ _
  behind_isSome := by simp [layout, length_sourceLines]
  behind := showsLine_behind
  bar := by
    intro row hmem
    simp only [Layout.barred, List.mem_append, Option.mem_toList, List.mem_cons,
      List.not_mem_nil, or_false] at hmem
    rcases hmem with (hmem | rfl | rfl) | hmem
    · exact (showsLine_before hle row hmem).idxOf?_bar
    · exact (showsLine_gutterWidth hpos (by omega)).idxOf?_bar
    · exact idxOf?_caretRow _ _
    · exact (showsLine_behind row hmem).idxOf?_bar
  caret_iff := by
    intro i
    refine (getElem?_caret_iff _ _ i).trans ?_
    omega
  above := (showsLine_gutterWidth hpos (by omega)).getElem?_row
  lineFeed_notMem := by
    intro row hmem
    rw [all_layout] at hmem
    exact lineFeed_notMem_rows hmem

/-- A text is the plain excerpt that a line and a column of a source should have: the header alone,
with the line's number, for a line that the source does not have, and aligned rows above the header
for other lines. -/
def IsAligned (source path message : String) (line column : Int) (text : String) : Prop :=
  let lines := source.toList.splitOn '\n'
  let header := path ++ ": Error: " ++ message
  if line < 1 ∨ lines.length < line then
    text = header ++ " (at line " ++ toString line ++ ")"
  else
    ∃ (number width : Nat) (l : Layout), line = number ∧ l.Aligned lines number column width ∧
      text = "\n".intercalate (l.all ++ [header])

/-- The source has a line unless its number is below one or above the number of lines. -/
theorem not_hasLine_iff {line : Int} :
    ¬ hasLine (sourceLines source) line ↔
      line < 1 ∨ (source.toList.splitOn '\n').length < line := by
  rw [hasLine, length_sourceLines, splitLines_eq_splitOn]
  omega

/-- Whatever the line and the column, the page is aligned. -/
theorem isAligned_page (source path message : String) (line column : Int) :
    IsAligned source path message line column
      (page source path line column message false) := by
  unfold IsAligned page
  intro lines header
  split
  case isTrue hout =>
    rw [if_neg (not_hasLine_iff.mpr hout)]
    rfl
  case isFalse hin =>
    have hhas : hasLine (sourceLines source) line := not_not.mp fun h => hin (not_hasLine_iff.mp h)
    have hlines : splitLines source.toList = lines := splitLines_eq_splitOn source.toList
    obtain ⟨number, rfl⟩ : ∃ number : Nat, line = number := ⟨line.toNat, by omega⟩
    have haligned := aligned_layout (show 1 ≤ number by omega)
      (show number ≤ (splitLines source.toList).length by rw [hlines]; omega) column
    rw [hlines] at haligned
    refine ⟨number, _, _, rfl, haligned, ?_⟩
    simp only [if_pos hhas, all_layout]
    rfl

/-- A plain excerpt is aligned for every line and column for which it is made, and it is made unless
the interpreter breaks it off. That happens for three reasons. The page has a number that is not
written out: the number of a line that the source does not have, or else the largest number of a row
or the column. Or the caret of a line is further to the right than machine words count, or there is
no memory for the spaces up to it. -/
theorem render_aligned (i : Interpreter) (source path message : String) (line column : Int) :
    let count := (source.toList.splitOn '\n').length
    let report := render i source path line column message false
    if line < 1 ∨ count < line then
      if i.writes line then
        ∃ text, report = .ok text ∧ IsAligned source path message line column text
      else report = .error .digits
    else if ¬ (i.writes (min (line + 1) count) ∧ i.writes column) then report = .error .digits
    else if Interpreter.maxCount < column - 1 then report = .error .overflow
    else if i.memory < column - 1 then report = .error .memory
    else ∃ text, report = .ok text ∧ IsAligned source path message line column text := by
  intro count report
  have hlength : (sourceLines source).length = count := by
    rw [length_sourceLines, splitLines_eq_splitOn]
  have hreport {fault : Fault} (h : fault? i source line column = some fault) :
      report = .error fault := by
    simp only [report, render_eq_elim, h, Option.elim_some]
  have hmade (h : fault? i source line column = none) :
      ∃ text, report = .ok text ∧ IsAligned source path message line column text := by
    refine ⟨_, ?_, isAligned_page ..⟩
    simp only [report, render_eq_elim, h, Option.elim_none]
  split
  case isTrue hout =>
    have hnone := not_hasLine_iff.mpr hout
    split
    case isTrue hwrites => exact hmade (by simp only [fault?, if_neg hnone, if_pos hwrites])
    case isFalse hwrites => exact hreport (by simp only [fault?, if_neg hnone, if_neg hwrites])
  case isFalse hin =>
    have hhas : hasLine (sourceLines source) line := not_not.mp fun h => hin (not_hasLine_iff.mp h)
    split
    case isTrue hwrites =>
      refine hreport ?_
      rw [← hlength, ← Bool.and_eq_true] at hwrites
      simp only [fault?, if_pos hhas, if_neg hwrites]
    case isFalse hwrites =>
      rw [not_not, ← hlength, ← Bool.and_eq_true] at hwrites
      have hfault : fault? i source line column = i.runFault? (column - 1) := by
        simp only [fault?, if_pos hhas, if_pos hwrites]
      split
      case isTrue hfar => exact hreport (by rw [hfault, Interpreter.runFault?, if_pos hfar])
      case isFalse hnear =>
        split
        case isTrue hfull =>
          exact hreport (by rw [hfault, Interpreter.runFault?, if_neg hnear, if_pos hfull])
        case isFalse hroom =>
          exact hmade (by rw [hfault, Interpreter.runFault?_eq_none_iff]; omega)

/-- A column further to the right than machine words count. -/
def farColumn : Int :=
  100000000000000000000

/-- So there is not an aligned excerpt for every line and column. Under a line of one character, no
memory is enough for a caret that is further to the right than machine words count. -/
theorem not_exists_aligned_farColumn :
    ¬ ∃ (memory : Nat) (text : String),
      render (.standard memory) "a" "p" 1 farColumn "m" false = .ok text ∧
        IsAligned "a" "p" "m" 1 farColumn text := by
  rintro ⟨memory, text, htext, _⟩
  have hbroken : fault? (.standard memory) "a" 1 farColumn = some .overflow := by rfl
  rw [render_eq_elim, hbroken] at htext
  cases htext

/-- The numbers of the rows have one digit and two, and the column is in front of the line. -/
example : page "1\n2\n3\n4\n5\n6\n7\n8\nab\r\n10" "f" 9 (-3) "m" false =
    "  8 | 8\n  --> line 9:-3\n  9 | ab\n    | ^\n 10 | 10\nf: Error: m" := by
  decide

end RegisterLang.Excerpt
