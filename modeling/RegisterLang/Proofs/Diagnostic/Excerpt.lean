import Mathlib.Data.List.DropRight
import RegisterLang.Diagnostic.Excerpt
import RegisterLang.Proofs.Text.Integer
import RegisterLang.Proofs.Token.Place

/-!
# Lines and rows

The lines of a source and the rows of a report are split at line feeds alike. This file says where a
line stands in its text, and which rows an excerpt has.
-/

namespace RegisterLang

/-- What is not above a number that is written out is written out. -/
theorem Interpreter.writes_of_le {i : Interpreter} {m n : Nat} (h : m ≤ n) (hn : i.writes n) :
    i.writes m := by
  rw [writes, decide_eq_true_eq] at hn ⊢
  exact Nat.le_trans (Text.length_toString_le h) hn

namespace Excerpt

variable {c : Char} {xs ys line line' front head : List Char} {lines : List (List Char)}

/-! ### Lines -/

/-- An empty text is one empty line. -/
@[simp] theorem splitLines_nil : splitLines [] = [[]] := rfl

/-- A line feed ends a line that is empty so far. -/
@[simp] theorem splitLines_lineFeed (xs : List Char) :
    splitLines ('\n' :: xs) = [] :: splitLines xs := rfl

/-- A character other than a line feed belongs to the first line. -/
theorem splitLines_cons (hc : c ≠ '\n') (h : splitLines xs = line :: lines) :
    splitLines (c :: xs) = (c :: line) :: lines := by
  rw [splitLines, if_neg hc, h]

/-- There is a first line. -/
theorem exists_splitLines (xs : List Char) : ∃ line lines, splitLines xs = line :: lines := by
  induction xs with
  | nil => exact ⟨_, _, splitLines_nil⟩
  | cons c xs ih =>
    by_cases hc : c = '\n'
    · subst hc
      exact ⟨_, _, splitLines_lineFeed xs⟩
    · obtain ⟨line, lines, h⟩ := ih
      exact ⟨_, _, splitLines_cons hc h⟩

/-- The lines of a text are what its line feeds part. -/
theorem splitLines_eq_splitOn (xs : List Char) : splitLines xs = xs.splitOn '\n' := by
  induction xs with
  | nil => rw [splitLines_nil, List.splitOn_nil]
  | cons c xs ih =>
    rw [List.splitOn_cons_eq_if_modifyHead, ← ih]
    by_cases hc : c = '\n'
    · subst hc
      rw [splitLines_lineFeed, if_pos (beq_self_eq_true _)]
    · obtain ⟨line, lines, h⟩ := exists_splitLines xs
      rw [splitLines_cons hc h, if_neg (by simpa using hc), h, List.modifyHead_cons]

/-- A line feed parts the lines in front of it from those behind it. -/
theorem splitLines_append_lineFeed (xs ys : List Char) :
    splitLines (xs ++ '\n' :: ys) = splitLines xs ++ splitLines ys := by
  simp only [splitLines_eq_splitOn]
  exact List.splitOn_append_cons_self xs ys

/-- A text without line feeds is one line. -/
theorem splitLines_eq_singleton (h : ∀ c ∈ xs, c ≠ '\n') : splitLines xs = [xs] := by
  rw [splitLines_eq_splitOn]
  exact List.splitOn_eq_singleton fun hmem => h _ hmem rfl

/-- There is a line for every line feed, and one more. -/
theorem length_splitLines (xs : List Char) : (splitLines xs).length = xs.count '\n' + 1 := by
  induction xs with
  | nil => rfl
  | cons c xs ih =>
    by_cases hc : c = '\n'
    · subst hc
      rw [splitLines_lineFeed, List.length_cons, ih, List.count_cons_self]
    · obtain ⟨line, lines, h⟩ := exists_splitLines xs
      rw [splitLines_cons hc h, List.count_cons_of_ne hc, ← ih, h, List.length_cons,
        List.length_cons]

/-- No line has a line feed in it. -/
theorem ne_lineFeed_of_mem_splitLines (h : line ∈ splitLines xs) : ∀ c ∈ line, c ≠ '\n' := by
  induction xs generalizing line with
  | nil =>
    rw [splitLines_nil, List.mem_singleton] at h
    simp [h]
  | cons c xs ih =>
    by_cases hc : c = '\n'
    · subst hc
      rw [splitLines_lineFeed, List.mem_cons] at h
      rcases h with rfl | h
      · simp
      · exact ih h
    · obtain ⟨first, lines, hlines⟩ := exists_splitLines xs
      rw [hlines] at ih
      rw [splitLines_cons hc hlines, List.mem_cons] at h
      rcases h with rfl | h
      · exact List.forall_mem_cons.mpr ⟨hc, ih List.mem_cons_self⟩
      · exact ih (List.mem_cons_of_mem _ h)

/-- What is in a line is in the text. -/
theorem mem_of_mem_splitLines (h : line ∈ splitLines xs) (hc : c ∈ line) : c ∈ xs := by
  induction xs generalizing line with
  | nil =>
    rw [splitLines_nil, List.mem_singleton] at h
    rwa [h] at hc
  | cons d xs ih =>
    by_cases hd : d = '\n'
    · subst hd
      rw [splitLines_lineFeed, List.mem_cons] at h
      rcases h with rfl | h
      · cases hc
      · exact List.mem_cons_of_mem _ (ih h hc)
    · obtain ⟨first, lines, hlines⟩ := exists_splitLines xs
      rw [hlines] at ih
      rw [splitLines_cons hd hlines, List.mem_cons] at h
      rcases h with rfl | h
      · rcases List.mem_cons.mp hc with rfl | hc
        · exact List.mem_cons_self
        · exact List.mem_cons_of_mem _ (ih List.mem_cons_self hc)
      · exact List.mem_cons_of_mem _ (ih (List.mem_cons_of_mem _ h) hc)

/-- The first line ends in front of the first line feed. -/
theorem splitLines_getElem?_zero (hxs : ∀ c ∈ xs, c ≠ '\n') (hys : ∀ c ∈ ys.head?, c = '\n') :
    (splitLines (xs ++ ys))[0]? = some xs := by
  cases ys with
  | nil =>
    rw [List.append_nil, splitLines_eq_singleton hxs]
    rfl
  | cons c ys =>
    obtain rfl : c = '\n' := hys c rfl
    rw [splitLines_append_lineFeed, splitLines_eq_singleton hxs]
    rfl

/-- `IsLine source number front content back`: the line with this number of the source is `content`,
with `front` in front of it and `back` behind it. -/
structure IsLine (source : List Char) (number : Nat) (front content back : List Char) : Prop where
  source_eq : source = front ++ (content ++ back)
  /-- There is nothing in front of the line, or a line feed. -/
  starts : ∀ c ∈ front.getLast?, c = '\n'
  /-- There is nothing behind the line, or a line feed. -/
  ends : ∀ c ∈ back.head?, c = '\n'
  number_pos : 1 ≤ number
  getElem? : (splitLines source)[number - 1]? = some content

/-- A text is parted where its last line starts. -/
theorem exists_lineStart (xs : List Char) :
    ∃ front head, xs = front ++ head ∧ lineStart xs = front.length ∧
      (∀ c ∈ front.getLast?, c = '\n') ∧ ∀ c ∈ head, c ≠ '\n' := by
  induction xs using List.reverseRecOn with
  | nil => exact ⟨[], [], rfl, rfl, by simp, by simp⟩
  | append_singleton xs c ih =>
    obtain ⟨front, head, rfl, hstart, hfront, hhead⟩ := ih
    by_cases hc : c = '\n'
    · subst hc
      refine ⟨front ++ head ++ ['\n'], [], (List.append_nil _).symm, ?_, by simp, by simp⟩
      rw [lineStart_append_lineFeed]
      simp [Nat.add_assoc]
    · refine ⟨front, head ++ [c], List.append_assoc .., ?_, hfront, ?_⟩
      · rw [lineStart_append hc, hstart]
      · simp only [List.mem_append, List.mem_singleton]
        rintro d (hd | rfl)
        · exact hhead d hd
        · exact hc

/-- Behind a line feed, or at the start of the text, a line starts that is the first of the text
from there on. -/
theorem splitLines_getElem?_count (hfront : ∀ c ∈ front.getLast?, c = '\n') (ys : List Char) :
    (splitLines (front ++ ys))[front.count '\n']? = (splitLines ys)[0]? := by
  rcases List.eq_nil_or_concat' front with rfl | ⟨before, c, rfl⟩
  · rfl
  · obtain rfl : c = '\n' := hfront c (by simp)
    rw [List.append_assoc, List.singleton_append, splitLines_append_lineFeed,
      List.getElem?_append_right (by rw [length_splitLines]; simp), length_splitLines]
    simp

/-- An offset in a source is on a line of it: on the one whose number counts the line feeds in
front, and as far from the start of that line as the line's start is in front of it. -/
theorem exists_isLine {source : List Char} {offset : Nat} (h : offset ≤ source.length) :
    ∃ front content back,
      IsLine source (1 + (source.take offset).count '\n') front content back ∧
        lineStart (source.take offset) = front.length ∧ front.length ≤ offset ∧
        offset ≤ front.length + content.length := by
  obtain ⟨front, head, hsplit, hstart, hfront, hhead⟩ := exists_lineStart (source.take offset)
  let tail := (source.drop offset).takeWhile (· != '\n')
  let back := (source.drop offset).dropWhile (· != '\n')
  have hcontent : ∀ c ∈ head ++ tail, c ≠ '\n' := by
    intro c hc
    rcases List.mem_append.mp hc with hc | hc
    · exact hhead c hc
    · simpa using List.mem_takeWhile_imp hc
  have hback : ∀ c ∈ back.head?, c = '\n' := by
    intro c hc
    have hstop := List.head?_dropWhile_not (· != '\n') (source.drop offset)
    rw [show (source.drop offset).dropWhile (· != '\n') = back from rfl, hc] at hstop
    simpa using hstop
  have hsource : source = front ++ (head ++ tail ++ back) := by
    rw [List.append_assoc, List.takeWhile_append_dropWhile, ← List.append_assoc, ← hsplit,
      List.take_append_drop]
  have hlength : offset = front.length + head.length := by
    rw [← List.length_append, ← hsplit, List.length_take, Nat.min_eq_left h]
  have hcount : (source.take offset).count '\n' = front.count '\n' := by
    rw [hsplit, List.count_append, List.count_eq_zero.mpr fun hmem => hhead _ hmem rfl,
      Nat.add_zero]
  refine ⟨front, head ++ tail, back, ⟨hsource, hfront, hback, by omega, ?_⟩, hstart, by omega, ?_⟩
  · rw [hcount, Nat.add_sub_cancel_left, hsource, splitLines_getElem?_count hfront,
      splitLines_getElem?_zero hcontent hback]
  · rw [List.length_append]
    omega

/-! ### Trailing carriage returns -/

/-- A line goes on behind what an excerpt shows of it with carriage returns only. -/
theorem exists_trimReturns (line : List Char) :
    ∃ returns, line = trimReturns line ++ returns ∧ ∀ c ∈ returns, c = '\r' :=
  ⟨line.rtakeWhile (· == '\r'), List.rdropWhile_append_rtakeWhile.symm,
    fun _ hc => by simpa using List.mem_rtakeWhile_imp hc⟩

/-- One more character in front is shown, unless nothing but carriage returns follows. -/
theorem trimReturns_cons (c : Char) (line : List Char) :
    trimReturns (c :: line) =
      if (trimReturns line).isEmpty then trimReturns [c] else c :: trimReturns line := by
  simp only [trimReturns, List.reverse_cons, List.dropWhile_append, List.isEmpty_reverse]
  split
  · rfl
  · rw [List.reverse_append]
    rfl

/-! ### Rows -/

section

variable {lines : List String} {line n width : Nat} {column : Int}

/-- What stands in front of a source line in its row: its number, and a bar. -/
def margin (width number : Nat) : List Char :=
  (" " ++ alignedNumber width number ++ " | ").toList

/-- The offending line comes behind the locator, and behind the line before, if there is one. -/
def rowIndex (line : Nat) : Nat :=
  if 1 < line then 2 else 1

/-- The number column has room for the number of the line. -/
theorem length_toString_le_gutterWidth (h : line ≤ lines.length) :
    (toString line).length ≤ gutterWidth lines line :=
  Text.length_toString_le (by omega)

/-- There are as many blanks as asked for. -/
theorem length_spaces (n : Nat) : (spaces n).length = n := by
  rw [spaces, String.length_ofList, List.length_replicate]

/-- Blanks are nothing but blanks. -/
theorem eq_of_mem_spaces {c : Char} (h : c ∈ (spaces n).toList) : c = ' ' := by
  rw [spaces, String.toList_ofList] at h
  exact List.eq_of_mem_replicate h

/-- The margin of a row is the gutter with its blanks and its bar. -/
theorem length_margin (h : (toString n).length ≤ width) : (margin width n).length = width + 4 := by
  have hspace : (" " : String).length = 1 := rfl
  have hbar : (" | " : String).length = 3 := rfl
  simp only [margin, alignedNumber, String.toList_append, List.length_append, String.length_toList,
    length_spaces, hspace, hbar]
  omega

/-- A row with a number is its margin and its line. -/
theorem toList_numberedRow (width : Nat) (lines : List String) (number : Nat) :
    (numberedRow width lines number).toList =
      margin width number ++ (lines.getD (number - 1) "").toList := by
  rw [numberedRow, String.toList_append, margin]

/-- The row of the line and the row of the caret. -/
theorem getElem?_rows (lines : List String) (line : Nat) (column : Int) :
    (rows lines line column false)[rowIndex line]? =
        some (numberedRow (gutterWidth lines line) lines line) ∧
      (rows lines line column false)[rowIndex line + 1]? =
        some (" " ++ spaces (gutterWidth lines line) ++ " | " ++ spaces (column - 1).toNat ++
          "^") := by
  unfold rows rowIndex
  by_cases hline : 1 < line <;> simp [hline, Ink.paint]

/-- A row of spaces and a bar has its caret at its end, and no other one. -/
theorem getElem?_caret_iff (width n i : Nat) :
    (" " ++ spaces width ++ " | " ++ spaces n ++ "^").toList[i]? = some '^' ↔
      i = width + 4 + n := by
  let front := (" " ++ spaces width ++ " | " ++ spaces n).toList
  have hfront : '^' ∉ front := by simp [front, spaces]
  have hlength : front.length = width + 4 + n := by
    simp [front, spaces, Nat.add_comm, Nat.add_left_comm]
  rw [String.toList_append, ← hlength]
  rcases Nat.lt_trichotomy i front.length with hi | rfl | hi
  · rw [List.getElem?_append_left hi]
    exact ⟨fun h => absurd (List.mem_of_getElem? h) hfront, fun h => absurd h (Nat.ne_of_lt hi)⟩
  · simp [front]
  · rw [List.getElem?_eq_none]
    · exact ⟨nofun, fun h => absurd h (Nat.ne_of_gt hi)⟩
    · rw [List.length_append]
      exact hi

/-- A source has as many lines as its text. -/
theorem length_sourceLines (source : String) :
    (sourceLines source).length = (splitLines source.toList).length :=
  List.length_map _

/-- What an excerpt shows of a line with a number is the line without its carriage returns. -/
theorem toList_getD_sourceLines (source : String) (i : Nat) :
    ((sourceLines source).getD i "").toList =
      trimReturns ((splitLines source.toList).getD i []) := by
  rw [sourceLines, List.getD_eq_getElem?_getD, List.getElem?_map, List.getD_eq_getElem?_getD]
  cases (splitLines source.toList)[i]? with
  | none => rfl
  | some content => exact String.toList_ofList

end

/-! ### What is in no row -/

/-- The characters of an excerpt besides its numbers and its source lines. -/
def rowMarks : List Char :=
  [' ', '|', '-', '>', 'l', 'i', 'n', 'e', ':', '^']

section

variable {source row : String} {line : Nat} {column : Int} (hmarks : c ∉ rowMarks)
  (hdigit : c.isDigit = false) (hlines : ∀ content ∈ splitLines source.toList, c ∉ content)
include hmarks

/-- A character that is no mark of rows is in no text that is made of such marks. -/
theorem notMem_of_forall_mem_rowMarks {s : String} (hs : ∀ d ∈ s.toList, d ∈ rowMarks) :
    c ∉ s.toList :=
  fun h => hmarks (hs c h)

/-- A character that is no mark of rows is not among blanks. -/
theorem notMem_spaces (n : Nat) : c ∉ (spaces n).toList :=
  fun h => hmarks (eq_of_mem_spaces h ▸ List.mem_cons_self)

include hdigit

/-- A character that is neither a mark of rows nor a digit is not in a number. -/
theorem notMem_number (n : Int) : c ∉ (toString n).toList :=
  Text.notMem_toString n hdigit fun h => hmarks (h ▸ by decide)

include hlines

/-- Such a character is in no row with a number if it is in no line of the source. -/
theorem notMem_numberedRow (width number : Nat) :
    c ∉ (numberedRow width (sourceLines source) number).toList := by
  have hspace : c ∉ (" " : String).toList := notMem_of_forall_mem_rowMarks hmarks (by decide)
  have hbar : c ∉ (" | " : String).toList := notMem_of_forall_mem_rowMarks hmarks (by decide)
  have hblanks := notMem_spaces hmarks (width - (toString number).length)
  have hnumber : c ∉ (toString number).toList := notMem_number hmarks hdigit number
  have hline : c ∉ trimReturns ((splitLines source.toList).getD (number - 1) []) := by
    intro h
    rw [List.getD_eq_getElem?_getD] at h
    cases hline : (splitLines source.toList)[number - 1]? with
    | none =>
      rw [hline] at h
      cases h
    | some content =>
      rw [hline] at h
      obtain ⟨returns, hcontent, _⟩ := exists_trimReturns content
      refine hlines content (List.mem_of_getElem? hline) ?_
      rw [hcontent]
      exact List.mem_append_left _ h
  rw [toList_numberedRow, toList_getD_sourceLines, margin, alignedNumber]
  simp only [String.toList_append, List.mem_append, not_or]
  exact ⟨⟨⟨hspace, hblanks, hnumber⟩, hbar⟩, hline⟩

/-- In the rows of a plain excerpt there are only marks, digits and what is in the source lines. -/
theorem notMem_rows (h : row ∈ rows (sourceLines source) line column false) : c ∉ row.toList := by
  have hnumbered := notMem_numberedRow hmarks hdigit hlines (gutterWidth (sourceLines source) line)
  have hblanks := notMem_spaces hmarks
  have hline : c ∉ (toString line).toList := notMem_number hmarks hdigit line
  have hcolumn := notMem_number hmarks hdigit column
  have hmark {s : String} (hs : ∀ d ∈ s.toList, d ∈ rowMarks) : c ∉ s.toList :=
    notMem_of_forall_mem_rowMarks hmarks hs
  simp only [rows, Ink.paint, Bool.false_eq_true, if_false, List.mem_append, List.mem_cons,
    List.not_mem_nil, or_false] at h
  rcases h with (h | rfl | rfl | rfl) | h
  · split at h
    · rw [List.mem_singleton.mp h]
      exact hnumbered _
    · cases h
  · simp only [String.toList_append, List.mem_append, not_or]
    exact ⟨⟨⟨⟨hblanks _, hmark (by decide)⟩, hline⟩, hmark (by decide)⟩, hcolumn⟩
  · exact hnumbered _
  · simp only [String.toList_append, List.mem_append, not_or]
    exact ⟨⟨⟨⟨hmark (by decide), hblanks _⟩, hmark (by decide)⟩, hblanks _⟩, hmark (by decide)⟩
  · split at h
    · rw [List.mem_singleton.mp h]
      exact hnumbered _
    · cases h

end

/-- No row of a plain excerpt has a line feed in it. -/
theorem lineFeed_notMem_rows {source row : String} {line : Nat} {column : Int}
    (h : row ∈ rows (sourceLines source) line column false) : '\n' ∉ row.toList :=
  notMem_rows (by decide) (by decide)
    (fun _ hcontent hmem => ne_lineFeed_of_mem_splitLines hcontent _ hmem rfl) h

/-! ### What is made

An excerpt is its page, or it is broken off.
-/

section

variable {i : Interpreter} {source path message : String} {line column : Int}

/-- What is made of an excerpt is its text, unless there is a fault. -/
theorem render_eq_elim (color : Bool) :
    render i source path line column message color =
      (fault? i source line column).elim (.ok (page source path line column message color))
        .error := by
  rw [render]
  cases fault? i source line column <;> rfl

/-- Whether an excerpt is broken off depends on the lines of its source only. -/
theorem fault?_congr {source' : String} (h : sourceLines source = sourceLines source') :
    fault? i source line column = fault? i source' line column := by
  rw [fault?, fault?, h]

/-- No place in a source breaks an excerpt off, if the interpreter has room for a number and for a
run of spaces as long as the source. -/
theorem fault?_eq_none {line column : Nat} (hwrites : i.writes ↑(source.length + 1))
    (hcount : source.length ≤ Interpreter.maxCount) (hmemory : source.length ≤ i.memory)
    (hline : line ≤ (splitLines source.toList).length) (hcolumn : column ≤ source.length + 1) :
    fault? i source line column = none := by
  have hlines : (splitLines source.toList).length ≤ source.length + 1 := by
    rw [length_splitLines, ← String.length_toList]
    exact Nat.succ_le_succ List.count_le_length
  have hrun : i.runFault? ((column : Int) - 1) = none :=
    Interpreter.runFault?_eq_none_iff.mpr ⟨by omega, by omega⟩
  have hwidth : i.writes (min ((line : Int) + 1) (sourceLines source).length) := by
    have hcast : min ((line : Int) + 1) (sourceLines source).length =
        ↑(min (line + 1) (sourceLines source).length) := by omega
    rw [hcast, length_sourceLines]
    exact Interpreter.writes_of_le (by omega) hwrites
  have hlocator : i.writes (column : Int) := Interpreter.writes_of_le hcolumn hwrites
  have hnumber : i.writes (line : Int) := Interpreter.writes_of_le (by omega) hwrites
  simp only [fault?, hwidth, hlocator, hnumber, hrun, Bool.and_self, if_true, ite_self]

end

/-! ### Joined rows -/

/-- Rows in front of the last one are rows of the joined text. -/
theorem splitLines_intercalate {rows : List String}
    (hrows : ∀ row ∈ rows, ∀ c ∈ row.toList, c ≠ '\n') (last : String) (ys : List Char) :
    splitLines (("\n".intercalate (rows ++ [last])).toList ++ ys) =
      rows.map String.toList ++ splitLines (last.toList ++ ys) := by
  induction rows with
  | nil => rw [List.nil_append, String.intercalate_singleton, List.map_nil, List.nil_append]
  | cons row rows ih =>
    rw [List.forall_mem_cons] at hrows
    rw [List.cons_append, String.intercalate_cons_of_ne_nil (by simp), String.toList_append,
      String.toList_append, List.append_assoc, List.append_assoc,
      show "\n".toList = ['\n'] from rfl, List.singleton_append, splitLines_append_lineFeed,
      splitLines_eq_singleton hrows.1, ih hrows.2]
    rfl

end Excerpt

/-- A report is its page, or its excerpt is broken off. -/
theorem Diagnostic.render_eq_elim {i : Interpreter} {d : Diagnostic} {source : String}
    (color : Bool) :
    d.render i source color =
      (Excerpt.fault? i source d.location.line d.location.column).elim
        (.ok (d.page source color)) .error := by
  rw [render, Excerpt.render_eq_elim]
  cases Excerpt.fault? i source d.location.line d.location.column <;> rfl

end RegisterLang
