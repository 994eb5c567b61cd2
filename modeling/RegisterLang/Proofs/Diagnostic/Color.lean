import RegisterLang.Proofs.Diagnostic.Excerpt
import RegisterLang.Text.ControlSequence

/-!
# Colours of reports

A report in colours is the plain report with terminal sequences in it. `signals` reads a text as a
terminal does: as characters, and as the sequences that switch a style on or all styles off. A
report is made of pieces, each of them in the colour of its role or in none, and a terminal shows
every piece in its colour and nothing else.
-/

namespace RegisterLang

open Text (escapeMark)

/-! ### What a terminal shows -/

/-- What a terminal reads of a report: a character, or a sequence. -/
inductive Signal where
  /-- The style with this number is switched on. -/
  | style (number : Nat)
  /-- All styles are switched off. -/
  | reset
  | char (c : Char)
  deriving DecidableEq

/-- Reads a text from left to right. Escape characters that start none of the sequences are
characters like any other. -/
def signals : List Char → List Signal
  | '\x1b' :: '[' :: '1' :: 'm' :: cs => .style 1 :: signals cs
  | '\x1b' :: '[' :: '3' :: '1' :: 'm' :: cs => .style 31 :: signals cs
  | '\x1b' :: '[' :: '3' :: '6' :: 'm' :: cs => .style 36 :: signals cs
  | '\x1b' :: '[' :: '9' :: '0' :: 'm' :: cs => .style 90 :: signals cs
  | '\x1b' :: '[' :: '0' :: 'm' :: cs => .reset :: signals cs
  | c :: cs => .char c :: signals cs
  | [] => []

namespace Signal

/-- The character of a signal, if it is one. -/
def char? : Signal → Option Char
  | char c => some c
  | _ => none

/-- The styles that are on behind a signal. -/
def switch (on : List Nat) : Signal → List Nat
  | style number => on ++ [number]
  | reset => []
  | char _ => on

end Signal

/-- A text without the sequences of colours. -/
def withoutStyles (text : String) : String :=
  String.ofList ((signals text.toList).filterMap Signal.char?)

/-- The characters that are shown, each with the styles that are on. -/
def shown (on : List Nat) : List Signal → List (Char × List Nat)
  | [] => []
  | .char c :: rest => (c, on) :: shown on rest
  | signal :: rest => shown (signal.switch on) rest

/-- The styles that are left on. -/
def leftOn (on : List Nat) (read : List Signal) : List Nat :=
  read.foldl Signal.switch on

variable {xs ys : List Char} {c : Char}

/-- A character that starts no sequence is read as itself. -/
theorem signals_cons (hc : c ≠ escapeMark) (xs : List Char) :
    signals (c :: xs) = .char c :: signals xs := by
  rw [signals.eq_def]
  split <;> simp_all [escapeMark]

/-- A text without the escape character is read as its characters. -/
theorem signals_append (h : escapeMark ∉ xs) (ys : List Char) :
    signals (xs ++ ys) = xs.map .char ++ signals ys := by
  induction xs with
  | nil => rfl
  | cons x xs ih =>
    rw [List.mem_cons, not_or] at h
    rw [List.cons_append, signals_cons (Ne.symm h.1), ih h.2]
    rfl

/-- What is shown of signals in a row: those behind are shown in the styles that are left on. -/
theorem shown_append (on : List Nat) (read read' : List Signal) :
    shown on (read ++ read') = shown on read ++ shown (leftOn on read) read' := by
  induction read generalizing on with
  | nil => rfl
  | cons signal read ih =>
    cases signal with
    | char c =>
      rw [List.cons_append, shown, shown, ih]
      rfl
    | style | reset => exact ih _

/-- The styles that are left on are switched by signals one after the other. -/
theorem leftOn_append (on : List Nat) (read read' : List Signal) :
    leftOn on (read ++ read') = leftOn (leftOn on read) read' :=
  List.foldl_append

/-- Characters are shown in the styles that are on. -/
theorem shown_chars (on : List Nat) (xs : List Char) :
    shown on (xs.map .char) = xs.map (·, on) := by
  induction xs with
  | nil => rfl
  | cons x xs ih => rw [List.map_cons, shown, ih, List.map_cons]

/-- Characters switch no style. -/
theorem leftOn_chars (on : List Nat) (xs : List Char) : leftOn on (xs.map .char) = on := by
  induction xs with
  | nil => rfl
  | cons x xs ih => exact ih

/-- The characters among the signals of characters are all of them. -/
theorem filterMap_chars (xs : List Char) : (xs.map Signal.char).filterMap Signal.char? = xs := by
  rw [List.filterMap_map]
  exact List.filterMap_some

/-! ### Inks -/

namespace Ink

/-- The numbers of the styles of a role: bold and red for the header, grey for the lines around,
cyan for locator and help, and red for the caret. -/
def numbers : Ink → List Nat
  | header => [1, 31]
  | neighbour => [90]
  | guide => [36]
  | caret => [31]

/-- The sequence of a role is read as its styles being switched on. -/
theorem signals_style_append (ink : Ink) (ys : List Char) :
    signals (ink.style.toList ++ ys) = ink.numbers.map .style ++ signals ys := by
  cases ink <;> rfl

/-- The sequence behind a piece is read as all styles being switched off. -/
theorem signals_reset_append (ys : List Char) :
    signals (Ink.reset.toList ++ ys) = .reset :: signals ys := rfl

end Ink

/-! ### Pieces -/

/-- A piece of a report: a text in the colour of a role, or in none. -/
structure Piece where
  ink : Option Ink
  text : String

namespace Piece

/-- A piece as it is written. -/
def written (color : Bool) (piece : Piece) : String :=
  match piece.ink with
  | some ink => ink.paint color piece.text
  | none => piece.text

/-- The characters of a piece, each with the styles that it should be shown in. -/
def cells (piece : Piece) : List (Char × List Nat) :=
  piece.text.toList.map (·, (piece.ink.map Ink.numbers).getD [])

/-- What a terminal reads of a piece in colours. -/
def read (piece : Piece) : List Signal :=
  match piece.ink with
  | some ink => ink.numbers.map .style ++ (piece.text.toList.map .char ++ [.reset])
  | none => piece.text.toList.map .char

/-- The characters that are read of a piece are those of its text. -/
theorem filterMap_read (piece : Piece) :
    piece.read.filterMap Signal.char? = piece.text.toList := by
  have hstyles (numbers : List Nat) :
      (numbers.map Signal.style).filterMap Signal.char? = [] := by
    simp [Signal.char?]
  unfold read
  split
  · rw [List.filterMap_append, List.filterMap_append, hstyles, filterMap_chars]
    simp [Signal.char?]
  · exact filterMap_chars _

/-- A terminal shows a piece in its colour, and then it has no style on. -/
theorem shown_read (piece : Piece) :
    shown [] piece.read = piece.cells ∧ leftOn [] piece.read = [] := by
  have hstyles (on numbers : List Nat) :
      shown on (numbers.map .style) = [] ∧ leftOn on (numbers.map .style) = on ++ numbers := by
    induction numbers generalizing on with
    | nil => exact ⟨rfl, (List.append_nil on).symm⟩
    | cons number numbers ih =>
      rw [← List.singleton_append, ← List.append_assoc]
      exact ih (on ++ [number])
  obtain ⟨ink, text⟩ := piece
  cases ink with
  | none => exact ⟨shown_chars [] _, leftOn_chars [] _⟩
  | some ink =>
    obtain ⟨hshown, hleft⟩ := hstyles [] ink.numbers
    rw [read, shown_append, leftOn_append, hshown, hleft, shown_append, leftOn_append, shown_chars,
      leftOn_chars]
    exact ⟨List.append_nil _, rfl⟩

/-- Pieces in a row, as they are written. -/
def writtenAll (color : Bool) (pieces : List Piece) : String :=
  String.join (pieces.map (written color))

/-- Pieces in a row are written one after the other. -/
theorem writtenAll_append (color : Bool) (pieces pieces' : List Piece) :
    writtenAll color (pieces ++ pieces') = writtenAll color pieces ++ writtenAll color pieces' := by
  rw [writtenAll, List.map_append, String.join_append]
  rfl

/-- A single piece in a row is written as itself. -/
theorem writtenAll_singleton (color : Bool) (piece : Piece) :
    writtenAll color [piece] = piece.written color := by
  simp [writtenAll]

/-- Rows in pieces, with line feeds between them. -/
theorem writtenAll_intercalate (color : Bool) (rows : List (List Piece)) :
    writtenAll color ([⟨none, "\n"⟩].intercalate rows) =
      "\n".intercalate (rows.map (writtenAll color)) := by
  induction rows with
  | nil => rfl
  | cons row rows ih =>
    cases rows with
    | nil => rw [List.intercalate_singleton, List.map_singleton, String.intercalate_singleton]
    | cons next rows =>
      rw [List.intercalate_cons_of_ne_nil (by simp), List.map_cons,
        String.intercalate_cons_of_ne_nil (by simp), ← ih, writtenAll_append, writtenAll_append]
      rfl

end Piece

open Piece

/-- A coloured text and a plain one differ by colours only. Without its sequences the coloured text
is the plain one, which the pieces make up; a terminal shows each piece in its colour, or in no
style at all if it has none; and no style is left on at the end. -/
structure ColorsOnly (colored plain : String) (pieces : List Piece) : Prop where
  erased : withoutStyles colored = plain
  made : plain = String.join (pieces.map Piece.text)
  shown : RegisterLang.shown [] (signals colored.toList) = pieces.flatMap Piece.cells
  closed : leftOn [] (signals colored.toList) = []

/-- None of the pieces has an escape character in it. -/
def EscapeFree (pieces : List Piece) : Prop :=
  ∀ piece ∈ pieces, escapeMark ∉ piece.text.toList

section

variable {pieces : List Piece}

/-- What a terminal reads of pieces in a row is what it reads of each of them, if no escape
character is in their texts. -/
theorem signals_writtenAll (h : EscapeFree pieces) :
    signals (writtenAll true pieces).toList = pieces.flatMap Piece.read := by
  induction pieces with
  | nil => rfl
  | cons piece pieces ih =>
    rw [EscapeFree, List.forall_mem_cons] at h
    have hwritten : (writtenAll true (piece :: pieces)).toList =
        (piece.written true).toList ++ (writtenAll true pieces).toList := by
      rw [writtenAll, List.map_cons, String.join_cons, String.toList_append]
      rfl
    rw [hwritten, List.flatMap_cons, ← ih h.2, Piece.written, Piece.read]
    cases piece.ink with
    | none => exact signals_append h.1 _
    | some ink =>
      simp only [Ink.paint, if_true, String.toList_append, List.append_assoc]
      rw [ink.signals_style_append, signals_append h.1, Ink.signals_reset_append]
      rfl

/-- Without colours, pieces are written as their texts. -/
theorem writtenAll_false (pieces : List Piece) :
    writtenAll false pieces = String.join (pieces.map Piece.text) := by
  have hplain : ∀ piece : Piece, piece.written false = piece.text := by
    rintro ⟨_ | _, _⟩ <;> rfl
  rw [writtenAll, List.map_congr_left fun piece _ => hplain piece]

/-- Pieces without the escape character differ by their colours only. -/
theorem colorsOnly_writtenAll (h : EscapeFree pieces) :
    ColorsOnly (writtenAll true pieces) (writtenAll false pieces) pieces := by
  have hsignals := signals_writtenAll h
  have hshown : shown [] (pieces.flatMap Piece.read) = pieces.flatMap Piece.cells ∧
      leftOn [] (pieces.flatMap Piece.read) = [] := by
    clear h hsignals
    induction pieces with
    | nil => exact ⟨rfl, rfl⟩
    | cons piece pieces ih =>
      obtain ⟨hpiece, hleft⟩ := piece.shown_read
      rw [List.flatMap_cons, List.flatMap_cons, shown_append, leftOn_append, hpiece, hleft, ih.1]
      exact ⟨rfl, ih.2⟩
  refine ⟨?_, writtenAll_false pieces, by rw [hsignals, hshown.1], by rw [hsignals, hshown.2]⟩
  rw [withoutStyles, hsignals, List.filterMap_flatMap, writtenAll_false]
  simp only [filterMap_read]
  rw [← String.toList_inj, String.toList_ofList, String.toList_join, List.flatMap_map]

end

/-! ### Reports in pieces -/

namespace Excerpt

/-- The rows of an excerpt above its header, in pieces. Only the lines around the offending one, the
locator and the caret have a colour. -/
def rowPieces (lines : List String) (line : Nat) (column : Int) : List (List Piece) :=
  let width := gutterWidth lines line
  let before :=
    if 1 < line then [[⟨some .neighbour, numberedRow width lines (line - 1)⟩]] else []
  let locator := spaces width ++ "--> line " ++ toString line ++ ":" ++ toString column
  let caretMargin := " " ++ spaces width ++ " | " ++ spaces (column - 1).toNat
  let behind :=
    if line < lines.length then [[⟨some .neighbour, numberedRow width lines (line + 1)⟩]] else []
  before ++
    [[⟨some .guide, locator⟩], [⟨none, numberedRow width lines line⟩],
      [⟨none, caretMargin⟩, ⟨some .caret, "^"⟩]] ++
    behind

/-- An excerpt in pieces. The header has a colour, and the line's number behind it has none. -/
def pieces (source path : String) (line column : Int) (message : String) : List Piece :=
  let lines := sourceLines source
  let header : Piece := ⟨some .header, path ++ ": Error: " ++ message⟩
  if hasLine lines line then
    [⟨none, "\n"⟩].intercalate (rowPieces lines line.toNat column ++ [[header]])
  else [header, ⟨none, " (at line " ++ toString line ++ ")"⟩]

/-- The rows of an excerpt are its pieces as they are written. -/
theorem rows_eq (lines : List String) (line : Nat) (column : Int) (color : Bool) :
    rows lines line column color = (rowPieces lines line column).map (writtenAll color) := by
  have hcaret (front : String) :
      writtenAll color [⟨none, front⟩, ⟨some .caret, "^"⟩] =
        front ++ Ink.caret.paint color "^" := by
    simp [writtenAll, Piece.written]
  have hneighbour (condition : Prop) [Decidable condition] (piece : Piece) :
      (if condition then [[piece]] else []).map (writtenAll color) =
        if condition then [piece.written color] else [] := by
    split
    · rw [List.map_singleton, writtenAll_singleton]
    · rfl
  simp only [rows, rowPieces, List.map_append, List.map_cons, List.map_nil, hneighbour,
    writtenAll_singleton, hcaret]
  rfl

/-- The text of an excerpt is its pieces as they are written. -/
theorem page_eq (source path : String) (line column : Int) (message : String) (color : Bool) :
    page source path line column message color =
      writtenAll color (pieces source path line column message) := by
  unfold page pieces
  simp only
  split
  · rw [writtenAll_intercalate, List.map_append, List.map_singleton, writtenAll_singleton,
      rows_eq]
    rfl
  · rw [← List.singleton_append, writtenAll_append, writtenAll_singleton, writtenAll_singleton]
    simp [header, Piece.written, String.append_assoc]

end Excerpt

/-- A report in pieces. The help has the colour of the locator, and suggestions have none. -/
def Diagnostic.pieces (d : Diagnostic) (source : String) : List Piece :=
  let excerpt :=
    Excerpt.pieces source d.location.file d.location.line d.location.column d.headline
  let help := match Diagnostic.given? d.help with
    | some help => [⟨none, "\n"⟩, ⟨some .guide, "  help: " ++ help⟩]
    | none => []
  let suggestions := (d.suggestions.getD []).map fun s => ⟨none, "\n  suggestion: " ++ s⟩
  excerpt ++ help ++ suggestions

/-- The text of a report is its pieces as they are written. -/
theorem Diagnostic.page_eq (d : Diagnostic) (source : String) (color : Bool) :
    d.page source color = writtenAll color (d.pieces source) := by
  have hsuggestions (listed : List String) :
      writtenAll color (listed.map fun s => ⟨none, "\n  suggestion: " ++ s⟩) =
        String.join (listed.map fun s => "\n  suggestion: " ++ s) := by
    rw [writtenAll, List.map_map]
    rfl
  rw [page, hints, pieces, List.append_assoc, writtenAll_append, writtenAll_append, hsuggestions,
    Excerpt.page_eq]
  congr 2
  cases Diagnostic.given? d.help with
  | none => rfl
  | some help => simp [writtenAll, Piece.written]

/-! ### Reports without escape characters -/

/-- What holds of a separator and of all rows holds of the rows with the separator between them. -/
theorem forall_mem_intercalate {α : Type} {p : α → Prop} {separator : List α} {rows : List (List α)}
    (hseparator : ∀ x ∈ separator, p x) (hrows : ∀ row ∈ rows, ∀ x ∈ row, p x) :
    ∀ x ∈ separator.intercalate rows, p x := by
  induction rows with
  | nil => exact nofun
  | cons row rows ih =>
    rw [List.forall_mem_cons] at hrows
    cases rows with
    | nil =>
      rw [List.intercalate_singleton]
      exact hrows.1
    | cons next rows =>
      rw [List.intercalate_cons_of_ne_nil (by simp), List.append_assoc]
      exact List.forall_mem_append.mpr
        ⟨hrows.1, List.forall_mem_append.mpr ⟨hseparator, ih hrows.2⟩⟩

namespace Excerpt

variable {source path message : String} {line column : Int}

/-- The pieces of a row have no escape character if the source has none: all else in a row is
numbers, blanks and marks. -/
theorem escapeFree_of_mem_rowPieces {n : Nat} {row : List Piece}
    (hsource : escapeMark ∉ source.toList) (h : row ∈ rowPieces (sourceLines source) n column) :
    EscapeFree row := by
  have hrow : writtenAll false row ∈ rows (sourceLines source) n column false := by
    rw [rows_eq]
    exact List.mem_map_of_mem h
  have hnot := notMem_rows (c := escapeMark) (by decide) (by decide)
    (fun content hcontent hmem => hsource (mem_of_mem_splitLines hcontent hmem)) hrow
  intro piece hpiece hmem
  refine hnot ?_
  rw [writtenAll_false, String.toList_join, List.mem_flatMap]
  exact ⟨piece.text, List.mem_map_of_mem hpiece, hmem⟩

/-- The pieces of an excerpt have no escape character if its source, its path and its message have
none. -/
theorem escapeFree_pieces (hsource : escapeMark ∉ source.toList) (hpath : escapeMark ∉ path.toList)
    (hmessage : escapeMark ∉ message.toList) :
    EscapeFree (pieces source path line column message) := by
  have hheader : escapeMark ∉ (path ++ ": Error: " ++ message).toList := by
    simp only [String.toList_append, List.mem_append, not_or]
    exact ⟨⟨hpath, by decide⟩, hmessage⟩
  unfold pieces
  simp only
  split
  · refine forall_mem_intercalate (List.forall_mem_singleton.mpr (by decide)) fun row hrow => ?_
    rcases List.mem_append.mp hrow with hrow | hrow
    · exact escapeFree_of_mem_rowPieces hsource hrow
    · rw [List.mem_singleton.mp hrow]
      exact List.forall_mem_singleton.mpr hheader
  · refine List.forall_mem_cons.mpr ⟨hheader, List.forall_mem_singleton.mpr ?_⟩
    have hline : escapeMark ∉ (toString line).toList :=
      Text.notMem_toString line (by decide) (by decide)
    simp only [String.toList_append, List.mem_append, not_or]
    exact ⟨⟨by decide, hline⟩, by decide⟩

end Excerpt

/-- No text of the diagnostic has an escape character in it. -/
structure Diagnostic.EscapeFree (d : Diagnostic) : Prop where
  message : escapeMark ∉ d.message.toList
  file : escapeMark ∉ d.location.file.toList
  code : ∀ code ∈ d.code, escapeMark ∉ code.toList
  help : ∀ help ∈ d.help, escapeMark ∉ help.toList
  suggestions : ∀ listed ∈ d.suggestions, ∀ s ∈ listed, escapeMark ∉ s.toList

/-- A text of a report that is given is the one that it was made with. -/
theorem Diagnostic.mem_of_given? {text : Option String} {s : String}
    (h : Diagnostic.given? text = some s) : s ∈ text :=
  (Option.filter_eq_some_iff.mp h).1

/-- The headline of a report has no escape character if its code and its message have none. -/
theorem Diagnostic.EscapeFree.headline {d : Diagnostic} (h : d.EscapeFree) :
    escapeMark ∉ d.headline.toList := by
  unfold Diagnostic.headline
  split
  · next code hcode =>
    have hfree := h.code code (Diagnostic.mem_of_given? hcode)
    simp only [String.toList_append, List.mem_append, not_or]
    exact ⟨⟨⟨h.message, by decide⟩, hfree⟩, by decide⟩
  · exact h.message

/-- The pieces of a report have no escape character if its texts and its source have none. -/
theorem Diagnostic.EscapeFree.pieces {d : Diagnostic} {source : String} (h : d.EscapeFree)
    (hsource : escapeMark ∉ source.toList) : RegisterLang.EscapeFree (d.pieces source) := by
  refine List.forall_mem_append.mpr ⟨List.forall_mem_append.mpr
    ⟨Excerpt.escapeFree_pieces hsource h.file h.headline, ?_⟩, ?_⟩
  · split
    · next help hhelp =>
      have hfree := h.help help (Diagnostic.mem_of_given? hhelp)
      refine List.forall_mem_cons.mpr ⟨by decide, List.forall_mem_singleton.mpr ?_⟩
      simp only [String.toList_append, List.mem_append, not_or]
      exact ⟨by decide, hfree⟩
    · exact nofun
  · refine List.forall_mem_map.mpr fun s hs => ?_
    have hfree : escapeMark ∉ s.toList := by
      cases hlisted : d.suggestions with
      | none =>
        rw [hlisted] at hs
        cases hs
      | some listed =>
        rw [hlisted] at hs
        exact h.suggestions listed hlisted s hs
    simp only [String.toList_append, List.mem_append, not_or]
    exact ⟨by decide, hfree⟩

/-- Two ways to make a text: both break off with the same fault, or two texts are made that differ
by colours only. -/
inductive MadeAlike (pieces : List Piece) : Except Fault String → Except Fault String → Prop where
  | brokenOff (fault : Fault) : MadeAlike pieces (.error fault) (.error fault)
  | made {colored plain : String} :
      ColorsOnly colored plain pieces → MadeAlike pieces (.ok colored) (.ok plain)

/-- Colours change nothing about whether a text is made. -/
theorem ColorsOnly.madeAlike {colored plain : String} {pieces : List Piece}
    (h : ColorsOnly colored plain pieces) (fault? : Option Fault) :
    MadeAlike pieces (fault?.elim (.ok colored) .error) (fault?.elim (.ok plain) .error) := by
  cases fault? with
  | none => exact .made h
  | some fault => exact .brokenOff fault

/-- Colour changes nothing but colour. The excerpt beside a source and the whole report of a
diagnostic differ from the plain ones by colours only, wherever they point, if no escape character
is in the source or in any other text of them; and an interpreter that breaks one of two off breaks
off the other one for the same reason. -/
theorem colorsOnly_render {source : String} (hsource : escapeMark ∉ source.toList) :
    (∀ path message : String, escapeMark ∉ path.toList → escapeMark ∉ message.toList →
      ∀ line column : Int,
        ColorsOnly (Excerpt.page source path line column message true)
          (Excerpt.page source path line column message false)
          (Excerpt.pieces source path line column message) ∧
        ∀ i : Interpreter, MadeAlike (Excerpt.pieces source path line column message)
          (Excerpt.render i source path line column message true)
          (Excerpt.render i source path line column message false)) ∧
    ∀ d : Diagnostic, d.EscapeFree →
      ColorsOnly (d.page source true) (d.page source false) (d.pieces source) ∧
        ∀ i : Interpreter,
          MadeAlike (d.pieces source) (d.render i source true) (d.render i source false) := by
  constructor
  · intro path message hpath hmessage line column
    have hpage : ColorsOnly (Excerpt.page source path line column message true)
        (Excerpt.page source path line column message false)
        (Excerpt.pieces source path line column message) := by
      rw [Excerpt.page_eq, Excerpt.page_eq]
      exact colorsOnly_writtenAll (Excerpt.escapeFree_pieces hsource hpath hmessage)
    refine ⟨hpage, fun i => ?_⟩
    rw [Excerpt.render_eq_elim, Excerpt.render_eq_elim]
    exact hpage.madeAlike _
  · intro d hd
    have hpage : ColorsOnly (d.page source true) (d.page source false) (d.pieces source) := by
      rw [Diagnostic.page_eq, Diagnostic.page_eq]
      exact colorsOnly_writtenAll (hd.pieces hsource)
    refine ⟨hpage, fun i => ?_⟩
    rw [Diagnostic.render_eq_elim, Diagnostic.render_eq_elim]
    exact hpage.madeAlike _

/-- A report with all of its parts, at a line between two others. -/
theorem colorsOnly_render_misspelled :
    let d : Diagnostic := ⟨"Unknown directive", ⟨"f", 2, 1, 8⟩, "error", some "L006",
      some "Did you mean @import?", some ["@import"]⟩
    let source := "$a = 1;\n@improt;\n"
    escapeMark ∉ source.toList ∧ d.EscapeFree ∧
      ColorsOnly (d.page source true) (d.page source false) (d.pieces source) ∧
      (∀ i : Interpreter,
        MadeAlike (d.pieces source) (d.render i source true) (d.render i source false)) ∧
      ColorsOnly (Excerpt.page source "f" 7 (-1) "m" true)
        (Excerpt.page source "f" 7 (-1) "m" false) (Excerpt.pieces source "f" 7 (-1) "m") ∧
      ∀ i : Interpreter, MadeAlike (Excerpt.pieces source "f" 7 (-1) "m")
        (Excerpt.render i source "f" 7 (-1) "m" true)
        (Excerpt.render i source "f" 7 (-1) "m" false) := by
  have hsource : escapeMark ∉ "$a = 1;\n@improt;\n".toList := by decide
  have hd : Diagnostic.EscapeFree ⟨"Unknown directive", ⟨"f", 2, 1, 8⟩, "error", some "L006",
      some "Did you mean @import?", some ["@import"]⟩ :=
    ⟨by decide, by decide, by rintro _ ⟨⟩; decide, by rintro _ ⟨⟩; decide, by rintro _ ⟨⟩; decide⟩
  obtain ⟨hexcerpt, hreport⟩ := colorsOnly_render hsource
  obtain ⟨hpage, hrender⟩ := hreport _ hd
  obtain ⟨hpage', hrender'⟩ := hexcerpt "f" "m" (by decide) (by decide) 7 (-1)
  exact ⟨hsource, hd, hpage, hrender, hpage', hrender'⟩

end RegisterLang
