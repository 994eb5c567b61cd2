import RegisterLang.Proofs.Token.Completeness
import RegisterLang.Proofs.Token.Place

/-!
# Carriage returns in front of line feeds

A text may end its lines with a line feed alone, or with a carriage return in front of it. Both ways
the same tokens are scanned, in the same lines and columns: a carriage return is a space between
tokens, a part of a comment, and a blank that ends a type, and no token goes on behind it.
-/

namespace RegisterLang

/-- A location without its offset: the file, the line and the column. -/
def Location.withoutOffset (place : Location) : Location :=
  { place with offset := 0 }

/-- A token without the offset of its location. -/
def Token.withoutOffset (t : Token) : Token :=
  { t with location := t.location.withoutOffset }

namespace Text

/-- A text with a carriage return in front of every line feed. -/
def withReturns (text : List Char) : List Char :=
  text.flatMap fun c => if c = '\n' then ['\r', '\n'] else [c]

/-- An empty text has no line ends to put returns at. -/
@[simp] theorem withReturns_nil : withReturns [] = [] := rfl

/-- At a line feed, a return is put in front of it. -/
theorem withReturns_lineFeed (xs : List Char) :
    withReturns ('\n' :: xs) = '\r' :: '\n' :: withReturns xs := rfl

/-- At any other character, no return is put. -/
theorem withReturns_cons {c : Char} (hc : c ≠ '\n') (xs : List Char) :
    withReturns (c :: xs) = c :: withReturns xs := by
  simp [withReturns, hc]

/-- Returns are put in texts one after the other. -/
theorem withReturns_append (xs ys : List Char) :
    withReturns (xs ++ ys) = withReturns xs ++ withReturns ys :=
  List.flatMap_append

/-- Without a line feed, a text stays as it is. -/
theorem withReturns_eq_self {xs : List Char} (h : ∀ c ∈ xs, c ≠ '\n') : withReturns xs = xs := by
  induction xs with
  | nil => rfl
  | cons c xs ih =>
    rw [List.forall_mem_cons] at h
    rw [withReturns_cons h.1, ih h.2]

/-- The characters of the text, and carriage returns. -/
theorem mem_withReturns {c : Char} {xs : List Char} (h : c ∈ withReturns xs) :
    c ∈ xs ∨ c = '\r' := by
  obtain ⟨d, hd, hc⟩ := List.mem_flatMap.mp h
  split at hc
  · next hfeed =>
    subst hfeed
    rcases List.mem_cons.mp hc with rfl | hc
    · exact .inr rfl
    · obtain rfl := List.mem_singleton.mp hc
      exact .inl hd
  · obtain rfl := List.mem_singleton.mp hc
    exact .inl hd

/-- What a text starts with in front of all carriage returns, it started with before. -/
theorem prefix_of_prefix_withReturns {front xs : List Char} (hfront : ∀ c ∈ front, c ≠ '\r')
    (h : front <+: withReturns xs) : front <+: xs := by
  induction front generalizing xs with
  | nil => exact List.nil_prefix
  | cons c front ih =>
    rw [List.forall_mem_cons] at hfront
    cases xs with
    | nil => exact absurd (List.prefix_nil.mp h) (List.cons_ne_nil c front)
    | cons x xs =>
      by_cases hx : x = '\n'
      · subst hx
        rw [withReturns_lineFeed, List.cons_prefix_cons] at h
        exact absurd h.1 hfront.1
      · rw [withReturns_cons hx, List.cons_prefix_cons] at h
        exact List.cons_prefix_cons.mpr ⟨h.1, ih hfront.2 h.2⟩

end Text

open Text

/-- A source with a carriage return in front of every line feed. -/
def returned (source : String) : String :=
  String.ofList (withReturns source.toList)

/-! ### Positions -/

/-- Two positions are in the same line and column. -/
def Position.SameCell (p q : Position) : Prop :=
  p.line = q.line ∧ p.column = q.column

namespace Position

variable {p q : Position}

/-- The same character leads from the same cell to the same cell. -/
theorem SameCell.after (h : q.SameCell p) (c : Char) : (q.after c).SameCell (p.after c) := by
  unfold SameCell at h ⊢
  unfold Position.after
  split
  · exact ⟨congrArg (· + 1) h.1, rfl⟩
  · exact ⟨h.1, congrArg (· + 1) h.2⟩

/-- Carriage returns in front of line feeds change no line and no column behind them. -/
theorem SameCell.afterAll_withReturns (h : q.SameCell p) (xs : List Char) :
    (q.afterAll (withReturns xs)).SameCell (p.afterAll xs) := by
  induction xs generalizing p q with
  | nil => exact h
  | cons x xs ih =>
    by_cases hx : x = '\n'
    · subst hx
      rw [withReturns_lineFeed, afterAll_cons, afterAll_cons, afterAll_cons]
      refine ih ?_
      exact ⟨congrArg (· + 1) h.1, rfl⟩
    · rw [withReturns_cons hx, afterAll_cons, afterAll_cons]
      exact ih (h.after x)

/-- Positions in the same cell have the same place in a file, offsets aside. -/
theorem SameCell.inFile (h : q.SameCell p) (file : String) :
    (q.inFile file).withoutOffset = (p.inFile file).withoutOffset := by
  simp [Position.inFile, Location.withoutOffset, h.1, h.2]

end Position

namespace Scanner

variable {file : String} {mode mode' : Mode} {p q : Position} {kind : TokenKind} {lexeme : String}
  {text xs ys : List Char} {ts : List Token}

/-! ### What comes next -/

/-- A run that no return goes on with ends in front of a text with returns where it ended without
them. -/
theorem Stops.withReturns {test : Char → Bool} (h : Stops test ys) (hreturn : test '\r' = false) :
    Stops test (withReturns ys) := by
  cases ys with
  | nil => exact h
  | cons y ys =>
    by_cases hy : y = '\n'
    · subst hy
      exact stops_cons hreturn
    · rw [withReturns_cons hy]
      exact stops_cons (h y rfl)

/-- What ends a run that line feeds belong to is not moved away. -/
theorem Stops.withReturns_of_lineFeed {test : Char → Bool} (h : Stops test ys)
    (hfeed : test '\n' = true) : Stops test (Text.withReturns ys) := by
  cases ys with
  | nil => exact h
  | cons y ys =>
    have hne : y ≠ '\n' := by
      rintro rfl
      exact absurd hfeed (by simp [h '\n' rfl])
    rw [withReturns_cons hne]
    exact stops_cons (h y rfl)

/-- The characters of a class that has no line feed stay as they are. -/
theorem withReturns_run {test : Char → Bool} (hxs : ∀ c ∈ xs, test c)
    (hfeed : test '\n' = false) : withReturns xs = xs := by
  refine withReturns_eq_self fun c hc => ?_
  rintro rfl
  rw [hxs _ hc] at hfeed
  cases hfeed

/-- A character of words is no space. -/
theorem not_isSpace_of_isWordChar {c : Char} (h : isWordChar c) : isSpace c = false := by
  cases hspace : isSpace c with
  | false => rfl
  | true =>
    simp only [isSpace, Bool.or_eq_true, beq_iff_eq] at hspace
    rcases hspace with ((rfl | rfl) | rfl) | rfl <;> cases h

/-- A digit is no space. -/
theorem not_isSpace_of_isDigit {c : Char} (h : c.isDigit) : isSpace c = false :=
  not_isSpace_of_isWordChar (by simp [isWordChar, h])

/-- No operator has a line feed or a carriage return in it. -/
theorem not_lineBreak_of_kind? {op : String} (h : Operator.kind? op = some kind) :
    ∀ c ∈ op.toList, c ≠ '\n' ∧ c ≠ '\r' := by
  have hall : ∀ op ∈ Operator.binary ++ Operator.unary ++ Operator.assignment,
      ∀ c ∈ op.toList, c ≠ '\n' ∧ c ≠ '\r' := by
    decide
  exact hall op (mem_of_kind? h)

/-- A token is spelled alike where the lines of the text end with carriage returns. -/
theorem Spells.withReturns (h : Spells kind lexeme text ys) :
    Spells kind lexeme (withReturns text) (withReturns ys) := by
  cases h with
  | @string quote content _ hquote hcontent =>
    have hne : quote ≠ '\n' := by
      rintro rfl
      revert hquote
      decide
    have hfeed : ∀ c ∈ quote :: (content ++ [quote]), c ≠ '\n' := by
      simp only [List.mem_cons, List.mem_append, List.not_mem_nil, or_false]
      rintro c (rfl | hc | rfl)
      · exact hne
      · exact (hcontent c hc).2
      · exact hne
    rw [withReturns_eq_self hfeed]
    exact .string hquote hcontent
  | register hne hname hys =>
    rw [withReturns_cons (by decide), withReturns_run hname (by decide)]
    exact .register hne hname (hys.withReturns (by decide))
  | directive d hys =>
    rw [withReturns_cons (by decide), withReturns_eq_self (by cases d <;> decide)]
    exact .directive d (hys.withReturns (by decide))
  | @typeName blanks name _ hblanks hne hname hys =>
    rw [withReturns_cons (by decide), withReturns_append, withReturns_run hname (by decide)]
    refine .typeName (fun c hc => ?_) hne hname (hys.withReturns (by decide))
    rcases mem_withReturns hc with hc | rfl
    · exact hblanks c hc
    · decide
  | integer hne hdigits hys hdot hradix =>
    rw [withReturns_run hdigits (by decide)]
    refine .integer hne hdigits (hys.withReturns (by decide)) (fun c zs hzs hc => ?_) ?_
    · have hreturn : ∀ d ∈ ['.', c], d ≠ '\r' := by
        have hne : c ≠ '\r' := by
          rintro rfl
          revert hc
          decide
        simp [hne]
      have hfront : ['.', c] <+: ys :=
        prefix_of_prefix_withReturns hreturn (by rw [hzs]; exact ⟨zs, rfl⟩)
      obtain ⟨ws, rfl⟩ := hfront
      exact hdot c ws rfl hc
    · intro hlone c hc
      have hnone : Stops (fun c => (Radix.ofLetter? c).isSome) ys := fun d hd => by
        simp [hradix hlone d hd]
      simpa using hnone.withReturns (by decide) c hc
  | decimal hne hwhole hne' hdigits hys =>
    rw [withReturns_append, withReturns_cons (by decide), withReturns_run hwhole (by decide),
      withReturns_run hdigits (by decide)]
    exact .decimal hne hwhole hne' hdigits (hys.withReturns (by decide))
  | @radix letter digits _ r hletter hne hdigits hys =>
    have hfeed : letter ≠ '\n' := by
      rintro rfl
      rw [show Radix.ofLetter? '\n' = none from by decide] at hletter
      cases hletter
    rw [withReturns_cons (by decide), withReturns_cons hfeed,
      withReturns_run hdigits (by cases r <;> decide)]
    exact .radix r hletter hne hdigits (hys.withReturns (by cases r <;> decide))
  | word hne hname hys =>
    rw [withReturns_run hname (by decide)]
    exact .word hne hname (hys.withReturns (by decide))
  | @delimiter c _ hc =>
    have hfeed : c ≠ '\n' := by
      rintro rfl
      revert hc
      decide
    rw [withReturns_cons hfeed]
    exact .delimiter hc
  | bar hys => exact .bar (hys.withReturns (by decide))
  | operator hop hlongest =>
    rw [withReturns_eq_self fun c hc => (not_lineBreak_of_kind? hop c hc).1]
    refine .operator hop fun longer kind' hlonger hfront => hlongest longer kind' hlonger ?_
    refine prefix_of_prefix_withReturns (fun c hc => (not_lineBreak_of_kind? hlonger c hc).2) ?_
    rwa [withReturns_append, withReturns_eq_self fun c hc => (not_lineBreak_of_kind? hop c hc).1]

/-! ### Whole texts -/

/-- No token starts with a space. -/
theorem Spells.stops_isSpace (h : Spells kind lexeme text ys) : Stops isSpace text := by
  cases h with
  | string hquote =>
    refine stops_cons ?_
    simp only [isQuote, Bool.or_eq_true, beq_iff_eq] at hquote
    rcases hquote with rfl | rfl <;> decide
  | @integer _ _ hne hdigits =>
    simpa using stops_run hne hdigits (fun c hc => not_isSpace_of_isDigit hc) []
  | decimal hne hwhole => exact stops_run hne hwhole (fun c hc => not_isSpace_of_isDigit hc) _
  | @word _ _ hne hname =>
    simpa using stops_run hne hname (fun c hc => not_isSpace_of_isWordChar hc) []
  | delimiter hc =>
    have hall : ∀ c ∈ delimiters, isSpace c = false := by decide
    exact stops_cons (hall _ hc)
  | operator hop =>
    have hall : ∀ op ∈ Operator.binary ++ Operator.unary ++ Operator.assignment,
        Stops isSpace op.toList := by
      unfold Stops
      decide
    exact hall _ (mem_of_kind? hop)
  | _ => exact stops_cons (by decide)

/-- A space is skipped on its own. -/
theorem Scans.of_isSpace {c : Char} (h : Scans file .free p (c :: xs) ts) (hc : isSpace c) :
    Scans file .free (p.after c) xs ts := by
  generalize hmode : Mode.free = mode, hall : c :: xs = all at h
  cases h with
  | done => cases hall
  | @skip _ _ _ text ys _ htakes hrest =>
    cases htakes with
    | space =>
      obtain ⟨rfl, rfl⟩ := List.cons.inj hall
      exact hrest
    | comment =>
      obtain ⟨rfl, _⟩ := List.cons.inj hall
      cases hc
    | _ => cases hmode
  | @token _ _ _ _ _ text ys _ htakes =>
    obtain ⟨first, text, rfl⟩ := List.exists_cons_of_ne_nil htakes.spells.text_ne_nil
    obtain ⟨rfl, _⟩ := List.cons.inj hall
    rw [htakes.spells.stops_isSpace c rfl] at hc
    cases hc

/-- The first characters of a text that is no line break stay its first characters. -/
theorem head?_withReturns {c : Char} (hc : c ∈ ys.head?) (hne : c ≠ '\n') :
    c ∈ (withReturns ys).head? := by
  obtain ⟨ys, rfl⟩ := List.head?_eq_some_iff.mp hc
  rw [withReturns_cons hne]
  rfl

/-- Tokens are taken in the same way. -/
theorem Takes.withReturns (h : Takes mode text (some (kind, lexeme)) mode' ys) :
    Takes mode (withReturns text) (some (kind, lexeme)) mode' (withReturns ys) := by
  cases h with
  | token hspells hkind hname =>
    refine .token hspells.withReturns hkind fun hbehind => ?_
    exact (hname hbehind).withReturns (by decide)
  | typed hspells => exact .typed hspells.withReturns
  | dot hnext =>
    obtain ⟨c, hc, hword⟩ := hnext
    refine .dot ⟨c, head?_withReturns hc ?_, hword⟩
    rintro rfl
    revert hword
    decide
  | member hspells => exact .member hspells.withReturns

/-- A carriage return at the end of a comment belongs to the comment. -/
theorem Scans.comment_return {body : List Char} (hbody : ∀ c ∈ body, c ≠ '\n')
    (h : Scans file .free (p.afterAll ('#' :: body)) ('\r' :: '\n' :: ys) ts) :
    Scans file .free p ('#' :: body ++ '\r' :: '\n' :: ys) ts := by
  have hline := h.of_isSpace (by decide)
  have hbody' : ∀ c ∈ body ++ ['\r'], c ≠ '\n' := by
    simp only [List.mem_append, List.mem_singleton]
    rintro c (hc | rfl)
    · exact hbody c hc
    · decide
  have htakes : Takes .free ('#' :: (body ++ ['\r'])) none .free ('\n' :: ys) :=
    .comment hbody' (stops_cons (by decide))
  have hafter : p.afterAll ('#' :: (body ++ ['\r'])) = (p.afterAll ('#' :: body)).after '\r' := by
    rw [← List.cons_append, Position.afterAll_append]
    rfl
  have hwhole := Scans.skip htakes (hafter ▸ hline)
  rwa [← List.cons_append, List.append_assoc] at hwhole

/-- A text is scanned as the same tokens, offsets aside, when its lines end with carriage
returns. -/
theorem Scans.exists_withReturns (h : Scans file mode p xs ts) (hq : q.SameCell p) :
    ∃ ts', Scans file mode q (withReturns xs) ts' ∧
      ts'.map Token.withoutOffset = ts.map Token.withoutOffset := by
  induction h generalizing q with
  | done => exact ⟨[], .done, rfl⟩
  | @skip mode mode' p text ys ts htakes _ ih =>
    obtain ⟨ts', hscans, hsame⟩ := ih (hq.afterAll_withReturns text)
    refine ⟨ts', ?_, hsame⟩
    rw [withReturns_append]
    cases htakes with
    | @space c _ hc =>
      by_cases hfeed : c = '\n'
      · subst hfeed
        have hline : Scans file .free (q.after '\r') ('\n' :: withReturns ys) ts' :=
          @Scans.skip file _ _ _ ['\n'] _ _ (.space hc) hscans
        exact @Scans.skip file _ _ _ ['\r'] _ _ (.space (by decide)) hline
      · rw [withReturns_cons hfeed, withReturns_nil] at hscans ⊢
        exact .skip (.space hc) hscans
    | @comment body _ hbody hys =>
      have hself : withReturns ('#' :: body) = '#' :: body := by
        rw [withReturns_cons (by decide), withReturns_eq_self hbody]
      rw [hself] at hscans ⊢
      cases ys with
      | nil => exact .skip (.comment hbody hys) hscans
      | cons y ys =>
        obtain rfl : y = '\n' := by simpa using hys y rfl
        exact .comment_return hbody hscans
    | untyped hys => exact .skip (.untyped (hys.withReturns (by decide))) hscans
    | blanks hblanks hys =>
      refine .skip (.blanks (fun c hc => ?_) (hys.withReturns_of_lineFeed (by decide))) hscans
      rcases mem_withReturns hc with hc | rfl
      · exact hblanks c hc
      · decide
    | unchained hys => exact .skip (.unchained (hys.withReturns (by decide))) hscans
  | @token mode mode' p kind lexeme text ys ts htakes _ ih =>
    obtain ⟨ts', hscans, hsame⟩ := ih (hq.afterAll_withReturns text)
    refine ⟨⟨kind, lexeme, q.inFile file⟩ :: ts', ?_, ?_⟩
    · rw [withReturns_append]
      exact .token htakes.withReturns hscans
    · rw [List.map_cons, List.map_cons, hsame, Token.withoutOffset, Token.withoutOffset,
        hq.inFile file]

/-- The end of a text is in the same line and column when the lines of the text end with carriage
returns. -/
theorem endOfInput_withReturns (file : String) (source : List Char) :
    (endOfInput file (withReturns source)).withoutOffset =
      (endOfInput file source).withoutOffset := by
  have hcell : (Position.start.afterAll (withReturns source)).SameCell
      (Position.start.afterAll source) :=
    Position.SameCell.afterAll_withReturns (p := Position.start) ⟨rfl, rfl⟩ source
  rw [endOfInput, endOfInput, Token.withoutOffset, Token.withoutOffset, hcell.inFile file]

/-- A source is scanned as the same tokens, offsets aside, when its lines end with carriage
returns. -/
theorem exists_scan_returned {source file : String} {tokens : List Token}
    (h : RegisterLang.scan source file = .ok tokens) :
    ∃ tokens', RegisterLang.scan (returned source) file = .ok tokens' ∧
      tokens'.map Token.withoutOffset = tokens.map Token.withoutOffset := by
  obtain ⟨ts, rfl, hscans⟩ := scan_eq_ok_iff.mp h
  obtain ⟨ts', hscans', hsame⟩ := hscans.exists_withReturns (q := Position.start) ⟨rfl, rfl⟩
  refine ⟨ts' ++ [endOfInput file (returned source).toList], scan_eq_ok_iff.mpr ⟨ts', rfl, ?_⟩, ?_⟩
  · rwa [returned, String.toList_ofList]
  · rw [returned, String.toList_ofList, List.map_append, List.map_append, hsame, List.map_singleton,
      List.map_singleton, endOfInput_withReturns]

end Scanner

end RegisterLang
