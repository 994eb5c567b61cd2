import RegisterLang.Proofs.Grammar.Shape
import RegisterLang.Proofs.Token.Completeness

/-!
# Layout between tokens

Spaces and comments only keep tokens apart. The tokens up to one that is no type are scanned alike
in front of every text that starts with a space or a comment, and behind any layout the same tokens
are scanned from the same text. So a gap between tokens may be laid out anew.
-/

namespace RegisterLang

/-- How many characters of a token are not in its lexeme: the quotes of a string, and the sign of a
register or a directive. -/
def TokenKind.marks : TokenKind → Nat
  | .string => 2
  | .register | .directive => 1
  | _ => 0

/-- The offset behind a token that is no type. -/
def Token.stop (t : Token) : Int :=
  t.location.offset + (t.kind.marks + t.lexeme.length : Nat)

namespace Scanner

/-- Spaces and comments, each comment with the end of its line. -/
inductive Layout : List Char → Prop where
  | nothing : Layout []
  | space {c text} : isSpace c → Layout text → Layout (c :: text)
  | comment {body text} :
      (∀ c ∈ body, c ≠ '\n') → Layout text → Layout ('#' :: (body ++ '\n' :: text))

/-- `Relays tokens before gap gap'`: behind `before`, the text `gap` is a gap between the tokens
that may be laid out anew as `gap'`. It is the gap in front of the first token, or, not behind a
type, a gap between two tokens or the one in front of the end of the input. Two tokens stay apart if
they were apart. -/
inductive Relays : List Token → List Char → List Char → List Char → Prop where
  | first {t : Token} {ts : List Token} {gap gap' : List Char} :
      t.location.offset = gap.length → Relays (t :: ts) [] gap gap'
  | between {ts us : List Token} {t u : Token} {before gap gap' : List Char} :
      t.kind ≠ .typeName → t.stop = before.length →
      u.location.offset = before.length + gap.length → gap ≠ [] → gap' ≠ [] →
      Relays (ts ++ t :: u :: us) before gap gap'
  | last {ts : List Token} {t u : Token} {before gap gap' : List Char} :
      t.kind ≠ .typeName → t.stop = before.length → u.kind = .endOfInput →
      u.location.offset = before.length + gap.length → Relays (ts ++ [t, u]) before gap gap'

variable {file : String} {mode mode' : Mode} {p : Position} {kind : TokenKind} {lexeme : String}
  {text text' xs ys zs : List Char} {ts us : List Token} {t : Token}

/-! ### Texts that stand apart -/

/-- The characters that spaces and comments start with. -/
def gapMarks : List Char :=
  [' ', '\t', '\r', '\n', '#']

/-- The text is at its end, or it goes on with a space or a comment. -/
def Apart (ys : List Char) : Prop :=
  ∀ c ∈ ys.head?, c ∈ gapMarks

/-- Spaces are among what a gap starts with. -/
theorem mem_gapMarks_of_isSpace {c : Char} (h : isSpace c) : c ∈ gapMarks := by
  simp only [isSpace, Bool.or_eq_true, beq_iff_eq] at h
  rcases h with ((rfl | rfl) | rfl) | rfl <;> decide

/-- A layout stands apart, whatever is behind it. -/
theorem Layout.apart (h : Layout xs) (hne : xs ≠ []) (ys : List Char) : Apart (xs ++ ys) := by
  cases h with
  | nothing => exact absurd rfl hne
  | space hc =>
    rintro c ⟨⟩
    exact mem_gapMarks_of_isSpace hc
  | comment =>
    rintro c ⟨⟩
    decide

/-- No run goes on into a text that stands apart, if it holds nothing that a gap starts with. -/
theorem Apart.stops {p : Char → Bool} (h : Apart ys) (hp : ∀ c ∈ gapMarks, p c = false) :
    Stops p ys :=
  fun c hc => hp c (h c hc)

/-- What a text goes on with is told by its front. -/
theorem Stops.append_of_ne_nil {p : Char → Bool} (h : Stops p (xs ++ ys)) (hne : xs ≠ [])
    (zs : List Char) : Stops p (xs ++ zs) := by
  obtain ⟨x, xs, rfl⟩ := List.exists_cons_of_ne_nil hne
  exact h

/-- A run that ends in front of a text also ends in front of one that stands apart. -/
theorem Stops.append_apart {p : Char → Bool} (h : Stops p (xs ++ ys))
    (hp : ∀ c ∈ gapMarks, p c = false) (hzs : Apart zs) : Stops p (xs ++ zs) := by
  by_cases hnil : xs = []
  · rw [hnil, List.nil_append]
    exact hzs.stops hp
  · exact h.append_of_ne_nil hnil zs

/-- No fraction goes on into a text that stands apart. The front may be too short to tell, since a
dot and a digit are two characters. -/
theorem not_isDigit_of_apart (h : ∀ c ws, xs ++ ys = '.' :: c :: ws → ¬ c.isDigit) (hzs : Apart zs)
    {c : Char} {ws : List Char} (hws : xs ++ zs = '.' :: c :: ws) : ¬ c.isDigit := by
  have hmarks : ∀ c ∈ gapMarks, c ≠ '.' ∧ ¬ c.isDigit := by decide
  cases xs with
  | nil =>
    rw [List.nil_append] at hws
    exact absurd rfl (hmarks '.' (hzs '.' (by rw [hws]; rfl))).1
  | cons x xs =>
    rw [List.cons_append, List.cons.injEq] at hws
    obtain ⟨rfl, hws⟩ := hws
    cases xs with
    | nil =>
      rw [List.nil_append] at hws
      exact (hmarks c (hzs c (by rw [hws]; rfl))).2
    | cons y xs =>
      rw [List.cons_append, List.cons.injEq] at hws
      obtain ⟨rfl, _⟩ := hws
      exact h y _ rfl

/-- No operator goes on into a text that stands apart. -/
theorem isPrefix_of_apart {op : String} (h : Operator.kind? op = some kind) (hys : Apart ys)
    (hfront : op.toList <+: xs ++ ys) : op.toList <+: xs := by
  have hmarks : ∀ op ∈ Operator.binary ++ Operator.unary ++ Operator.assignment,
      ∀ c ∈ op.toList, c ∉ gapMarks := by
    decide
  refine List.prefix_of_prefix_length_le hfront (List.prefix_append xs ys) ?_
  by_contra hlength
  cases ys with
  | nil =>
    have hle := hfront.length_le
    rw [List.append_nil] at hle
    omega
  | cons y ys =>
    have hlong : xs ++ [y] <+: op.toList := by
      refine List.prefix_of_prefix_length_le ⟨ys, by simp⟩ hfront ?_
      rw [List.length_append, List.length_singleton]
      omega
    exact hmarks op (mem_of_kind? h) y (hlong.subset (by simp)) (hys y rfl)

/-! ### Tokens in front of them -/

/-- A token that is spelled in front of a text is spelled in front of one that stands apart, unless
it is a type, which may go on with a comment. -/
theorem Spells.append_apart (h : Spells kind lexeme text (text' ++ ys)) (hzs : Apart zs)
    (hkind : kind = .typeName → text' ≠ []) : Spells kind lexeme text (text' ++ zs) := by
  cases h with
  | string hquote hcontent => exact .string hquote hcontent
  | register hne hname hys => exact .register hne hname (hys.append_apart (by decide) hzs)
  | directive d hys => exact .directive d (hys.append_apart (by decide) hzs)
  | typeName hblanks hne hname hys =>
    exact .typeName hblanks hne hname (hys.append_of_ne_nil (hkind rfl) zs)
  | integer hne hdigits hys hdot hradix =>
    refine .integer hne hdigits (hys.append_apart (by decide) hzs) ?_ ?_
    · exact fun c ws hws => not_isDigit_of_apart hdot hzs hws
    · intro hlone c hc
      cases text' with
      | nil =>
        have hmarks : ∀ c ∈ gapMarks, Radix.ofLetter? c = none := by decide
        exact hmarks c (hzs c hc)
      | cons x text' => exact hradix hlone c hc
  | decimal hne hwhole hne' hdigits hys =>
    exact .decimal hne hwhole hne' hdigits (hys.append_apart (by decide) hzs)
  | radix r hletter hne hdigits hys =>
    exact .radix r hletter hne hdigits (hys.append_apart (by cases r <;> decide) hzs)
  | word hne hname hys => exact .word hne hname (hys.append_apart (by decide) hzs)
  | delimiter hc => exact .delimiter hc
  | bar hys => exact .bar (hys.append_apart (by decide) hzs)
  | operator hop hlongest =>
    refine .operator hop fun longer kind' hlonger hfront => hlongest longer kind' hlonger ?_
    rw [← List.append_assoc] at hfront ⊢
    exact (isPrefix_of_apart hlonger hzs hfront).trans (List.prefix_append _ _)

/-- What comes next in front of a text comes next in front of one that stands apart, too, if it is
not cut off there: what is skipped, a type and the dot of a member need to see what follows. -/
theorem Takes.append_apart {token : Option (TokenKind × String)}
    (h : Takes mode text token mode' (text' ++ ys)) (hzs : Apart zs)
    (hcut : token = none ∨ mode' = .type ∨ mode' = .dot → text' ≠ []) :
    Takes mode text token mode' (text' ++ zs) := by
  cases h with
  | space hc => exact .space hc
  | comment hbody hys => exact .comment hbody (hys.append_of_ne_nil (hcut (.inl rfl)) zs)
  | token hspells hkind hname =>
    exact .token (hspells.append_apart hzs fun htype => absurd htype hkind) hkind hname
  | untyped hys => exact .untyped (hys.append_of_ne_nil (hcut (.inl rfl)) zs)
  | typed hspells => exact .typed (hspells.append_apart hzs fun _ => hcut (.inr (.inl rfl)))
  | blanks hblanks hys => exact .blanks hblanks (hys.append_of_ne_nil (hcut (.inl rfl)) zs)
  | unchained hys => exact .unchained (hys.append_of_ne_nil (hcut (.inl rfl)) zs)
  | dot hnext =>
    obtain ⟨x, text', rfl⟩ := List.exists_cons_of_ne_nil (hcut (.inr (.inr rfl)))
    exact .dot hnext
  | @member lexeme text ys hspells =>
    refine .member (hspells.append_apart hzs fun htype => ?_)
    have hbehind := congrArg Mode.behind htype
    rw [behind_wordKind] at hbehind
    cases hbehind

/-- Only a type leads behind a type. -/
theorem Takes.ne_type (h : Takes mode text (some (kind, lexeme)) mode' ys)
    (hkind : kind ≠ .typeName) : mode' ≠ .type := by
  cases h with
  | token => cases kind <;> decide
  | typed => exact absurd rfl hkind
  | dot | member => decide

/-- The text of a token that is no type is its lexeme and its marks. -/
theorem Spells.length_text (h : Spells kind lexeme text ys) (hkind : kind ≠ .typeName) :
    text.length = kind.marks + lexeme.length := by
  rw [← String.length_toList]
  cases h with
  | typeName => exact absurd rfl hkind
  | string | register | directive =>
    simp [TokenKind.marks]
    omega
  | integer | decimal | delimiter | bar => simp [TokenKind.marks]
  | radix r => cases r <;> simp [TokenKind.marks, Radix.kind]
  | word =>
    unfold wordKind
    split
    · simp [TokenKind.marks]
    · split <;> simp [TokenKind.marks]
  | operator hop =>
    have hoperator := isOperator_of_kind? hop
    have hmarks : kind.marks = 0 := by cases kind <;> first | rfl | cases hoperator
    rw [hmarks, Nat.zero_add]

/-! ### From one token to the next -/

/-- If a gap comes next, it comes where anything may come. -/
theorem Scans.free_of_gap (h : Scans file mode p xs us) (hmode : mode ≠ .type)
    (hgap : ∀ u ∈ us.head?, (p.offset : Int) < u.location.offset) :
    mode ≠ .dot ∧ Scans file .free p xs us := by
  induction h with
  | done => exact ⟨by decide, .done⟩
  | skip htakes hrest ih =>
    cases htakes with
    | space hc => exact ⟨by decide, .skip (.space hc) hrest⟩
    | comment hbody hys => exact ⟨by decide, .skip (.comment hbody hys) hrest⟩
    | untyped => exact ⟨by decide, (ih (by decide) hgap).2⟩
    | blanks => exact absurd rfl hmode
    | unchained => exact ⟨by decide, hrest⟩
  | token => exact absurd (hgap _ rfl) (Int.lt_irrefl _)

/-- A text that stands apart is scanned alike wherever a gap may come. -/
theorem Scans.of_free (h : Scans file .free p ys us) (hys : Apart ys) (htype : mode ≠ .type)
    (hdot : mode ≠ .dot) : Scans file mode p ys us := by
  have hname : Scans file .name p ys us :=
    @Scans.skip file _ _ p [] ys us (.unchained (hys.stops (by decide))) h
  cases mode with
  | free => exact h
  | register => exact @Scans.skip file _ _ p [] ys us (.untyped (hys.stops (by decide))) hname
  | name => exact hname
  | type => exact absurd rfl htype
  | dot => exact absurd rfl hdot

/-- A text that ends with a token and does not depend on what is behind it: in front of every text
that stands apart it is scanned as these tokens. -/
structure Front (file : String) (mode : Mode) (p : Position) (front : List Char)
    (ts : List Token) : Prop where
  ne_nil : front ≠ []
  scans : ∀ ys us, Apart ys → Scans file .free (p.afterAll front) ys us →
    Scans file mode p (front ++ ys) (ts ++ us)

namespace Front

/-- A token is a front of its own, if it is no type and not the dot of a member. -/
theorem single (h : Takes mode text (some (kind, lexeme)) mode' ys) (hkind : kind ≠ .typeName)
    (hdot : mode' ≠ .dot) : Front file mode p text [⟨kind, lexeme, p.inFile file⟩] where
  ne_nil := h.spells.text_ne_nil
  scans zs us hzs hscans := by
    have htype := h.ne_type hkind
    refine .token (@Takes.append_apart _ _ text [] ys zs _ h hzs ?_)
      (hscans.of_free hzs htype hdot)
    rintro (hnone | htype' | hdot')
    · cases hnone
    · exact absurd htype' htype
    · exact absurd hdot' hdot

variable {front : List Char}

/-- What is passed in front of a front belongs to it. -/
theorem skip (h : Takes mode text none mode' (front ++ ys))
    (hfront : Front file mode' (p.afterAll text) front ts) :
    Front file mode p (text ++ front) ts where
  ne_nil := List.append_ne_nil_of_right_ne_nil text hfront.ne_nil
  scans zs us hzs hscans := by
    rw [Position.afterAll_append] at hscans
    rw [List.append_assoc]
    exact .skip (h.append_apart hzs fun _ => hfront.ne_nil) (hfront.scans zs us hzs hscans)

/-- A token in front of a front belongs to it. -/
theorem token (h : Takes mode text (some (kind, lexeme)) mode' (front ++ ys))
    (hfront : Front file mode' (p.afterAll text) front ts) :
    Front file mode p (text ++ front) (⟨kind, lexeme, p.inFile file⟩ :: ts) where
  ne_nil := List.append_ne_nil_of_right_ne_nil text hfront.ne_nil
  scans zs us hzs hscans := by
    rw [Position.afterAll_append] at hscans
    rw [List.append_assoc]
    exact .token (h.append_apart hzs fun _ => hfront.ne_nil) (hfront.scans zs us hzs hscans)

end Front

/-- The text up to a token in front of a gap is a front, if the token is no type. -/
theorem Scans.exists_front (h : Scans file mode p xs (ts ++ t :: us)) (hkind : t.kind ≠ .typeName)
    (hgap : ∀ u ∈ us.head?, t.stop < u.location.offset) :
    ∃ front ys, xs = front ++ ys ∧ t.stop = (p.afterAll front).offset ∧
      Front file mode p front (ts ++ [t]) ∧ Scans file .free (p.afterAll front) ys us := by
  generalize hall : ts ++ t :: us = all at h
  induction h generalizing ts with
  | done => simp at hall
  | @skip mode mode' p text ys all htakes _ ih =>
    obtain ⟨front, ys, rfl, hstop, hfront, hrest⟩ := ih hall
    rw [← Position.afterAll_append] at hstop hrest
    exact ⟨text ++ front, ys, by rw [List.append_assoc], hstop, hfront.skip htakes, hrest⟩
  | @token mode mode' p kind lexeme text ys all htakes hrest ih =>
    cases ts with
    | nil =>
      obtain ⟨rfl, rfl⟩ := List.cons.inj hall
      have hstop : Token.stop ⟨kind, lexeme, p.inFile file⟩ = (p.afterAll text).offset := by
        rw [Token.stop, ← htakes.spells.length_text hkind, Position.offset_afterAll]
        rfl
      rw [hstop] at hgap
      obtain ⟨hdot, hfree⟩ := hrest.free_of_gap (htakes.ne_type hkind) hgap
      exact ⟨text, ys, rfl, hstop, .single htakes hkind hdot, hfree⟩
    | cons t' ts =>
      obtain ⟨rfl, htail⟩ := List.cons.inj hall
      obtain ⟨front, ys, rfl, hstop, hfront, hrest⟩ := ih htail
      rw [← Position.afterAll_append] at hstop hrest
      exact ⟨text ++ front, ys, by rw [List.append_assoc], hstop, hfront.token htakes, hrest⟩

/-- Where anything may come, a gap is in front of the next token or the end. -/
theorem Scans.exists_gap (h : Scans file .free p xs us) :
    ∃ gap ys, xs = gap ++ ys ∧ Scans file .free (p.afterAll gap) ys us ∧
      (∀ u ∈ us.head?, u.location.offset = p.offset + gap.length) ∧ (us = [] → ys = []) := by
  generalize hmode : Mode.free = mode at h
  induction h with
  | done => exact ⟨[], [], rfl, .done, by simp, fun _ => rfl⟩
  | @skip mode mode' p text ys us htakes _ ih =>
    subst hmode
    have hfree : Mode.free = mode' := by cases htakes <;> rfl
    subst hfree
    obtain ⟨gap, ys, rfl, hscans, hnext, hnil⟩ := ih rfl
    rw [← Position.afterAll_append] at hscans
    refine ⟨text ++ gap, ys, by rw [List.append_assoc], hscans, fun u hu => ?_, hnil⟩
    rw [hnext u hu, Position.offset_afterAll, List.length_append]
    omega
  | @token mode mode' p kind lexeme text ys us htakes hrest =>
    subst hmode
    refine ⟨[], text ++ ys, rfl, .token htakes hrest, ?_, by simp⟩
    rintro u ⟨⟩
    simp [Position.inFile]

/-! ### Another layout -/

/-- Layout is skipped. -/
theorem Layout.scans (h : Layout xs) (hrest : Scans file .free (p.afterAll xs) ys us) :
    Scans file .free p (xs ++ ys) us := by
  induction h generalizing p with
  | nothing => exact hrest
  | @space c text hc _ ih => exact @Scans.skip file _ _ p [c] (text ++ ys) us (.space hc) (ih hrest)
  | @comment body text hbody _ ih =>
    have hline : Scans file .free (p.afterAll ('#' :: body)) ('\n' :: (text ++ ys)) us := by
      refine @Scans.skip file _ _ _ ['\n'] _ _ (.space (by decide)) (ih ?_)
      rw [← Position.afterAll_append, ← Position.afterAll_append]
      simpa using hrest
    have hcomment := Scans.skip (Takes.comment hbody (stops_cons (by decide))) hline
    simpa using hcomment

/-- From another position, a text holds the same tokens, places aside. -/
theorem Scans.exists_moved (h : Scans file mode p xs us) (p' : Position) :
    ∃ us', List.Forall₂ Token.Alike us us' ∧ Scans file mode p' xs us' := by
  induction h generalizing p' with
  | done => exact ⟨[], .nil, .done⟩
  | @skip mode mode' p text ys us htakes _ ih =>
    obtain ⟨us', halike, hscans⟩ := ih (p'.afterAll text)
    exact ⟨us', halike, .skip htakes hscans⟩
  | @token mode mode' p kind lexeme text ys us htakes _ ih =>
    obtain ⟨us', halike, hscans⟩ := ih (p'.afterAll text)
    exact ⟨⟨kind, lexeme, p'.inFile file⟩ :: us', .cons ⟨rfl, rfl⟩ halike, .token htakes hscans⟩

/-- A gap where anything may come may be laid out anew. -/
theorem Scans.exists_relaid {gap gap' after : List Char} {last : Token}
    (h : Scans file .free p (gap ++ after) us)
    (hlast : last.location.offset = p.offset + (gap ++ after).length)
    (hnext : ∀ u ∈ (us ++ [last]).head?, u.location.offset = p.offset + gap.length)
    (hlayout : Layout gap') :
    ∃ us', List.Forall₂ Token.Alike us us' ∧ Scans file .free p (gap' ++ after) us' ∧
      (us = [] → after = []) := by
  obtain ⟨gap₁, ys, hsplit, hscans, hnext₁, hnil⟩ := h.exists_gap
  have hlength : gap.length = gap₁.length := by
    cases us with
    | nil =>
      have hend := hnext last rfl
      rw [hsplit, hnil rfl, List.append_nil] at hlast
      omega
    | cons u us =>
      have hstart := hnext u rfl
      have hstart₁ := hnext₁ u rfl
      omega
  obtain ⟨rfl, rfl⟩ := List.append_inj hsplit hlength
  obtain ⟨us', halike, hmoved⟩ := hscans.exists_moved (p.afterAll gap')
  exact ⟨us', halike, hlayout.scans hmoved, hnil⟩

/-- A gap behind a token that is no type may be laid out anew. -/
theorem Scans.exists_relaid_behind {before gap gap' after : List Char} {last : Token}
    (h : Scans file mode p (before ++ (gap ++ after)) (ts ++ t :: us)) (hkind : t.kind ≠ .typeName)
    (hstop : t.stop = p.offset + before.length)
    (hlast : last.location.offset = p.offset + (before ++ (gap ++ after)).length)
    (hnext : ∀ u ∈ (us ++ [last]).head?,
      u.location.offset = p.offset + before.length + gap.length)
    (hlayout : Layout gap') (hapart : us ≠ [] → gap ≠ [] ∧ gap' ≠ []) :
    ∃ ts', List.Forall₂ Token.Alike (ts ++ t :: us) ts' ∧
      Scans file mode p (before ++ (gap' ++ after)) ts' := by
  have hgap : ∀ u ∈ us.head?, t.stop < u.location.offset := by
    intro u hu
    cases us with
    | nil => cases hu
    | cons v us =>
      have hpos := List.length_pos_iff.mpr (hapart (by simp)).1
      have hstart := hnext u hu
      omega
  obtain ⟨front, ys, hsplit, hstop', hfront, hrest⟩ := h.exists_front hkind hgap
  rw [Position.offset_afterAll] at hstop'
  obtain ⟨rfl, rfl⟩ := List.append_inj hsplit (by omega)
  rw [List.length_append] at hlast
  obtain ⟨us', halike, hscans, hnil⟩ := hrest.exists_relaid
    (by rw [hlast, Position.offset_afterAll]; omega)
    (fun u hu => by rw [hnext u hu, Position.offset_afterAll]; omega) hlayout
  rw [List.append_cons]
  refine ⟨ts ++ [t] ++ us', List.rel_append (List.forall₂_same.mpr fun t _ => .refl t) halike,
    hfront.scans _ us' ?_ hscans⟩
  by_cases hgap' : gap' = []
  · have hus : us = [] := by
      by_contra hne
      exact (hapart hne).2 hgap'
    rw [hgap', hnil hus]
    rintro c ⟨⟩
  · exact hlayout.apart hgap' after

/-- A text with a gap that is laid out anew is scanned as the same tokens, places aside. -/
theorem exists_scan_of_relays {source file : String} {tokens : List Token}
    {before gap gap' after : List Char} (hscan : RegisterLang.scan source file = .ok tokens)
    (hsource : source.toList = before ++ (gap ++ after)) (hrelays : Relays tokens before gap gap')
    (hlayout : Layout gap') :
    ∃ tokens', RegisterLang.scan (String.ofList (before ++ (gap' ++ after))) file = .ok tokens' ∧
      List.Forall₂ Token.Alike tokens tokens' := by
  obtain ⟨ts, htokens, hscans⟩ := scan_eq_ok_iff.mp hscan
  have hlast : (endOfInput file source.toList).location.offset =
      (Position.start.offset : Int) + (before ++ (gap ++ after)).length := by
    simp [endOfInput, Position.inFile, hsource]
  rw [hsource] at hscans
  suffices hanew : ∃ ts', List.Forall₂ Token.Alike ts ts' ∧
      Scans file .free Position.start (before ++ (gap' ++ after)) ts' by
    obtain ⟨ts', halike, hscans'⟩ := hanew
    refine ⟨ts' ++ [endOfInput file _], scan_eq_ok_iff.mpr ⟨ts', rfl, ?_⟩, ?_⟩
    · rwa [String.toList_ofList]
    · rw [htokens]
      exact List.rel_append halike (.cons ⟨rfl, rfl⟩ .nil)
  generalize hall : ts ++ [endOfInput file source.toList] = all at htokens
  rw [htokens] at hrelays
  cases hrelays with
  | first hoffset =>
    rw [List.nil_append] at hscans hlast ⊢
    obtain ⟨ts', halike, hscans', _⟩ := hscans.exists_relaid hlast
      (by simpa [hall, Position.start] using hoffset) hlayout
    exact ⟨ts', halike, hscans'⟩
  | @between ts₁ us t u _ _ _ hkind hstop hnext hne hne' =>
    have hus := (List.dropLast_append_getLast (List.cons_ne_nil u us)).symm
    generalize (u :: us).dropLast = us₀, (u :: us).getLast _ = v at hus
    rw [hus, ← List.cons_append, ← List.append_assoc] at hall
    obtain ⟨rfl, hv⟩ := List.append_inj' hall rfl
    refine hscans.exists_relaid_behind hkind (by simpa [Position.start] using hstop) hlast ?_
      hlayout fun _ => ⟨hne, hne'⟩
    rw [hv, ← hus]
    rintro u ⟨⟩
    simpa [Position.start] using hnext
  | @last ts₁ t u _ _ _ hkind hstop _ hnext =>
    rw [show ts₁ ++ [t, u] = ts₁ ++ [t] ++ [u] by simp] at hall
    obtain ⟨rfl, hu⟩ := List.append_inj' hall rfl
    refine hscans.exists_relaid_behind hkind (by simpa [Position.start] using hstop) hlast ?_
      hlayout fun hne => absurd rfl hne
    rw [List.nil_append, hu]
    rintro u ⟨⟩
    simpa [Position.start] using hnext

end Scanner

end RegisterLang
