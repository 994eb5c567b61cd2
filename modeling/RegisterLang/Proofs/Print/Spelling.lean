import RegisterLang.Proofs.Print.Canonical
import RegisterLang.Proofs.Token.Layout

/-!
# Canonical items are scanned

The text of canonical items is scanned as their tokens. Each item leads from one mode of scanning to
the next, if what follows it does not continue it, so the items of a whole text can be put together
from those of its parts.
-/

namespace RegisterLang

namespace Scanner

/-! ### Tokens that are written again -/

/-- The text does not continue a number with a fraction. -/
def EndsNumber (ys : List Char) : Prop :=
  ∀ c zs, ys = '.' :: c :: zs → ¬ c.isDigit

variable {kind : TokenKind} {lexeme : String} {text ys : List Char}

/-- The letter of a radix and the digits of it are characters of words. -/
theorem isWordChar_of_ofLetter? {c : Char} {r : Radix} (h : Radix.ofLetter? c = some r) :
    isWordChar c := by
  unfold Radix.ofLetter? at h
  split at h
  · next hc => rcases hc with rfl | rfl <;> decide
  split at h
  · next hc => rcases hc with rfl | rfl <;> decide
  split at h
  · next hc => rcases hc with rfl | rfl <;> decide
  · cases h

/-- A decimal digit is a character of words. -/
theorem isWordChar_of_isDigit {c : Char} (h : c.isDigit) : isWordChar c := by
  simp [isWordChar, h]

/-- A digit of a radix is a character of words. -/
theorem isWordChar_of_radix {c : Char} {r : Radix} (h : r.isDigit c) : isWordChar c := by
  cases r with
  | hexadecimal =>
    simp only [Radix.isDigit, Bool.or_eq_true, Bool.and_eq_true, decide_eq_true_eq] at h
    rcases h with (hdigit | ⟨hlow, hhigh⟩) | ⟨hlow, hhigh⟩
    · exact isWordChar_of_isDigit hdigit
    · have hz := Char.le_trans hhigh (by decide : 'f' ≤ 'z')
      simp [isWordChar, isLetter, hlow, hz]
    · have hz := Char.le_trans hhigh (by decide : 'F' ≤ 'Z')
      simp [isWordChar, isLetter, hlow, hz]
  | binary =>
    simp only [Radix.isDigit, Bool.or_eq_true, beq_iff_eq] at h
    rcases h with rfl | rfl <;> decide
  | octal =>
    simp only [Radix.isDigit, Bool.and_eq_true, decide_eq_true_eq] at h
    refine isWordChar_of_isDigit ?_
    simp only [Char.isDigit, Bool.and_eq_true, decide_eq_true_eq]
    exact ⟨h.1, Char.le_trans h.2 (by decide : '7' ≤ '9')⟩

/-- Words are written as they are. -/
theorem spelling_wordKind (word : String) : Print.spelling (wordKind word) word = word.toList := by
  unfold wordKind
  split
  · rfl
  · split <;> rfl

/-- Quotes of the sort that the canonical form asks for are not in a string that can be quoted. -/
theorem ne_quoteOf {quote : Char} {content : List Char} (hquote : isQuote quote)
    (hcontent : ∀ c ∈ content, c ≠ quote) :
    isQuote (Print.quoteOf (String.ofList content)) ∧
      ∀ c ∈ content, c ≠ Print.quoteOf (String.ofList content) := by
  rw [Print.quoteOf, String.toList_ofList]
  split
  · next hdouble =>
    rw [isQuote, Bool.or_eq_true, beq_iff_eq, beq_iff_eq] at hquote
    obtain rfl := hquote.resolve_left fun heq => hcontent _ hdouble heq.symm
    exact ⟨rfl, hcontent⟩
  · next hnone =>
    refine ⟨rfl, fun c hc heq => hnone ?_⟩
    rwa [← heq]

/-- A token that is no operator, delimiter or type can be spelled in its canonical form in front of
any text that does not continue it. -/
theorem Spells.respell (h : Spells kind lexeme text ys) (hoperator : kind.isOperator = false)
    (hdelimiter : kind ≠ .delimiter) (htype : kind ≠ .typeName) {zs : List Char}
    (hword : Stops isWordChar zs) (hnumber : kind = .number → EndsNumber zs) :
    Spells kind lexeme (Print.spelling kind lexeme) zs := by
  cases h with
  | @string quote content ys hquote hcontent =>
    obtain ⟨hquote', hcontent'⟩ := ne_quoteOf hquote fun c hc => (hcontent c hc).1
    have hspells := @Spells.string _ content zs hquote'
      fun c hc => ⟨hcontent' c hc, (hcontent c hc).2⟩
    simpa [Print.spelling] using hspells
  | register hne hname => simpa [Print.spelling] using Spells.register hne hname hword
  | directive d => exact .directive d hword
  | typeName => exact absurd rfl htype
  | @integer digits ys hne hdigits =>
    have hspells := Spells.integer hne hdigits (hword.of_imp fun _ => isWordChar_of_isDigit)
      (hnumber rfl) fun _ c hc => by
        rw [Option.eq_none_iff_forall_ne_some]
        intro r hr
        have hc' := hword c hc
        rw [isWordChar_of_ofLetter? hr] at hc'
        cases hc'
    simpa [Print.spelling] using hspells
  | decimal hne hwhole hne' hdigits =>
    have hspells := Spells.decimal hne hwhole hne' hdigits
      (hword.of_imp fun _ => isWordChar_of_isDigit)
    simpa [Print.spelling] using hspells
  | radix r hletter hne hdigits =>
    have hspells := Spells.radix r hletter hne hdigits (hword.of_imp fun _ => isWordChar_of_radix)
    cases r <;> simpa [Print.spelling, Radix.kind] using hspells
  | word hne hname =>
    rw [spelling_wordKind, String.toList_ofList]
    exact .word hne hname hword
  | delimiter => exact absurd rfl hdelimiter
  | bar => exact absurd rfl hdelimiter
  | operator hop =>
    rw [isOperator_of_kind? hop] at hoperator
    cases hoperator

/-- Operators are told by their lexeme. -/
theorem Spellable.kind?_eq (h : Spellable kind lexeme) (hoperator : kind.isOperator) :
    Operator.kind? lexeme = some kind := by
  obtain ⟨_, _, hspells⟩ := h
  cases hspells with
  | operator hop => exact hop
  | radix r => cases r <;> cases hoperator
  | word =>
    unfold wordKind at hoperator
    split at hoperator
    · cases hoperator
    · split at hoperator <;> cases hoperator
  | _ => cases hoperator

/-- An operator can be spelled in front of a space, since it does not go on there. -/
theorem spells_operator (h : Operator.kind? lexeme = some kind) (zs : List Char) :
    Spells kind lexeme lexeme.toList (' ' :: zs) := by
  refine .operator h fun longer kind' hlonger hfront => ?_
  have hspace : Apart (' ' :: zs) := by
    rintro c ⟨⟩
    decide
  have hle := (isPrefix_of_apart hlonger hspace hfront).length_le
  rwa [String.length_toList, String.length_toList] at hle

/-- A type can be spelled in front of a space. -/
theorem Spells.respell_type (h : Spells .typeName lexeme text ys) (zs : List Char) :
    Spells .typeName lexeme (Print.spelling .typeName lexeme) (' ' :: zs) := by
  obtain ⟨_, name, rfl, _, _, hne, hname, _⟩ := h.exists_type
  have hspells := @Spells.typeName [' '] name (' ' :: zs) (by decide) hne hname
    (stops_cons (by decide))
  simpa [Print.spelling] using hspells

/-- An identifier starts with a character of words. -/
theorem Spellable.exists_cons (h : Spellable .identifier lexeme) :
    ∃ c name, lexeme.toList = c :: name ∧ isWordChar c := by
  obtain ⟨text, _, hspells⟩ := h
  obtain ⟨_, rfl, hne, hname, _⟩ := hspells.of_word rfl
  obtain ⟨c, name, rfl⟩ := List.exists_cons_of_ne_nil hne
  exact ⟨c, name, String.toList_ofList, hname c List.mem_cons_self⟩

/-- Behind the dot of a member, any identifier may come. -/
theorem Spellable.takes_member (h : Spellable .identifier lexeme) {zs : List Char}
    (hword : Stops isWordChar zs) :
    Takes .dot (Print.spelling .identifier lexeme) (some (.identifier, lexeme)) .name zs := by
  obtain ⟨_, _, hspells⟩ := h
  have hspells' := hspells.respell rfl (by decide) (by decide) hword nofun
  have hkind := (hspells'.of_word rfl).1
  rw [hkind] at hspells' ⊢
  exact .member hspells'

end Scanner

namespace Print

open Scanner

/-! ### Items that are scanned -/

/-- From one mode to another, and in front of `ys`, the text of the items is scanned as their
tokens: whatever is scanned behind them is scanned behind their tokens. -/
def Prints (mode : Mode) (its : List Item) (mode' : Mode) (ys : List Char) : Prop :=
  ∀ file p rest, Scans file mode' (p.afterAll (written its)) ys rest →
    ∃ ts, List.Forall₂ Token.Alike (tokens its) ts ∧
      Scans file mode p (written its ++ ys) (ts ++ rest)

variable {mode mode' mode'' : Mode} {its its' : List Item} {ys : List Char} {kind : TokenKind}
  {lexeme : String}

/-- No items are scanned as no tokens. -/
theorem Prints.nil (mode : Mode) (ys : List Char) : Prints mode [] mode ys :=
  fun _ _ _ hrest => ⟨[], .nil, hrest⟩

/-- Items one after the other are scanned, if the first ones are in front of the text of the
others. -/
theorem Prints.append (h : Prints mode its mode' (written its' ++ ys))
    (h' : Prints mode' its' mode'' ys) : Prints mode (its ++ its') mode'' ys := by
  intro file p rest hrest
  rw [written_append, Position.afterAll_append] at hrest
  obtain ⟨ts', hts', hscans'⟩ := h' file _ rest hrest
  obtain ⟨ts, hts, hscans⟩ := h file p _ hscans'
  refine ⟨ts ++ ts', ?_, ?_⟩
  · rw [tokens_append]
    exact List.rel_append hts hts'
  · rw [written_append, List.append_assoc, List.append_assoc]
    exact hscans

/-- The first item is scanned, if it is in front of the text of the others. -/
theorem Prints.cons {x : Item} (h : Prints mode [x] mode' (written its ++ ys))
    (h' : Prints mode' its mode'' ys) : Prints mode (x :: its) mode'' ys :=
  h.append h'

/-- A mode may be left without reading anything. -/
theorem Prints.of_takes (h : Takes mode [] none mode' (written its ++ ys))
    (h' : Prints mode' its mode'' ys) : Prints mode its mode'' ys := by
  intro file p rest hrest
  obtain ⟨ts, hts, hscans⟩ := h' file p rest hrest
  exact ⟨ts, hts, @Scans.skip file _ _ p [] _ _ h hscans⟩

/-- A token is scanned as itself, if its spelling is read as it in front of what follows. -/
theorem Prints.token (h : Takes mode (spelling kind lexeme) (some (kind, lexeme)) mode' ys) :
    Prints mode [.token kind lexeme] mode' ys := by
  intro file p rest hrest
  rw [written_cons, written_nil, List.append_nil] at hrest ⊢
  exact ⟨[⟨kind, lexeme, p.inFile file⟩], .cons ⟨rfl, rfl⟩ .nil, .token h hrest⟩

/-- A space is scanned as nothing. -/
theorem Prints.space (ys : List Char) : Prints .free [.space] .free ys :=
  fun _ _ _ hrest => ⟨[], .nil, .skip (@Takes.space ' ' ys rfl) hrest⟩

/-- A line feed is scanned as nothing. -/
theorem Prints.newline (ys : List Char) : Prints .free [.newline] .free ys :=
  fun _ _ _ hrest => ⟨[], .nil, .skip (@Takes.space '\n' ys rfl) hrest⟩

/-- Behind a type, a space may be read as one of the blanks that follow it. -/
theorem Prints.space_behind_type (h : Stops Text.isBlank ys) : Prints .type [.space] .name ys :=
  fun _ _ _ hrest => ⟨[], .nil, .skip (@Takes.blanks [' '] ys (by decide) h) hrest⟩

/-- A delimiter is scanned as itself, whatever follows it. -/
theorem Prints.delimiter {lexeme : String} (h : lexeme ∈ delimiters.map Char.toString)
    (ys : List Char) : Prints .free [delimiter lexeme] .free ys := by
  obtain ⟨c, hc, rfl⟩ := List.mem_map.mp h
  have hspelling : spelling .delimiter c.toString = [c] := by simp [spelling]
  refine .token ?_
  rw [hspelling]
  exact .token (.delimiter hc) (by decide) nofun

/-- A bar is scanned as a delimiter, if no other bar follows it. -/
theorem Prints.bar (h : Stops (· == '|') ys) : Prints .free [Print.delimiter "|"] .free ys :=
  .token (.token (.bar h) (by decide) nofun)

/-- Behind a name, anything may come but a dot. -/
theorem Prints.of_name (h : Prints .free its mode ys)
    (hdot : Stops (· == '.') (written its ++ ys)) : Prints .name its mode ys :=
  .of_takes (.unchained hdot) h

/-- An operator between spaces. -/
theorem Prints.operator (h : Operator.kind? lexeme = some kind) (ys : List Char) :
    Prints .free [.token kind lexeme] .free (' ' :: ys) := by
  obtain ⟨hbehind, htype, _⟩ := behind_of_kind? h
  have htakes := Takes.token (spells_operator h ys) htype fun hname => by
    rw [hbehind] at hname
    cases hname
  rw [hbehind] at htakes
  refine .token ?_
  have hspelling : spelling kind lexeme = lexeme.toList := by
    have hkind := isOperator_of_kind? h
    cases kind <;> first | rfl | cases hkind
  rwa [hspelling]

end Print

end RegisterLang
