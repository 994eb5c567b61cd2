import RegisterLang.Grammar.Expression
import RegisterLang.Proofs.Token.Completeness

/-!
# Token lists that come from texts

What a token list tells about the text that it was scanned from: every token can be spelled, and a
name starts with a digit only behind a dot that in turn is behind a name.
-/

namespace RegisterLang.Scanner

/-- Where scanning may stand behind a token, as far as tokens tell it. -/
def Mode.next (mode : Mode) (t : Token) : Mode :=
  if t.isDelimiter "." then
    if mode = .name then .dot else .free
  else if t.kind = .typeName ∨ Mode.behind t.kind ≠ .free then .name
  else .free

/-- The tokens may stand in a text, behind those that lead to the mode. -/
def Lawful : Mode → List Token → Prop
  | _, [] => True
  | mode, t :: ts =>
    Spellable t.kind t.lexeme ∧
      (t.kind = .identifier → mode = .dot ∨ Stops Char.isDigit t.lexeme.toList) ∧
      Lawful (mode.next t) ts

/-- The mode that tokens tell is the mode of scanning where it matters for the next token. -/
structure Mode.Tells (told mode : Mode) : Prop where
  dot : mode = .dot → told = .dot
  name : mode = .name ∨ mode = .register ∨ mode = .type → told = .name

/-- Where anything may come, tokens need not tell anything. -/
theorem Mode.Tells.free (told : Mode) : told.Tells .free :=
  ⟨nofun, by simp⟩

/-- Names and types tell that a name is behind them. -/
theorem Mode.Tells.next {told mode : Mode} {t : Token}
    (hkind : t.kind = .typeName ∨ Mode.behind t.kind ≠ .free) (hne : mode ≠ .dot) :
    (told.next t).Tells mode := by
  refine ⟨fun h => absurd h hne, fun _ => ?_⟩
  rw [Mode.next, if_neg, if_pos hkind]
  intro hdot
  rw [(Token.is_iff.mp hdot).1] at hkind
  revert hkind
  decide

/-- Only a dot leads behind a dot. -/
theorem Mode.next_ne_dot {t : Token} (h : t.isDelimiter "." = false) (mode : Mode) :
    mode.next t ≠ .dot := by
  rw [Mode.next, if_neg (by simp [h])]
  split <;> decide

/-- Only names and types lead behind a name. -/
theorem Mode.of_next_eq_name {t : Token} {mode : Mode} (h : mode.next t = .name) :
    t.kind = .typeName ∨ Mode.behind t.kind ≠ .free := by
  unfold Mode.next at h
  split at h
  · split at h <;> cases h
  · split at h
    · assumption
    · cases h

/-- Only behind a name does a dot lead to a member. -/
theorem Mode.of_next_eq_dot {t : Token} {mode : Mode} (h : mode.next t = .dot) : mode = .name := by
  unfold Mode.next at h
  split at h
  · split at h
    · assumption
    · cases h
  · split at h <;> cases h

/-- No delimiter leads behind a name. -/
theorem Mode.next_ne_name_of_isDelimiter {t : Token} {lexeme : String} (h : t.isDelimiter lexeme)
    (mode : Mode) : mode.next t ≠ .name := by
  intro hname
  have hkind := of_next_eq_name hname
  rw [(Token.is_iff.mp h).1] at hkind
  revert hkind
  decide

/-- The tokens may stand in a text, and no member is expected in front of them. -/
structure Fresh (mode : Mode) (ts : List Token) : Prop where
  ne_dot : mode ≠ .dot
  lawful : Lawful mode ts

section

variable {t : Token} {ts : List Token} {mode : Mode}

/-- Behind a token other than a dot, no member is expected. -/
theorem Lawful.fresh (h : Lawful mode (t :: ts)) (ht : t.isDelimiter "." = false) :
    Fresh (mode.next t) ts :=
  ⟨Mode.next_ne_dot ht mode, h.2.2⟩

/-- Behind a token of a kind other than delimiters, no member is expected. -/
theorem Lawful.fresh_of_kind {kind : TokenKind} (h : Lawful mode (t :: ts)) (ht : t.kind = kind)
    (hne : kind ≠ .delimiter) : Fresh (mode.next t) ts :=
  h.fresh (by simp [Token.isDelimiter, Token.is, ht, hne])

/-- Behind a token with a text of a kind other than delimiters, no member is expected. -/
theorem Lawful.fresh_of_is {kind : TokenKind} {lexeme : String} (h : Lawful mode (t :: ts))
    (ht : t.is kind lexeme) (hne : kind ≠ .delimiter) : Fresh (mode.next t) ts :=
  h.fresh_of_kind (Token.is_iff.mp ht).1 hne

/-- Behind a delimiter other than a dot, no member is expected. -/
theorem Lawful.fresh_of_isDelimiter {lexeme : String} (h : Lawful mode (t :: ts))
    (ht : t.isDelimiter lexeme) (hne : lexeme ≠ ".") : Fresh (mode.next t) ts :=
  h.fresh (by simp [Token.isDelimiter, Token.is, (Token.is_iff.mp ht).2, hne])

/-- Behind an operator in front of an operand, no member is expected. -/
theorem Lawful.fresh_of_isUnary (h : Lawful mode (t :: ts)) (ht : Grammar.isUnary t) :
    Fresh (mode.next t) ts := by
  rcases Grammar.kind_of_isUnary ht with hkind | hkind
  · exact h.fresh_of_kind hkind (by decide)
  · exact h.fresh_of_kind hkind (by decide)

/-- The first token is spelled as one of its kind. -/
theorem Lawful.spellable {kind : TokenKind} (h : Lawful mode (t :: ts)) (ht : t.kind = kind) :
    Spellable kind t.lexeme :=
  ht ▸ h.1

/-- Where no member is expected, an identifier starts with no digit. -/
theorem Fresh.stops_isDigit (h : Fresh mode (t :: ts)) (ht : t.kind = .identifier) :
    Stops Char.isDigit t.lexeme.toList :=
  (h.lawful.2.1 ht).resolve_left h.ne_dot

end

/-- Tokens that are scanned may stand in a text, in the mode that those in front of them tell. -/
theorem lawful_of_scans {file : String} {mode told : Mode} {p : Position} {xs : List Char}
    {ts : List Token} (h : Scans file mode p xs ts) (htold : told.Tells mode) : Lawful told ts := by
  induction h generalizing told with
  | done => trivial
  | skip htakes _ ih =>
    refine ih ?_
    cases htakes with
    | space | comment => exact .free _
    | untyped => exact ⟨nofun, fun _ => htold.name (by simp)⟩
    | blanks => exact ⟨nofun, fun _ => htold.name (by simp)⟩
    | unchained => exact .free _
  | @token mode mode' p kind lexeme text ys ts htakes _ ih =>
    refine ⟨⟨text, ys, htakes.spells⟩, ?_⟩
    cases htakes with
    | token hspells hkind hname =>
      refine ⟨?_, ih ?_⟩
      · rintro (rfl : kind = .identifier)
        rw [(hspells.of_word rfl).2.1, String.toList_ofList]
        exact .inr (hname rfl)
      · by_cases hbehind : Mode.behind kind = .free
        · rw [hbehind]
          exact .free _
        · exact .next (.inr hbehind) (by cases kind <;> decide)
    | typed => exact ⟨nofun, ih (.next (.inl rfl) (by decide))⟩
    | dot =>
      refine ⟨nofun, ih ⟨fun _ => ?_, by simp⟩⟩
      rw [htold.name (.inl rfl)]
      rfl
    | member =>
      refine ⟨fun _ => .inl (htold.dot rfl), ih (.next (.inr ?_) (by decide))⟩
      rw [behind_wordKind]
      decide

/-- All tokens that may stand in a text can be spelled. -/
theorem Lawful.spellable_of_mem {mode : Mode} {ts : List Token} (h : Lawful mode ts) {t : Token}
    (ht : t ∈ ts) : Spellable t.kind t.lexeme := by
  induction ts generalizing mode with
  | nil => cases ht
  | cons u ts ih =>
    rcases List.mem_cons.mp ht with rfl | ht
    · exact h.1
    · exact ih h.2.2 ht

/-- The word of a directive in a text is known. -/
theorem Spellable.ofWord?_ne_none {lexeme : String} (h : Spellable .directive lexeme) :
    Directive.ofWord? lexeme ≠ none := by
  obtain ⟨text, ys, hspells⟩ := h
  generalize hkind : TokenKind.directive = kind at hspells
  cases hspells with
  | directive d =>
    rw [Directive.ofWord?_eq_some_iff.mpr rfl]
    exact Option.some_ne_none d
  | radix r => cases r <;> cases hkind
  | word =>
    have hbehind := congrArg Mode.behind hkind
    rw [behind_wordKind] at hbehind
    cases hbehind
  | operator hop =>
    have hoperator := isOperator_of_kind? hop
    rw [← hkind] at hoperator
    cases hoperator
  | _ => cases hkind

/-- The only reserved word that is no truth value is `return`. -/
theorem wordKind_eq_keyword_iff {word : String} : wordKind word = .keyword ↔ word = "return" := by
  by_cases hboolean : word ∈ booleanWords
  · rw [wordKind, if_pos hboolean]
    constructor
    · nofun
    · rintro rfl
      exact absurd hboolean (by decide)
  · rw [wordKind, if_neg hboolean]
    simp only [booleanWords, reservedWords, List.mem_cons, List.not_mem_nil, or_false] at hboolean ⊢
    by_cases hreturn : word = "return"
    · simp [hreturn]
    · simp [hreturn, hboolean]

/-- The only reserved word that is a token of its own kind in a text is `return`. -/
theorem Spellable.eq_return {lexeme : String} (h : Spellable .keyword lexeme) :
    lexeme = "return" := by
  obtain ⟨text, ys, hspells⟩ := h
  generalize hkind : TokenKind.keyword = kind at hspells
  cases hspells with
  | radix r => cases r <;> cases hkind
  | word => exact wordKind_eq_keyword_iff.mp hkind.symm
  | operator hop =>
    have hoperator := isOperator_of_kind? hop
    rw [← hkind] at hoperator
    cases hoperator
  | _ => cases hkind

/-! ### Whole texts -/

section

variable {source file : String} {tokens : List Token}

/-- The tokens of a text end with the end of the input. -/
theorem ended_of_scan (h : RegisterLang.scan source file = .ok tokens) :
    ∃ last ∈ tokens.getLast?, last.kind = .endOfInput := by
  obtain ⟨ts, rfl, _⟩ := scan_eq_ok_iff.mp h
  exact ⟨_, List.getLast?_concat, rfl⟩

/-- All tokens of a text but the end of the input are spelled in it. -/
theorem spellable_of_scan (h : RegisterLang.scan source file = .ok tokens) {t : Token}
    (ht : t ∈ tokens) (hkind : t.kind ≠ .endOfInput) : Spellable t.kind t.lexeme := by
  obtain ⟨ts, rfl, hscans⟩ := scan_eq_ok_iff.mp h
  rcases List.mem_append.mp ht with ht | ht
  · exact (lawful_of_scans hscans (.free .free)).spellable_of_mem ht
  · rw [List.mem_singleton.mp ht] at hkind
    exact absurd rfl hkind

/-- All directives among the tokens of a text are known. -/
theorem ofWord?_ne_none_of_scan (h : RegisterLang.scan source file = .ok tokens) :
    ∀ t ∈ tokens, t.kind = .directive → Directive.ofWord? t.lexeme ≠ none := by
  intro t ht hkind
  have hspellable := spellable_of_scan h ht (by rw [hkind]; decide)
  rw [hkind] at hspellable
  exact hspellable.ofWord?_ne_none

/-- All keywords among the tokens of a text are `return`. -/
theorem eq_return_of_scan (h : RegisterLang.scan source file = .ok tokens) :
    ∀ t ∈ tokens, t.kind = .keyword → t.lexeme = "return" := by
  intro t ht hkind
  have hspellable := spellable_of_scan h ht (by rw [hkind]; decide)
  rw [hkind] at hspellable
  exact hspellable.eq_return

end

end RegisterLang.Scanner
