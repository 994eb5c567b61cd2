import Mathlib.Tactic.Common
import RegisterLang.Token.Scan

/-!
# Lexemes in a text

The tokens of a text, described without a scanner: `Spells` says which text a token is written as
and what may follow it, so that it is as long as possible, and `Takes` says which tokens, blanks and
comments may come next. What may come next depends on what came before: a type follows a register
directly, and the name of a member follows its dot directly.
-/

namespace RegisterLang

namespace Scanner

/-- What holds of all characters of a text is decided along the text, not over all characters. -/
instance (priority := 1100) decidableForallMemText (p : Char → Prop) [DecidablePred p]
    (text : List Char) : Decidable (∀ c ∈ text, p c) :=
  List.decidableBAll p text

/-- What holds of the first character of a text is decided there, not over all characters. -/
instance (priority := 1100) decidableForallMemHead (p : Char → Prop) [DecidablePred p]
    (head : Option Char) : Decidable (∀ c ∈ head, p c) :=
  Option.decidableForallMem head

/-- The text does not go on with a character of the class. -/
def Stops (p : Char → Bool) (ys : List Char) : Prop :=
  ∀ c ∈ ys.head?, p c = false

/-- `Spells kind lexeme text ys`: in front of `ys`, the text `text` is a token of this kind and this
lexeme, and no longer text is. -/
inductive Spells : TokenKind → String → List Char → List Char → Prop where
  | string {quote content ys} :
      isQuote quote → (∀ c ∈ content, c ≠ quote ∧ c ≠ '\n') →
      Spells .string (String.ofList content) (quote :: (content ++ [quote])) ys
  | register {name ys} :
      name ≠ [] → (∀ c ∈ name, isWordChar c) → Stops isWordChar ys →
      Spells .register (String.ofList name) ('$' :: name) ys
  | directive {ys} (d : Directive) :
      Stops isWordChar ys → Spells .directive d.word ('@' :: d.word.toList) ys
  /-- Blanks may stand between the colon and the type. -/
  | typeName {blanks name ys} :
      (∀ c ∈ blanks, Text.isBlank c) → name ≠ [] → (∀ c ∈ name, isTypeChar c) →
      Stops isTypeChar ys → Spells .typeName (String.ofList name) (':' :: (blanks ++ name)) ys
  /-- Digits in front of a dot and another digit are a part of a number, and so is a lone zero in
  front of the letter of a radix. -/
  | integer {digits ys} :
      digits ≠ [] → (∀ c ∈ digits, c.isDigit) → Stops Char.isDigit ys →
      (∀ c zs, ys = '.' :: c :: zs → ¬ c.isDigit) →
      (digits = ['0'] → ∀ c ∈ ys.head?, Radix.ofLetter? c = none) →
      Spells .number (String.ofList digits) digits ys
  | decimal {whole digits ys} :
      whole ≠ [] → (∀ c ∈ whole, c.isDigit) → digits ≠ [] → (∀ c ∈ digits, c.isDigit) →
      Stops Char.isDigit ys →
      Spells .number (String.ofList (whole ++ '.' :: digits)) (whole ++ '.' :: digits) ys
  | radix {letter digits ys} (r : Radix) :
      Radix.ofLetter? letter = some r → digits ≠ [] → (∀ c ∈ digits, r.isDigit c) →
      Stops r.isDigit ys →
      Spells r.kind (String.ofList ('0' :: letter :: digits)) ('0' :: letter :: digits) ys
  | word {name ys} :
      name ≠ [] → (∀ c ∈ name, isWordChar c) → Stops isWordChar ys →
      Spells (wordKind (String.ofList name)) (String.ofList name) name ys
  | delimiter {c ys} : c ∈ delimiters → Spells .delimiter c.toString [c] ys
  /-- Two bars in a row are an operator. -/
  | bar {ys} : Stops (· == '|') ys → Spells .delimiter "|" ['|'] ys
  | operator {kind op ys} :
      Operator.kind? op = some kind →
      (∀ longer kind', Operator.kind? longer = some kind' → longer.toList <+: op.toList ++ ys →
        longer.length ≤ op.length) →
      Spells kind op op.toList ys

/-- A token of this kind and this lexeme can be spelled somewhere. -/
def Spellable (kind : TokenKind) (lexeme : String) : Prop :=
  ∃ text ys, Spells kind lexeme text ys

/-- Where scanning stands, as far as it matters for what may come next. -/
inductive Mode where
  /-- Anything may come next. -/
  | free
  /-- Behind the name of a register, where a type may follow. -/
  | register
  /-- Behind a type, where blanks of any sort may follow. -/
  | type
  /-- Behind a name or a type, where a member may follow. -/
  | name
  /-- Behind the dot of a member. -/
  | dot
  deriving DecidableEq

/-- Where scanning stands behind a token. -/
def Mode.behind : TokenKind → Mode
  | .register => register
  | .identifier | .keyword | .boolean => name
  | _ => free

/-- Behind a word there may be a member. -/
theorem behind_wordKind (word : String) : Mode.behind (wordKind word) = .name := by
  unfold wordKind
  split
  · rfl
  · split <;> rfl

/-- `Takes mode text token mode' ys`: in front of `ys`, the text `text` comes next, and it is the
token, or blanks or a comment if there is none. -/
inductive Takes : Mode → List Char → Option (TokenKind × String) → Mode → List Char → Prop where
  | space {c ys} : isSpace c → Takes .free [c] none .free ys
  /-- A comment goes to the end of its line. -/
  | comment {body ys} :
      (∀ c ∈ body, c ≠ '\n') → Stops (· != '\n') ys → Takes .free ('#' :: body) none .free ys
  /-- Only the name of a member starts with a digit. -/
  | token {kind lexeme text ys} :
      Spells kind lexeme text ys → kind ≠ .typeName →
      (Mode.behind kind = .name → Stops Char.isDigit text) →
      Takes .free text (some (kind, lexeme)) (.behind kind) ys
  | untyped {ys} : Stops (· == ':') ys → Takes .register [] none .name ys
  | typed {lexeme text ys} :
      Spells .typeName lexeme text ys → Takes .register text (some (.typeName, lexeme)) .type ys
  | blanks {text ys} :
      (∀ c ∈ text, Text.isBlank c) → Stops Text.isBlank ys → Takes .type text none .name ys
  | unchained {ys} : Stops (· == '.') ys → Takes .name [] none .free ys
  | dot {ys} : (∃ c ∈ ys.head?, isWordChar c) → Takes .name ['.'] (some (.delimiter, ".")) .dot ys
  | member {lexeme text ys} :
      Spells (wordKind lexeme) lexeme text ys →
      Takes .dot text (some (wordKind lexeme, lexeme)) .name ys

/-- Every token that comes next is written as it is spelled. -/
theorem Takes.spells {mode mode' : Mode} {kind : TokenKind} {lexeme : String}
    {text ys : List Char} (h : Takes mode text (some (kind, lexeme)) mode' ys) :
    Spells kind lexeme text ys := by
  cases h with
  | token hspells | typed hspells | member hspells => exact hspells
  | dot => exact @Spells.delimiter '.' ys (by decide)

/-- `Scans file mode p xs ts`: the text `xs`, from the position `p` on and to its end, holds the
tokens `ts`. -/
inductive Scans (file : String) : Mode → Position → List Char → List Token → Prop where
  | done {p} : Scans file .free p [] []
  | skip {mode mode' p text ys ts} :
      Takes mode text none mode' ys → Scans file mode' (p.afterAll text) ys ts →
      Scans file mode p (text ++ ys) ts
  | token {mode mode' p kind lexeme text ys ts} :
      Takes mode text (some (kind, lexeme)) mode' ys →
      Scans file mode' (p.afterAll text) ys ts →
      Scans file mode p (text ++ ys) (⟨kind, lexeme, p.inFile file⟩ :: ts)

/-! ### Runs of characters -/

/-- Every text starts with a run of a class, maybe an empty one, that does not go on. -/
theorem exists_run (p : Char → Bool) (xs : List Char) :
    ∃ run ys, xs = run ++ ys ∧ (∀ c ∈ run, p c) ∧ Stops p ys := by
  induction xs with
  | nil => exact ⟨[], [], rfl, by simp, by simp [Stops]⟩
  | cons x xs ih =>
    by_cases hx : p x
    · obtain ⟨run, ys, rfl, hrun, hys⟩ := ih
      exact ⟨x :: run, ys, rfl, by simpa [hx] using hrun, hys⟩
    · exact ⟨[], x :: xs, rfl, by simp, by simpa [Stops] using hx⟩

/-- A run of fewer characters ends where one of more does. -/
theorem Stops.of_imp {p q : Char → Bool} {ys : List Char} (h : Stops p ys)
    (hq : ∀ c, q c → p c) : Stops q ys := by
  intro c hc
  by_contra hqc
  rw [Bool.not_eq_false] at hqc
  have hp := h c hc
  rw [hq c hqc] at hp
  cases hp

/-- A run ends in front of a character that is not of its class. -/
theorem stops_cons {p : Char → Bool} {c : Char} {ys : List Char} (h : p c = false) :
    Stops p (c :: ys) := by
  rintro d ⟨⟩
  exact h

/-- A text that starts with a run of a class goes on with no class outside of it. -/
theorem stops_run {p q : Char → Bool} {run : List Char} (hne : run ≠ []) (hrun : ∀ c ∈ run, p c)
    (hq : ∀ c, p c → q c = false) (ys : List Char) : Stops q (run ++ ys) := by
  obtain ⟨first, run, rfl⟩ := List.exists_cons_of_ne_nil hne
  rintro c ⟨⟩
  exact hq first (hrun first List.mem_cons_self)

/-- A run of a class that does not go on is the longest one. -/
theorem takeWhile_append_of_stops {p : Char → Bool} {run ys : List Char} (hrun : ∀ c ∈ run, p c)
    (hys : Stops p ys) : (run ++ ys).takeWhile p = run := by
  rw [List.takeWhile_append_of_pos hrun]
  cases ys with
  | nil => simp
  | cons y ys => simp [hys y rfl]

/-- A text that does not start with a character does not go on with it. -/
theorem stops_of_head?_ne {c : Char} {xs : List Char} (h : xs.head? ≠ some c) :
    Stops (· == c) xs := by
  intro d hd
  rw [beq_eq_false_iff_ne]
  rintro rfl
  exact h hd

/-- No text of a token is empty. -/
theorem Spells.text_ne_nil {kind : TokenKind} {lexeme : String} {text ys : List Char}
    (h : Spells kind lexeme text ys) : text ≠ [] := by
  cases h with
  | integer hne | word hne => exact hne
  | decimal hne => simp
  | operator hkind =>
    intro hnil
    rw [String.toList_eq_nil_iff] at hnil
    rw [hnil, show Operator.kind? "" = none from by decide] at hkind
    cases hkind
  | _ => simp

end Scanner

end RegisterLang
