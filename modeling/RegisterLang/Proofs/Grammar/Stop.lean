import RegisterLang.Proofs.Grammar.Derivation

/-!
# Statements that are stopped

A semicolon or a closing brace stops a statement. No expression ends with one, so a statement that
ends with one is complete, whatever follows it.
-/

namespace RegisterLang.Grammar

variable {α : Type} {mark : Token → α} {apart : Token → Prop} {n : Nat} {phrase : Phrase α}
  {front xs ys zs : List Token} {last : Token}

/-- The token stops a statement. -/
def isStop (token : Token) : Bool :=
  token.isDelimiter ";" || token.isDelimiter closingBrace

/-- If anything is taken from `xs` in front of `ys`, the last token of it is a stop. -/
def Stopped (xs ys : List Token) : Prop :=
  ∀ taken last, xs = taken ++ last :: ys → isStop last

/-- Tokens that are stopped are so from any of them on. -/
theorem Stopped.of_suffix (h : Stopped xs ys) (hsuffix : zs <:+ xs) : Stopped zs ys := by
  rintro taken last rfl
  obtain ⟨front, rfl⟩ := hsuffix
  exact h (front ++ taken) last (by rw [List.append_assoc])

/-- Only a delimiter is a stop. -/
theorem not_isStop_of_kind {token : Token} (h : token.kind ≠ .delimiter) : ¬ isStop token := by
  simp [isStop, Token.isDelimiter, Token.is, h]

/-- A delimiter other than the two is no stop. -/
theorem not_isStop_of_isDelimiter {token : Token} {d : String} (h : token.isDelimiter d)
    (hd : d ≠ ";" ∧ d ≠ closingBrace) : ¬ isStop token := by
  obtain ⟨_, hlexeme⟩ := Token.is_iff.mp h
  simp [isStop, Token.isDelimiter, Token.is, hlexeme, hd]

/-- What is taken from `xs` in front of `ys` ends with a token that is no stop. -/
def Unstopped (xs ys : List Token) : Prop :=
  ∃ taken last, xs = taken ++ last :: ys ∧ ¬ isStop last

/-- Tokens do not end with a stop and without one. -/
theorem Unstopped.not_stopped (h : Unstopped xs ys) : ¬ Stopped xs ys := by
  obtain ⟨taken, last, htaken, hlast⟩ := h
  exact fun hstopped => hlast (hstopped taken last htaken)

/-- Tokens that end with no stop do so with others in front. -/
theorem Unstopped.of_suffix (h : Unstopped zs ys) (hsuffix : zs <:+ xs) : Unstopped xs ys := by
  obtain ⟨taken, last, rfl, hlast⟩ := h
  obtain ⟨front, rfl⟩ := hsuffix
  exact ⟨front ++ taken, last, by rw [List.append_assoc], hlast⟩

/-- A token in front of what follows is the last one that is taken. -/
theorem unstopped_of_suffix (h : last :: ys <:+ xs) (hlast : ¬ isStop last) : Unstopped xs ys := by
  obtain ⟨taken, rfl⟩ := h
  exact ⟨taken, last, rfl, hlast⟩

/-- A phrase that is an expression or a part of one. -/
def Phrase.isExpression : Phrase α → Bool
  | expression _ | binary _ _ | operand _ | suffixed _ | primary _ => true
  | _ => false

/-- No expression ends with a stop. -/
theorem Derives.unstopped (h : Derives mark apart n phrase xs ys)
    (hexpression : phrase.isExpression) : Unstopped xs ys := by
  induction h with
  | value _ ih | single _ ih | plain _ ih | bare _ ih => exact ih rfl
  | assignment hleft _ _ _ ih | binary _ _ _ hleft _ _ ih =>
    exact (ih rfl).of_suffix ((List.suffix_cons _ _).trans hleft.suffix)
  | unary _ _ ih => exact (ih rfl).of_suffix (List.suffix_cons _ _)
  | call hcallee _ hargs hclosing =>
    refine unstopped_of_suffix ?_ (not_isStop_of_isDelimiter hclosing (by decide))
    exact hargs.suffix.trans ((List.suffix_cons _ _).trans hcallee.suffix)
  | member hobject _ hname =>
    refine unstopped_of_suffix ?_ (not_isStop_of_kind (by rw [hname]; decide))
    exact (List.suffix_cons _ _).trans hobject.suffix
  | literal hkind =>
    refine unstopped_of_suffix List.suffix_rfl (not_isStop_of_kind ?_)
    intro hdelimiter
    rw [hdelimiter] at hkind
    cases hkind
  | identifier hkind | register hkind =>
    exact unstopped_of_suffix List.suffix_rfl (not_isStop_of_kind (by rw [hkind]; decide))
  | parenthesized _ hcontent hclosing =>
    refine unstopped_of_suffix ?_ (not_isStop_of_isDelimiter hclosing (by decide))
    exact hcontent.suffix.trans (List.suffix_cons _ _)
  | _ => cases hexpression

end RegisterLang.Grammar
