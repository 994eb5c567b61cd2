import RegisterLang.Proofs.Text.Markup
import RegisterLang.Text.Quoted

/-!
# Quoted text in markup

Quotes neither add nor take away a bracket behind a backslash: a backslash becomes two, and what may
stand in a tag's place has no escape.
-/

namespace RegisterLang.Text

variable {c : Char} {cs ds : List Char}

/-! ### Characters in quotes -/

/-- The characters from the blank up to the tilde are printable. -/
theorem isPrintable_of_ascii (hlow : 0x20 ≤ c.toNat) (hhigh : c.toNat < 0x7F) : isPrintable c := by
  show (!inRanges ((0x0, 0x1F) :: (0x7F, 0xA0) :: _) c.toNat) = true
  rw [inRanges, inRanges, if_neg (Nat.not_lt_zero _), if_pos hhigh, Bool.or_false,
    decide_eq_false (by omega)]
  rfl

/-- Brackets and what may start a tag are printable. -/
theorem isPrintable_of_isBracket_or_isTagStart (h : isBracket c ∨ isTagStart c) :
    isPrintable c := by
  have hascii : 0x20 ≤ c.toNat ∧ c.toNat < 0x7F := by
    simp only [isBracket, isTagStart, Bool.or_eq_true, Bool.and_eq_true, beq_iff_eq,
      decide_eq_true_eq] at h
    rcases h with (rfl | rfl) | ((⟨hlow, hhigh⟩ | rfl) | rfl) | rfl
    case inr.inl.inl.inl =>
      exact ⟨Nat.le_trans (by decide) hlow, Nat.lt_of_le_of_lt hhigh (by decide)⟩
    all_goals decide
  exact isPrintable_of_ascii hascii.1 hascii.2

/-- What may stand in quotes for a character. -/
inductive StandsFor (c : Char) : List Char → Prop where
  | self (hslash : c ≠ '\\') : StandsFor c [c]
  | doubled (hslash : c = '\\') : StandsFor c ['\\', '\\']
  /-- An escape holds neither another backslash nor a bracket. -/
  | escape {d : Char} {ds : List Char} (hslash : c ≠ '\\') (hbracket : isBracket c = false)
    (hstart : isTagStart c = false) (hds : IsPlain (d :: ds)) :
    StandsFor c ('\\' :: d :: ds)

/-- A hexadecimal digit is neither a backslash nor a bracket. -/
theorem mem_hexDigits {width n : Nat} (h : c ∈ hexDigits width n) :
    c ≠ '\\' ∧ isBracket c = false := by
  have hdigit : ∀ k < 16, k.digitChar ≠ '\\' ∧ isBracket k.digitChar = false := by decide
  induction width generalizing n with
  | zero => cases h
  | succ width ih =>
    rcases List.mem_append.mp h with h | h
    · exact ih h
    · rw [List.mem_singleton.mp h]
      exact hdigit _ (Nat.mod_lt n (by decide))

variable {mark : Char}

/-- The escape of what is not printable stands for it. -/
theorem standsFor_codePointEscape (hslash : c ≠ '\\') (h : isPrintable c = false) :
    StandsFor c (codePointEscape c) := by
  have hplain : ¬(isBracket c ∨ isTagStart c) := fun hc => by
    simp [isPrintable_of_isBracket_or_isTagStart hc] at h
  simp only [not_or, Bool.not_eq_true] at hplain
  obtain ⟨hbracket, hstart⟩ := hplain
  have hescape (d : Char) (hd : d ≠ '\\' ∧ isBracket d = false) (width : Nat) :
      StandsFor c ('\\' :: d :: hexDigits width c.toNat) :=
    .escape hslash hbracket hstart (List.forall_mem_cons.mpr ⟨hd, fun _ => mem_hexDigits⟩)
  simp only [codePointEscape]
  split
  · exact hescape 'x' (by decide) 2
  split
  · exact hescape 'u' (by decide) 4
  · exact hescape 'U' (by decide) 8

/-- What a character is quoted as stands for it. -/
theorem standsFor_quotedChar (hmark : mark = '\'' ∨ mark = '"') (c : Char) :
    StandsFor c (quotedChar mark c) := by
  rw [quotedChar]
  split
  · next h => exact .doubled h
  split
  · next h =>
    subst h
    rcases hmark with rfl | rfl <;> exact .escape (by decide) (by decide) (by decide) (by decide)
  split
  · next h => subst h; exact .escape (by decide) (by decide) (by decide) (by decide)
  split
  · next h => subst h; exact .escape (by decide) (by decide) (by decide) (by decide)
  split
  · next h => subst h; exact .escape (by decide) (by decide) (by decide) (by decide)
  split
  · exact .self ‹_›
  · next hslash _ _ _ _ h => exact standsFor_codePointEscape hslash (by simpa using h)

/-! ### Texts in quotes -/

/-- What stands for a character has the same first bracket as the character. -/
theorem StandsFor.find?_isBracket (h : StandsFor c ds) :
    ds.find? isBracket = [c].find? isBracket := by
  cases h with
  | self _ => rfl
  | doubled hslash => rw [hslash]; rfl
  | escape _ hbracket _ hds =>
    rw [List.find?_cons_of_neg (by decide), List.find?_eq_none.mpr fun e he => by simp [hds e he],
      List.find?_cons_of_neg (by simp [hbracket]), List.find?_nil]

/-- Quotes leave the first bracket where it is. -/
theorem find?_quoted (hmark : mark = '\'' ∨ mark = '"') (cs : List Char) :
    (cs.flatMap (quotedChar mark) ++ [mark]).find? isBracket = cs.find? isBracket := by
  induction cs with
  | nil => rcases hmark with rfl | rfl <;> rfl
  | cons c cs ih =>
    rw [List.flatMap_cons, List.append_assoc, List.find?_append, ih,
      (standsFor_quotedChar hmark c).find?_isBracket, ← List.find?_append, List.singleton_append]

/-- A bracket opens a tag inside quotes if it does so without them. -/
theorem tag?_quoted_eq_none_iff (hmark : mark = '\'' ∨ mark = '"') (cs : List Char) :
    tag? (cs.flatMap (quotedChar mark) ++ [mark]) = none ↔ tag? cs = none := by
  cases cs with
  | nil =>
    refine iff_of_true ?_ rfl
    rcases hmark with rfl | rfl <;> exact tag?_eq_none_of_head? rfl (by decide)
  | cons c cs =>
    have hstands := standsFor_quotedChar hmark c
    rw [List.flatMap_cons, List.append_assoc]
    generalize quotedChar mark c = ds at hstands
    cases hstands with
    | self _ =>
      rw [List.singleton_append, tag?_cons_eq_none_iff, tag?_cons_eq_none_iff,
        find?_quoted hmark cs]
    | doubled hslash =>
      subst hslash
      exact iff_of_true (tag?_eq_none_of_head? rfl (by decide : isTagStart '\\' = false))
        (tag?_eq_none_of_head? rfl (by decide : isTagStart '\\' = false))
    | escape _ _ hstart _ =>
      exact iff_of_true (tag?_eq_none_of_head? rfl (by decide : isTagStart '\\' = false))
        (tag?_eq_none_of_head? rfl hstart)

/-- A quoted text starts with a bare bracket exactly if the text does. -/
theorem startsBare_quoted (hmark : mark = '\'' ∨ mark = '"') (cs : List Char) :
    startsBare (cs.flatMap (quotedChar mark) ++ [mark]) = startsBare cs := by
  cases cs with
  | nil => rcases hmark with rfl | rfl <;> rfl
  | cons c cs =>
    have hstands := standsFor_quotedChar hmark c
    rw [List.flatMap_cons, List.append_assoc]
    generalize quotedChar mark c = ds at hstands
    cases hstands with
    | self _ =>
      rw [List.singleton_append, startsBare, startsBare, Bool.eq_iff_iff]
      simp only [Bool.and_eq_true, Option.isNone_iff_eq_none, tag?_quoted_eq_none_iff hmark]
    | doubled hslash => rw [hslash]; rfl
    | escape _ hbracket _ _ =>
      have hne : c ≠ '[' := by rintro rfl; cases hbracket
      simp [startsBare, hne]

/-- A quoted text keeps its backslashes exactly if the text does. -/
theorem keepsSlashes_quoted_iff (hmark : mark = '\'' ∨ mark = '"') (cs : List Char) :
    KeepsSlashes (cs.flatMap (quotedChar mark) ++ [mark]) ↔ KeepsSlashes cs := by
  induction cs with
  | nil =>
    refine iff_of_true ?_ keepsSlashes_nil
    rcases hmark with rfl | rfl <;> exact keepsSlashes_cons_iff.mpr ⟨by decide, keepsSlashes_nil⟩
  | cons c cs ih =>
    have hstands := standsFor_quotedChar hmark c
    rw [List.flatMap_cons, List.append_assoc]
    generalize quotedChar mark c = ds at hstands
    cases hstands with
    | self hslash =>
      rw [List.singleton_append, keepsSlashes_cons_iff, keepsSlashes_cons_iff, ih,
        and_iff_right fun h => hslash h.1, and_iff_right fun h => hslash h.1]
    | doubled hslash =>
      -- The second backslash stands in front of what the only one stood in front of.
      rw [hslash, List.cons_append, List.singleton_append, keepsSlashes_cons_iff,
        and_iff_right (by simp [startsBare]), keepsSlashes_cons_iff, keepsSlashes_cons_iff, ih,
        startsBare_quoted hmark]
    | @escape d ds hslash _ _ hds =>
      have hd : d ≠ '[' := by rintro rfl; cases (hds _ List.mem_cons_self).2
      rw [List.cons_append, keepsSlashes_cons_iff, and_iff_right (by simp [startsBare, hd]),
        keepsSlashes_append_iff_of_forall_ne fun e he => (hds e he).1, ih, keepsSlashes_cons_iff,
        and_iff_right fun h => hslash h.1]

/-- A text is quoted in single or in double marks. -/
theorem quoteMark_eq (cs : List Char) : quoteMark cs = '\'' ∨ quoteMark cs = '"' := by
  rw [quoteMark]
  split
  · exact .inr rfl
  · exact .inl rfl

/-- Quotes neither protect nor harm the backslashes of a text. -/
theorem keepsSlashes_quotedChars_iff (cs : List Char) :
    KeepsSlashes (quotedChars cs) ↔ KeepsSlashes cs := by
  have hmark := quoteMark_eq cs
  have hne : quoteMark cs ≠ '\\' := by rcases hmark with h | h <;> rw [h] <;> decide
  rw [quotedChars, keepsSlashes_cons_iff, and_iff_right fun h => hne h.1,
    keepsSlashes_quoted_iff hmark]

end RegisterLang.Text
