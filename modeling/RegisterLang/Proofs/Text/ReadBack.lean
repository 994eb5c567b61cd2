import Mathlib.Algebra.Group.Nat.Defs
import Mathlib.Data.List.Basic
import RegisterLang.Proofs.Text.Quoted

/-!
# Reading escaped and quoted text back

Neither quotes nor the backslashes in front of tags lose anything. Escaped text may be read back
wherever the text behind it completes no tag, and quoted text wherever it stands.
-/

namespace RegisterLang.Text

variable {c d mark : Char} {cs ds xs ys body rest tail : List Char}

/-! ### Escaped text -/

/-- The text that stands escaped in markup, after `slashes` backslashes: in front of tags every pair
of backslashes is one of the text. -/
def readTags (slashes : Nat) : List Char → List Char
  | [] => List.replicate slashes '\\'
  | c :: cs =>
    if c = '\\' then readTags (slashes + 1) cs
    else if c = '[' then
      match h : tag? cs with
      | some (body, rest) =>
        have := length_lt_of_tag? h
        List.replicate (slashes / 2) '\\' ++ '[' :: (body ++ ']' :: readTags 0 rest)
      | none => List.replicate slashes '\\' ++ '[' :: readTags 0 cs
    else List.replicate slashes '\\' ++ c :: readTags 0 cs
termination_by cs => cs.length

/-- A backslash is counted when it is read. -/
theorem readTags_slash (slashes : Nat) (cs : List Char) :
    readTags slashes ('\\' :: cs) = readTags (slashes + 1) cs := by
  rw [readTags, if_pos rfl]

/-- A character that is neither a backslash nor an opening bracket is read with the backslashes in
front of it. -/
theorem readTags_cons (slashes : Nat) (hslash : c ≠ '\\') (hbracket : c ≠ '[') :
    readTags slashes (c :: cs) = List.replicate slashes '\\' ++ c :: readTags 0 cs := by
  rw [readTags, if_neg hslash, if_neg hbracket]

/-- A bare bracket is read with the backslashes in front of it. -/
theorem readTags_bare (slashes : Nat) (h : tag? cs = none) :
    readTags slashes ('[' :: cs) = List.replicate slashes '\\' ++ '[' :: readTags 0 cs := by
  rw [readTags, if_neg (by decide), if_pos rfl]
  split
  · next h' => simp [h] at h'
  · rfl

/-- A tag is read as text. Of the backslashes in front of it, half are read. -/
theorem readTags_tag (slashes : Nat) (h : tag? cs = some (body, rest)) :
    readTags slashes ('[' :: cs) =
      List.replicate (slashes / 2) '\\' ++ '[' :: (body ++ ']' :: readTags 0 rest) := by
  rw [readTags, if_neg (by decide), if_pos rfl]
  split
  · next h' =>
    rw [h] at h'
    cases h'
    rfl
  · next h' => simp [h] at h'

/-- Backslashes in a row are counted when they are read. -/
theorem readTags_replicate_append (slashes n : Nat) (cs : List Char) :
    readTags slashes (List.replicate n '\\' ++ cs) = readTags (slashes + n) cs := by
  induction n generalizing slashes with
  | zero => rfl
  | succ n ih =>
    rw [List.replicate_succ, List.cons_append, readTags_slash, ih, Nat.add_right_comm,
      Nat.add_assoc]

/-- Backslashes in front of a text that stands apart are read, all of them. -/
theorem Apart.readTags_eq (h : Apart tail) (slashes : Nat) :
    readTags slashes tail = List.replicate slashes '\\' ++ readTags 0 tail := by
  cases tail with
  | nil => simp [readTags]
  | cons c cs =>
    obtain rfl := h.eq_space c rfl
    simp [readTags_cons]

/-- What stands escaped in front of other text is read back. -/
theorem readTags_escapeTags_append (htail : Apart tail) (slashes : Nat) (cs : List Char) :
    readTags 0 (escapeTags slashes cs ++ tail) =
      List.replicate slashes '\\' ++ (cs ++ readTags 0 tail) := by
  fun_induction escapeTags slashes cs with
  | case1 slashes =>
    rw [readTags_replicate_append, Nat.zero_add, htail.readTags_eq, List.nil_append]
  | case2 slashes cs ih =>
    rw [ih, List.replicate_succ', List.append_assoc, List.singleton_append, List.cons_append]
  | case3 slashes cs body rest h _ _ ih =>
    obtain ⟨rfl, hbody⟩ := tag?_eq_some_iff.mp h
    have htag : tag? (body ++ ']' :: (escapeTags 0 rest ++ tail)) =
        some (body, escapeTags 0 rest ++ tail) := tag?_eq_some_iff.mpr ⟨rfl, hbody⟩
    simp only [List.append_assoc, List.cons_append]
    rw [readTags_replicate_append, readTags_tag _ htag, ih,
      show (0 + (2 * slashes + 1)) / 2 = slashes by omega]
    rfl
  | case4 slashes cs h _ ih =>
    rw [List.append_assoc, List.cons_append, readTags_replicate_append,
      readTags_bare _ (tag?_escapeTags_append h htail), ih, Nat.zero_add]
    rfl
  | case5 slashes c cs hslash hbracket ih =>
    rw [List.append_assoc, List.cons_append, readTags_replicate_append,
      readTags_cons _ hslash hbracket, ih, Nat.zero_add]
    rfl

/-- A plain text is read as it is, in front of any other text. -/
theorem IsPlain.readTags_append (h : IsPlain cs) (ds : List Char) :
    readTags 0 (cs ++ ds) = cs ++ readTags 0 ds := by
  induction cs with
  | nil => rfl
  | cons c cs ih =>
    obtain ⟨⟨hslash, hbracket⟩, hcs⟩ := List.forall_mem_cons.mp h
    have hne : c ≠ '[' := by rintro rfl; cases hbracket
    rw [List.cons_append, readTags_cons 0 hslash hne, ih hcs]
    rfl

/-- A tag without backslashes in front is read as it is. -/
theorem IsTag.readTags_append (h : IsTag body) (ds : List Char) :
    readTags 0 ('[' :: (body ++ ']' :: ds)) = '[' :: (body ++ ']' :: readTags 0 ds) :=
  readTags_tag 0 (tag?_eq_some_iff.mpr ⟨rfl, h⟩)

/-- Texts that stand escaped side by side are read back, if no two of them hold brackets or
backslashes. -/
theorem readTags_spaced {texts : List (List Char)}
    (htexts : texts.Pairwise fun cs ds => IsPlain cs ∨ IsPlain ds) (htail : Apart tail) :
    readTags 0 (spaced (texts.map (escapeTags 0)) ++ tail) = spaced texts ++ readTags 0 tail := by
  induction texts with
  | nil => rfl
  | cons cs texts ih =>
    obtain ⟨hcs, htexts⟩ := List.pairwise_cons.mp htexts
    simp only [List.map_cons, spaced_cons, List.append_assoc, List.cons_append]
    rw [readTags_cons 0 (by decide) (by decide)]
    by_cases hplain : IsPlain cs
    · rw [hplain.escapeTags_eq, hplain.readTags_append, ih htexts]
      rfl
    · have hrest : ∀ ds ∈ texts, IsPlain ds := fun ds hds => (hcs ds hds).resolve_left hplain
      rw [readTags_escapeTags_append (.spaced_append hrest htail), ih htexts]
      rfl

/-! ### Quoted text -/

/-- The number that a hexadecimal digit stands for. -/
def hexDigitValue (c : Char) : Nat :=
  if c.toNat < 'a'.toNat then c.toNat - '0'.toNat else c.toNat - 'a'.toNat + 10

/-- The number that hexadecimal digits stand for. -/
def hexValue (cs : List Char) : Nat :=
  cs.foldl (fun n c => 16 * n + hexDigitValue c) 0

/-- A hexadecimal digit has the value that it is written for. -/
theorem hexDigitValue_digitChar : ∀ n < 16, hexDigitValue n.digitChar = n := by
  decide

/-- Hexadecimal digits have the value that they are written for, if there are enough of them. -/
theorem hexValue_hexDigits {width n : Nat} (h : n < 16 ^ width) :
    hexValue (hexDigits width n) = n := by
  induction width generalizing n with
  | zero =>
    obtain rfl : n = 0 := by simpa using h
    rfl
  | succ width ih =>
    have hfront : n / 16 < 16 ^ width := by
      rw [Nat.pow_succ] at h
      omega
    have hlast := hexDigitValue_digitChar (n % 16) (Nat.mod_lt n (by decide))
    rw [hexDigits, hexValue, List.foldl_append, ← hexValue, ih hfront, List.foldl_cons, hlast,
      List.foldl_nil]
    omega

/-- The first character of the text that stands in quotes, and what stands behind it. -/
def unquote? : List Char → Option (Char × List Char)
  | '\\' :: c :: cs =>
    if c = 'n' then some ('\n', cs)
    else if c = 'r' then some ('\r', cs)
    else if c = 't' then some ('\t', cs)
    else if c = 'x' then some (.ofNat (hexValue (cs.take 2)), cs.drop 2)
    else if c = 'u' then some (.ofNat (hexValue (cs.take 4)), cs.drop 4)
    else if c = 'U' then some (.ofNat (hexValue (cs.take 8)), cs.drop 8)
    else some (c, cs)
  | c :: cs => some (c, cs)
  | [] => none

/-- A character other than a backslash is read as itself. -/
theorem unquote?_cons (h : c ≠ '\\') : unquote? (c :: cs) = some (c, cs) := by
  unfold unquote?
  split <;> simp_all

/-- An escape with enough digits is read as the character whose digits they are. -/
theorem unquote?_hexDigits {width : Nat} (h : c.toNat < 16 ^ width) (xs : List Char) :
    some (Char.ofNat (hexValue ((hexDigits width c.toNat ++ xs).take width)),
      (hexDigits width c.toNat ++ xs).drop width) = some (c, xs) := by
  have hlength := length_hexDigits width c.toNat
  rw [List.take_left' hlength, List.drop_left' hlength, hexValue_hexDigits h, Char.ofNat_toNat]

/-- The escape of a character is read as the character. -/
theorem unquote?_codePointEscape (c : Char) (xs : List Char) :
    unquote? (codePointEscape c ++ xs) = some (c, xs) := by
  simp only [codePointEscape]
  split
  · next h => exact unquote?_hexDigits h xs
  split
  · next h => exact unquote?_hexDigits h xs
  · have hvalid : c.toNat < 0x110000 := by
      rcases c.valid with h | h
      · exact Nat.lt_trans h (by decide)
      · exact h.2
    exact unquote?_hexDigits (Nat.lt_trans hvalid (by decide)) xs

/-- A quoted character is read as the character. -/
theorem unquote?_quotedChar (hmark : mark = '\'' ∨ mark = '"') (c : Char) (xs : List Char) :
    unquote? (quotedChar mark c ++ xs) = some (c, xs) := by
  rw [quotedChar]
  split
  · next h => subst h; rfl
  split
  · next h => subst h; rcases hmark with rfl | rfl <;> rfl
  split
  · next h => subst h; rfl
  split
  · next h => subst h; rfl
  split
  · next h => subst h; rfl
  split
  · exact unquote?_cons ‹_›
  · exact unquote?_codePointEscape c xs

/-- Inside quotes, no character starts with the quote mark. -/
theorem head?_quotedChar_ne (hmark : mark = '\'' ∨ mark = '"') (c : Char) (xs : List Char) :
    (quotedChar mark c ++ xs).head? ≠ some mark := by
  have hslash : mark ≠ '\\' := by rcases hmark with rfl | rfl <;> decide
  intro h
  obtain ⟨ys, hys⟩ := List.head?_eq_some_iff.mp h
  have hread := unquote?_quotedChar hmark c xs
  rw [hys, unquote?_cons hslash] at hread
  cases hread
  rw [quotedChar, if_neg hslash, if_pos rfl] at hys
  exact hslash (List.cons.inj hys).1.symm

/-- Behind the opening mark, quoted text ends where its mark stands next. -/
theorem flatMap_quotedChar_append_inj (hmark : mark = '\'' ∨ mark = '"')
    (h : cs.flatMap (quotedChar mark) ++ mark :: xs = ds.flatMap (quotedChar mark) ++ mark :: ys) :
    cs = ds ∧ xs = ys := by
  induction cs generalizing ds with
  | nil =>
    cases ds with
    | nil => exact ⟨rfl, (List.cons.inj h).2⟩
    | cons d ds =>
      rw [List.flatMap_cons, List.append_assoc] at h
      exact absurd (congrArg List.head? h).symm (head?_quotedChar_ne hmark d _)
  | cons c cs ih =>
    rw [List.flatMap_cons, List.append_assoc] at h
    cases ds with
    | nil => exact absurd (congrArg List.head? h) (head?_quotedChar_ne hmark c _)
    | cons d ds =>
      have hread := congrArg unquote? h
      rw [List.flatMap_cons, List.append_assoc, unquote?_quotedChar hmark,
        unquote?_quotedChar hmark] at hread
      obtain ⟨rfl, hrest⟩ := Prod.mk.inj (Option.some.inj hread)
      obtain ⟨rfl, hxs⟩ := ih hrest
      exact ⟨rfl, hxs⟩

/-- Text ends where a character stands that it does not hold. -/
theorem append_cons_inj (hcs : c ∉ cs) (hds : c ∉ ds) (h : cs ++ c :: xs = ds ++ c :: ys) :
    cs = ds ∧ xs = ys := by
  have hlength := congrArg (List.idxOf c) h
  rw [List.idxOf_append_of_notMem hcs, List.idxOf_append_of_notMem hds, List.idxOf_cons_self,
    List.idxOf_cons_self] at hlength
  obtain ⟨rfl, hrest⟩ := List.append_inj h hlength
  exact ⟨rfl, (List.cons.inj hrest).2⟩

/-- Quoted text tells where it ends and what it quotes. -/
theorem quotedChars_append_inj (h : quotedChars cs ++ xs = quotedChars ds ++ ys) :
    cs = ds ∧ xs = ys := by
  simp only [quotedChars, List.cons_append, List.append_assoc] at h
  obtain ⟨hmark, hrest⟩ := List.cons.inj h
  rw [← hmark] at hrest
  exact flatMap_quotedChar_append_inj (quoteMark_eq cs) hrest

end RegisterLang.Text
