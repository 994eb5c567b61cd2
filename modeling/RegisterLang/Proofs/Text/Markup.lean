import Mathlib.Data.List.TakeWhile
import RegisterLang.Text.Markup

/-!
# What escaped text shows

A text that stands escaped in markup shows itself, except that a bracket that opens no tag takes
away the backslash in front of it: escaping adds backslashes in front of tags only. The texts that
show themselves whole are those in which every bracket behind a backslash opens a tag.
-/

namespace RegisterLang.Text

/-! ### Tags -/

/-- Brackets bound tags. -/
def isBracket (c : Char) : Bool :=
  c == '[' || c == ']'

/-- The characters between the brackets of a tag. -/
inductive IsTag : List Char → Prop where
  | intro {c : Char} {cs : List Char} (hstart : isTagStart c)
    (hrest : ∀ d ∈ cs, isBracket d = false) : IsTag (c :: cs)

variable {cs ds body rest tail : List Char} {c : Char}

/-- A text without backslashes and brackets. -/
def IsPlain (cs : List Char) : Prop :=
  ∀ c ∈ cs, c ≠ '\\' ∧ isBracket c = false

/-- Whether a text is plain can be decided. -/
instance : Decidable (IsPlain cs) :=
  List.decidableBAll _ cs

/-- There are two brackets, the opening and the closing one. -/
theorem isBracket_iff : isBracket c ↔ c = '[' ∨ c = ']' := by
  simp [isBracket]

/-- No tag starts with another bracket. -/
theorem isBracket_of_isTagStart (h : isTagStart c) : isBracket c = false := by
  refine Bool.eq_false_iff.mpr fun hbracket => ?_
  rcases isBracket_iff.mp hbracket with rfl | rfl <;> exact absurd h (by decide)

/-- There is no bracket in a tag. -/
theorem IsTag.isBracket_eq_false (h : IsTag body) : ∀ d ∈ body, isBracket d = false := by
  obtain ⟨hstart, hrest⟩ := h
  exact List.forall_mem_cons.mpr ⟨isBracket_of_isTagStart hstart, hrest⟩

/-- A plain text behind what may start a tag is a tag. -/
theorem IsPlain.isTag (h : IsPlain cs) (hstart : isTagStart c) : IsTag (c :: cs) :=
  .intro hstart fun d hd => (h d hd).2

/-- There is no opening bracket in a tag. -/
theorem IsTag.ne_bracket (h : IsTag body) : ∀ d ∈ body, d ≠ '[' := by
  rintro d hd rfl
  cases h.isBracket_eq_false _ hd

/-- What is read of a tag is what is no bracket. -/
theorem not_isBracket_eq :
    (fun d => d != '[' && d != ']') = fun d => !isBracket d := by
  funext d
  simp only [isBracket, Bool.not_or, bne]

/-- A tag is read exactly where its characters stand in front of a closing bracket. -/
theorem tag?_eq_some_iff : tag? cs = some (body, rest) ↔ cs = body ++ ']' :: rest ∧ IsTag body := by
  constructor
  · intro h
    cases cs with
    | nil => cases h
    | cons c cs =>
      rw [tag?, not_isBracket_eq] at h
      split at h
      · next hstart =>
        split at h
        · next rest' hrest =>
          cases h
          refine ⟨?_, .intro hstart fun d hd => by simpa using List.mem_takeWhile_imp hd⟩
          rw [List.cons_append, ← hrest, List.takeWhile_append_dropWhile]
        · cases h
      · cases h
  · rintro ⟨rfl, @⟨c, cs, hstart, hrest⟩⟩
    have hrest' : ∀ d ∈ cs, (!isBracket d) = true := fun d hd => by simp [hrest d hd]
    rw [List.cons_append, tag?, if_pos hstart, not_isBracket_eq,
      List.dropWhile_append_of_pos hrest', List.takeWhile_append_of_pos hrest']
    simp [isBracket]

/-- Whether a bracket opens a tag depends on the character behind it and on the next bracket. -/
theorem tag?_cons_eq_none_iff :
    tag? (c :: cs) = none ↔ isTagStart c = false ∨ cs.find? isBracket ≠ some ']' := by
  rw [tag?, not_isBracket_eq, List.find?_eq_head?_dropWhile_not]
  cases isTagStart c with
  | false => simp
  | true => cases cs.dropWhile fun d => !isBracket d <;> grind

/-- The text starts with a bracket that opens no tag. -/
def startsBare : List Char → Bool
  | c :: cs => c == '[' && (tag? cs).isNone
  | [] => false

/-! ### What is shown -/

/-- What characters show that stand escaped in markup. -/
def shownTags : List Char → List Char
  | [] => []
  | c :: cs => if c = '\\' ∧ startsBare cs then shownTags cs else c :: shownTags cs

/-- What a text shows that stands escaped in markup. -/
def shownText (s : String) : String :=
  String.ofList (shownTags s.toList)

/-- A character other than a backslash is shown. -/
theorem shownTags_cons_of_ne (h : c ≠ '\\') : shownTags (c :: cs) = c :: shownTags cs := by
  rw [shownTags, if_neg fun hc => h hc.1]

/-- Text without opening brackets shows itself, if no bare bracket follows. -/
theorem shownTags_append (hcs : ∀ c ∈ cs, c ≠ '[') (hds : startsBare ds = false) :
    shownTags (cs ++ ds) = cs ++ shownTags ds := by
  induction cs with
  | nil => rfl
  | cons c cs ih =>
    have hbare : startsBare (cs ++ ds) = false := by
      cases cs with
      | nil => exact hds
      | cons d cs => simp [startsBare, hcs]
    rw [List.cons_append, shownTags, hbare, if_neg (by simp), ih (List.forall_mem_cons.mp hcs).2,
      List.cons_append]

/-- All backslashes are shown in front of what starts with no bare bracket. -/
theorem shownTags_replicate_append (slashes : Nat) (h : startsBare cs = false) :
    shownTags (List.replicate slashes '\\' ++ cs) =
      List.replicate slashes '\\' ++ shownTags cs :=
  shownTags_append (fun c hc => by rw [List.eq_of_mem_replicate hc]; decide) h

/-- A bare bracket takes away one backslash, however many there are. -/
theorem shownTags_replicate_append_of_startsBare (slashes : Nat) (h : startsBare cs) :
    shownTags (List.replicate slashes '\\' ++ cs) =
      List.replicate (slashes - 1) '\\' ++ shownTags cs := by
  cases slashes with
  | zero => rfl
  | succ slashes =>
    rw [List.replicate_succ', List.append_assoc, shownTags_replicate_append slashes (by rfl)]
    simp [shownTags, h]

/-! ### Escaping, one case at a time -/

/-- A backslash is counted. -/
theorem escapeTags_slash (slashes : Nat) (cs : List Char) :
    escapeTags slashes ('\\' :: cs) = escapeTags (slashes + 1) cs := by
  rw [escapeTags, if_pos rfl]

/-- A character that is neither a backslash nor an opening bracket stays as it is, and so do the
backslashes in front of it. -/
theorem escapeTags_cons (slashes : Nat) (hslash : c ≠ '\\') (hbracket : c ≠ '[') :
    escapeTags slashes (c :: cs) = List.replicate slashes '\\' ++ c :: escapeTags 0 cs := by
  rw [escapeTags, if_neg hslash, if_neg hbracket]

/-- A bare bracket stays as it is, and so do the backslashes in front of it. -/
theorem escapeTags_bare (slashes : Nat) (h : tag? cs = none) :
    escapeTags slashes ('[' :: cs) = List.replicate slashes '\\' ++ '[' :: escapeTags 0 cs := by
  rw [escapeTags, if_neg (by decide), if_pos rfl]
  split
  · next h' => simp [h] at h'
  · rfl

/-- In front of a tag, backslashes are doubled, and one more is put. -/
theorem escapeTags_tag (slashes : Nat) (h : tag? cs = some (body, rest)) :
    escapeTags slashes ('[' :: cs) =
      List.replicate (2 * slashes + 1) '\\' ++ '[' :: (body ++ ']' :: escapeTags 0 rest) := by
  rw [escapeTags, if_neg (by decide), if_pos rfl]
  split
  · next h' =>
    rw [h] at h'
    cases h'
    rfl
  · next h' => simp [h] at h'

/-- A backslash in markup is counted. -/
theorem plainTags_slash (slashes : Nat) (cs : List Char) :
    plainTags slashes ('\\' :: cs) = plainTags (slashes + 1) cs := by
  rw [plainTags, if_pos rfl]

/-- A character in markup that is neither a backslash nor an opening bracket is shown with the
backslashes in front of it. -/
theorem plainTags_cons (slashes : Nat) (hslash : c ≠ '\\') (hbracket : c ≠ '[') :
    plainTags slashes (c :: cs) = List.replicate slashes '\\' ++ c :: plainTags 0 cs := by
  rw [plainTags, if_neg hslash, if_neg hbracket]

/-- A bare bracket in markup is shown with all but one of the backslashes in front of it. -/
theorem plainTags_bare (slashes : Nat) (h : tag? cs = none) :
    plainTags slashes ('[' :: cs) =
      List.replicate (slashes - 1) '\\' ++ '[' :: plainTags 0 cs := by
  rw [plainTags, if_neg (by decide), if_pos rfl]
  split
  · next h' => simp [h] at h'
  · rfl

/-- A tag in markup is shown behind an odd number of backslashes. Of the backslashes, half are
shown. -/
theorem plainTags_tag (slashes : Nat) (h : tag? cs = some (body, rest)) :
    plainTags slashes ('[' :: cs) = List.replicate (slashes / 2) '\\' ++
      ((if slashes % 2 = 1 then '[' :: (body ++ [']']) else []) ++ plainTags 0 rest) := by
  rw [plainTags, if_neg (by decide), if_pos rfl]
  split
  · next h' =>
    rw [h] at h'
    cases h'
    rfl
  · next h' => simp [h] at h'

/-! ### Showing what was escaped -/

/-- Text that completes no tag of the text in front of it: it is empty or starts with a space, and
its first bracket does not close. -/
structure Apart (tail : List Char) : Prop where
  eq_space : ∀ c ∈ tail.head?, c = ' '
  ne_closing : tail.find? isBracket ≠ some ']'

/-- There is no bracket among backslashes. -/
theorem find?_isBracket_replicate (slashes : Nat) :
    (List.replicate slashes '\\').find? isBracket = none :=
  List.find?_eq_none.mpr fun c hc => by rw [List.eq_of_mem_replicate hc]; decide

/-- Escaping leaves the first bracket where it is. -/
theorem find?_escapeTags (slashes : Nat) (cs : List Char) :
    (escapeTags slashes cs).find? isBracket = cs.find? isBracket := by
  fun_induction escapeTags slashes cs with
  | case1 slashes => rw [find?_isBracket_replicate, List.find?_nil]
  | case2 slashes cs ih => rw [ih, List.find?_cons_of_neg (by decide)]
  | case3 slashes cs body rest h _ ih | case4 slashes cs h ih =>
    rw [List.find?_append, find?_isBracket_replicate, Option.none_or,
      List.find?_cons_of_pos (by decide), List.find?_cons_of_pos (by decide)]
  | case5 slashes c cs hslash hbracket ih =>
    rw [List.find?_append, find?_isBracket_replicate, Option.none_or, List.find?_cons,
      List.find?_cons, ih]

/-- Behind a backslash, what is escaped starts with one. -/
theorem head?_escapeTags_succ (slashes : Nat) (cs : List Char) :
    (escapeTags (slashes + 1) cs).head? = some '\\' := by
  generalize hn : slashes + 1 = n
  fun_induction escapeTags n cs generalizing slashes with
  | case2 n cs ih => exact ih n rfl
  | case1 | case3 | case4 | case5 => subst hn; rfl

/-- No tag starts with a character that may not start one. -/
theorem tag?_eq_none_of_head? (h : cs.head? = some c) (hc : isTagStart c = false) :
    tag? cs = none := by
  obtain ⟨ds, rfl⟩ := List.head?_eq_some_iff.mp h
  exact tag?_cons_eq_none_iff.mpr (.inl hc)

/-- Escaping lets no bare bracket open a tag, nor does the text behind. -/
theorem tag?_escapeTags_append (h : tag? cs = none) (htail : Apart tail) :
    tag? (escapeTags 0 cs ++ tail) = none := by
  cases cs with
  | nil =>
    cases tail with
    | nil => simpa [escapeTags] using h
    | cons c cs =>
      obtain rfl := htail.eq_space c rfl
      exact tag?_eq_none_of_head? (by simp [escapeTags]) (by decide : isTagStart ' ' = false)
  | cons c cs =>
    by_cases hslash : c = '\\'
    · subst hslash
      rw [escapeTags_slash]
      exact tag?_eq_none_of_head? (by rw [List.head?_append, head?_escapeTags_succ]; rfl)
        (by decide : isTagStart '\\' = false)
    by_cases hbracket : c = '['
    · subst hbracket
      cases hc : tag? cs with
      | none =>
        rw [escapeTags_bare 0 hc]
        exact tag?_eq_none_of_head? rfl (by decide : isTagStart '[' = false)
      | some tag =>
        rw [escapeTags_tag 0 hc]
        exact tag?_eq_none_of_head? rfl (by decide : isTagStart '\\' = false)
    · -- The character is still the first one, and the next bracket is the one it was.
      rw [escapeTags_cons 0 hslash hbracket, List.replicate_zero, List.nil_append, List.cons_append,
        tag?_cons_eq_none_iff, List.find?_append, find?_escapeTags]
      refine (tag?_cons_eq_none_iff.mp h).imp_right fun hclose => ?_
      cases hfind : cs.find? isBracket with
      | none => exact htail.ne_closing
      | some d => rwa [hfind] at hclose

/-- Backslashes in a row are counted. -/
theorem plainTags_replicate_append (slashes n : Nat) (cs : List Char) :
    plainTags slashes (List.replicate n '\\' ++ cs) = plainTags (slashes + n) cs := by
  induction n generalizing slashes with
  | zero => rfl
  | succ n ih =>
    rw [List.replicate_succ, List.cons_append, plainTags_slash, ih, Nat.add_right_comm,
      Nat.add_assoc]

/-- Backslashes in front of a text that stands apart are shown, all of them. -/
theorem Apart.plainTags_eq (h : Apart tail) (slashes : Nat) :
    plainTags slashes tail = List.replicate slashes '\\' ++ plainTags 0 tail := by
  cases tail with
  | nil => simp [plainTags]
  | cons c cs =>
    obtain rfl := h.eq_space c rfl
    simp [plainTags_cons]

/-- What stands escaped in front of other text shows what the text shows. -/
theorem plainTags_escapeTags_append (htail : Apart tail) (slashes : Nat) (cs : List Char) :
    plainTags 0 (escapeTags slashes cs ++ tail) =
      shownTags (List.replicate slashes '\\' ++ cs) ++ plainTags 0 tail := by
  fun_induction escapeTags slashes cs with
  | case1 slashes =>
    rw [plainTags_replicate_append, Nat.zero_add, htail.plainTags_eq,
      shownTags_replicate_append slashes rfl, shownTags, List.append_nil]
  | case2 slashes cs ih =>
    rw [ih, List.replicate_succ', List.append_assoc, List.singleton_append]
  | case3 slashes cs body rest h _ _ ih =>
    obtain ⟨hcs, hbody⟩ := tag?_eq_some_iff.mp h
    have hbare : startsBare ('[' :: cs) = false := by simp [startsBare, h]
    have htag : tag? (body ++ ']' :: (escapeTags 0 rest ++ tail)) =
        some (body, escapeTags 0 rest ++ tail) := tag?_eq_some_iff.mpr ⟨rfl, hbody⟩
    have hshown : shownTags ('[' :: cs) = '[' :: (body ++ ']' :: shownTags rest) := by
      rw [hcs, shownTags_cons_of_ne (by decide), shownTags_append hbody.ne_bracket rfl,
        shownTags_cons_of_ne (by decide)]
    rw [shownTags_replicate_append slashes hbare, hshown]
    simp only [List.append_assoc, List.cons_append]
    rw [plainTags_replicate_append, plainTags_tag _ htag, ih,
      show (0 + (2 * slashes + 1)) / 2 = slashes by omega, if_pos (by omega)]
    simp
  | case4 slashes cs h _ ih =>
    rw [shownTags_replicate_append_of_startsBare slashes (by simp [startsBare, h]),
      shownTags_cons_of_ne (by decide), List.append_assoc, List.cons_append,
      plainTags_replicate_append, plainTags_bare _ (tag?_escapeTags_append h htail), ih]
    simp
  | case5 slashes c cs hslash hbracket ih =>
    have hbare : startsBare (c :: cs) = false := by simp [startsBare, hbracket]
    rw [shownTags_replicate_append slashes hbare, shownTags_cons_of_ne hslash, List.append_assoc,
      List.cons_append, plainTags_replicate_append, plainTags_cons _ hslash hbracket, ih]
    simp

/-- Escaping leaves the last character as it is. -/
theorem getLast?_escapeTags (slashes : Nat) (cs : List Char) :
    (escapeTags slashes cs).getLast? = (List.replicate slashes '\\' ++ cs).getLast? := by
  fun_induction escapeTags slashes cs with
  | case1 slashes => rw [List.append_nil]
  | case2 slashes cs ih => rw [ih, List.replicate_succ', List.append_assoc, List.singleton_append]
  | case3 slashes cs body rest h _ _ ih =>
    obtain ⟨rfl, -⟩ := tag?_eq_some_iff.mp h
    rw [List.replicate_zero, List.nil_append] at ih
    simp only [List.getLast?_append, List.getLast?_cons, ih]
    simp
  | case4 slashes cs h _ ih | case5 slashes c cs hslash hbracket ih =>
    rw [List.replicate_zero, List.nil_append] at ih
    rw [List.getLast?_append, List.getLast?_append, List.getLast?_cons, List.getLast?_cons, ih]

/-- Only a text that ends in a backslash gets one at its end. -/
theorem escapeMarkup_eq {s : String} (h : s.toList.getLast? ≠ some '\\') :
    escapeMarkup s = String.ofList (escapeTags 0 s.toList) := by
  have hlast : (escapeTags 0 s.toList).reverse.head? ≠ some '\\' := by
    rwa [List.head?_reverse, getLast?_escapeTags]
  rw [escapeMarkup, closeSlash]
  split
  · rfl
  · next heq => rw [heq] at hlast; exact absurd rfl hlast
  · rfl

/-! ### Several texts -/

/-- Two texts are plain together if both are. -/
theorem isPlain_append_iff : IsPlain (cs ++ ds) ↔ IsPlain cs ∧ IsPlain ds :=
  List.forall_mem_append

/-- There is no bracket in a plain text. -/
theorem IsPlain.find?_isBracket (h : IsPlain cs) : cs.find? isBracket = none :=
  List.find?_eq_none.mpr fun c hc => by simp [(h c hc).2]

/-- A plain text is shown as it is, in front of any other text. -/
theorem IsPlain.plainTags_append (h : IsPlain cs) :
    plainTags 0 (cs ++ ds) = cs ++ plainTags 0 ds := by
  induction cs with
  | nil => rfl
  | cons c cs ih =>
    obtain ⟨⟨hslash, hbracket⟩, hcs⟩ := List.forall_mem_cons.mp h
    have hne : c ≠ '[' := by rintro rfl; cases hbracket
    rw [List.cons_append, plainTags_cons 0 hslash hne, ih hcs]
    rfl

/-- A plain text between two tags shows without them. -/
theorem IsPlain.plainTags_styled {opening closing : List Char} (hopening : IsTag opening)
    (hclosing : IsTag closing) (h : IsPlain cs) :
    plainTags 0 ('[' :: (opening ++ ']' :: (cs ++ '[' :: (closing ++ ']' :: ds)))) =
      cs ++ plainTags 0 ds := by
  rw [plainTags_tag 0 (tag?_eq_some_iff.mpr ⟨rfl, hopening⟩)]
  show plainTags 0 _ = _
  rw [h.plainTags_append, plainTags_tag 0 (tag?_eq_some_iff.mpr ⟨rfl, hclosing⟩)]
  rfl

/-- A plain text stands in markup as it is. -/
theorem IsPlain.escapeTags_eq (h : IsPlain cs) : escapeTags 0 cs = cs := by
  induction cs with
  | nil => simp [escapeTags]
  | cons c cs ih =>
    obtain ⟨⟨hslash, hbracket⟩, hcs⟩ := List.forall_mem_cons.mp h
    have hne : c ≠ '[' := by rintro rfl; cases hbracket
    rw [escapeTags_cons 0 hslash hne, ih hcs]
    rfl

/-- A plain text that stands in markup shows itself. -/
theorem IsPlain.shownTags_eq (h : IsPlain cs) : shownTags cs = cs := by
  have hne : ∀ c ∈ cs, c ≠ '[' := by
    rintro c hc rfl
    cases (h _ hc).2
  simpa [shownTags] using shownTags_append hne (rfl : startsBare [] = false)

/-- Texts side by side, each behind a space. -/
def spaced (texts : List (List Char)) : List Char :=
  texts.flatMap (' ' :: ·)

variable {texts : List (List Char)}

/-- The first of the texts stands behind a space. -/
theorem spaced_cons : spaced (cs :: texts) = ' ' :: (cs ++ spaced texts) :=
  rfl

/-- Texts with spaces in front of them stand one after the other. -/
theorem spaced_append (texts₁ texts₂ : List (List Char)) :
    spaced (texts₁ ++ texts₂) = spaced texts₁ ++ spaced texts₂ :=
  List.flatMap_append

/-- Texts with spaces between them are the first one and the others with spaces in front of them. -/
theorem intercalate_cons : [' '].intercalate (cs :: texts) = cs ++ spaced texts := by
  induction texts generalizing cs with
  | nil => simp [spaced]
  | cons ds texts ih =>
    rw [List.intercalate_cons_cons, ih, spaced_cons, List.append_assoc, List.singleton_append]

/-- What texts show is what their characters show. -/
theorem map_toList_shownText (texts : List String) :
    (texts.map shownText).map String.toList = (texts.map String.toList).map shownTags := by
  simp [shownText]

/-- Plain texts behind spaces stand apart, if what follows them does. -/
theorem Apart.spaced_append (htexts : ∀ cs ∈ texts, IsPlain cs) (htail : Apart tail) :
    Apart (spaced (texts.map (escapeTags 0)) ++ tail) := by
  induction texts with
  | nil => exact htail
  | cons cs texts ih =>
    obtain ⟨hcs, htexts⟩ := List.forall_mem_cons.mp htexts
    refine ⟨by simp [spaced_cons], ?_⟩
    rw [List.map_cons, spaced_cons, List.cons_append, List.find?_cons_of_neg (by decide),
      List.append_assoc, List.find?_append, find?_escapeTags, hcs.find?_isBracket, Option.none_or]
    exact (ih htexts).ne_closing

/-- Texts that stand escaped side by side show what each of them shows, if no two of them hold
brackets or backslashes. -/
theorem plainTags_spaced (htexts : texts.Pairwise fun cs ds => IsPlain cs ∨ IsPlain ds)
    (htail : Apart tail) :
    plainTags 0 (spaced (texts.map (escapeTags 0)) ++ tail) =
      spaced (texts.map shownTags) ++ plainTags 0 tail := by
  induction texts with
  | nil => rfl
  | cons cs texts ih =>
    obtain ⟨hcs, htexts⟩ := List.pairwise_cons.mp htexts
    simp only [List.map_cons, spaced_cons, List.append_assoc, List.cons_append]
    rw [plainTags_cons 0 (by decide) (by decide)]
    by_cases hplain : IsPlain cs
    · rw [hplain.escapeTags_eq, hplain.plainTags_append, ih htexts, hplain.shownTags_eq]
      rfl
    · have hrest : ∀ ds ∈ texts, IsPlain ds := fun ds hds => (hcs ds hds).resolve_left hplain
      rw [plainTags_escapeTags_append (.spaced_append hrest htail), ih htexts]
      rfl

/-! ### Texts that are shown whole -/

/-- Every bracket behind a backslash opens a tag. -/
def KeepsSlashes (cs : List Char) : Prop :=
  ∀ front back, cs = front ++ '\\' :: '[' :: back → tag? back ≠ none

/-- An empty text keeps its backslashes. -/
theorem keepsSlashes_nil : KeepsSlashes [] := by
  intro front back h
  simp at h

/-- A text starts with a bare bracket if it is one in front of what completes no tag. -/
theorem startsBare_eq_true_iff : startsBare cs ↔ ∃ back, cs = '[' :: back ∧ tag? back = none := by
  cases cs <;> simp [startsBare, and_assoc]

/-- A text keeps its backslashes if no bare bracket follows the first of its characters when that is
one, and the others keep theirs. -/
theorem keepsSlashes_cons_iff :
    KeepsSlashes (c :: cs) ↔ ¬(c = '\\' ∧ startsBare cs) ∧ KeepsSlashes cs := by
  refine ⟨fun h => ⟨?_, fun front back hcs => h (c :: front) back (by rw [hcs, List.cons_append])⟩,
    fun ⟨hc, hcs⟩ front back h => ?_⟩
  · rintro ⟨rfl, hbare⟩
    obtain ⟨back, rfl, hback⟩ := startsBare_eq_true_iff.mp hbare
    exact h [] back rfl hback
  · cases front with
    | nil =>
      obtain ⟨rfl, rfl⟩ := List.cons.inj h
      exact fun hback => hc ⟨rfl, startsBare_eq_true_iff.mpr ⟨back, rfl, hback⟩⟩
    | cons d front => exact hcs front back (List.cons.inj h).2

/-- Characters in front that are no backslashes do not matter to those that are kept. -/
theorem keepsSlashes_append_iff_of_forall_ne (h : ∀ d ∈ ds, d ≠ '\\') :
    KeepsSlashes (ds ++ cs) ↔ KeepsSlashes cs := by
  induction ds with
  | nil => rfl
  | cons d ds ih =>
    obtain ⟨hd, hds⟩ := List.forall_mem_cons.mp h
    rw [List.cons_append, keepsSlashes_cons_iff, and_iff_right fun hc => hd hc.1, ih hds]

/-- No text shows more than itself. -/
theorem length_shownTags_le (cs : List Char) : (shownTags cs).length ≤ cs.length := by
  induction cs with
  | nil => rfl
  | cons c cs ih =>
    rw [shownTags]
    split
    · exact Nat.le_succ_of_le ih
    · exact Nat.succ_le_succ ih

/-- Escaped text shows itself exactly if every bracket behind a backslash opens a tag. -/
theorem shownTags_eq_self_iff : shownTags cs = cs ↔ KeepsSlashes cs := by
  induction cs with
  | nil => exact iff_of_true rfl keepsSlashes_nil
  | cons c cs ih =>
    rw [shownTags, keepsSlashes_cons_iff]
    split
    · next hbare =>
      refine iff_of_false (fun h => ?_) fun h => h.1 hbare
      have hle := length_shownTags_le cs
      rw [h, List.length_cons] at hle
      omega
    · next hbare => rw [List.cons_inj_right, ih, and_iff_right hbare]

/-- Whether a text keeps its backslashes can be decided. -/
instance : Decidable (KeepsSlashes cs) :=
  decidable_of_iff _ shownTags_eq_self_iff

/-- Texts side by side show themselves exactly if each one does. -/
theorem spaced_shownTags_eq_iff : spaced (texts.map shownTags) ++ ds = spaced texts ++ ds ↔
    ∀ cs ∈ texts, KeepsSlashes cs := by
  have hle (texts : List (List Char)) :
      (spaced (texts.map shownTags)).length ≤ (spaced texts).length := by
    induction texts with
    | nil => exact Nat.le_refl _
    | cons cs texts ih =>
      have hcs := length_shownTags_le cs
      simp only [List.map_cons, spaced_cons, List.length_cons, List.length_append]
      omega
  rw [List.append_left_inj]
  induction texts with
  | nil => simp
  | cons cs texts ih =>
    rw [List.forall_mem_cons, ← shownTags_eq_self_iff, List.map_cons, spaced_cons, spaced_cons,
      List.cons_inj_right]
    refine Iff.trans ⟨fun h => ?_, fun ⟨hcs, htexts⟩ => by rw [hcs, htexts]⟩ (and_congr_right' ih)
    -- Neither side is longer in any of its parts, so equal lengths make the parts equal.
    have hlength := congrArg List.length h
    have hcs := length_shownTags_le cs
    have htexts := hle texts
    simp only [List.length_append] at hlength
    exact List.append_inj h (by omega)

end RegisterLang.Text
