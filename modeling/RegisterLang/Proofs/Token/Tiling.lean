import RegisterLang.Proofs.Token.Place
import RegisterLang.Proofs.Token.Soundness

/-!
# The tokens tile the text

Every character of a text that is scanned belongs to one token or to the blanks and comments between
two tokens, in the order of the text.
-/

namespace RegisterLang.Scanner

/-- The characters of a text from one offset to another. -/
def slice (source : List Char) (start stop : Nat) : List Char :=
  (source.take stop).drop start

/-- `Gap mode text mode' ys`: in front of `ys`, the text `text` holds spaces and comments only, or,
behind a type, first a run of blanks of any sort. -/
inductive Gap : Mode → List Char → Mode → List Char → Prop where
  | nothing {mode ys} : Gap mode [] mode ys
  | more {mode mode' mode'' text text' ys} :
      Takes mode text none mode' (text' ++ ys) → Gap mode' text' mode'' ys →
      Gap mode (text ++ text') mode'' ys

/-- The tokens tile the source from the offset `n` on. Each one starts at its own offset `o` and
stops at an offset `e`; it is written there, and only a gap is in front of it. Behind the last one
there is only a gap, too. -/
def Tiles (file : String) (source : List Char) : Mode → Nat → List Token → Prop
  | mode, n, [] => Gap mode (source.drop n) .free []
  | mode, n, t :: ts =>
    ∃ o e mode' mode'', n ≤ o ∧ o < e ∧ e ≤ source.length ∧
      t.location = placeAt file source o ∧
      Gap mode (slice source n o) mode' (source.drop o) ∧
      Takes mode' (slice source o e) (some (t.kind, t.lexeme)) mode'' (source.drop e) ∧
      Spells t.kind t.lexeme (slice source o e) (source.drop e) ∧
      Tiles file source mode'' e ts

section

variable {source text ys : List Char} {n : Nat}

/-- What is left behind the front of the text that is left. -/
theorem drop_add_length (h : source.drop n = text ++ ys) :
    source.drop (n + text.length) = ys := by
  rw [← List.drop_drop, h, List.drop_left]

/-- The front of the text that is left is a slice. -/
theorem slice_add_length (h : source.drop n = text ++ ys) :
    slice source n (n + text.length) = text := by
  rw [slice, List.drop_take, h, Nat.add_sub_cancel_left, List.take_left]

/-- A slice is the front of the text that is left, and the slice behind it. -/
theorem slice_of_drop {o : Nat} (h : source.drop n = text ++ ys) (ho : n + text.length ≤ o) :
    slice source n o = text ++ slice source (n + text.length) o := by
  rw [slice, slice, List.drop_take, List.drop_take, h, drop_add_length h, List.take_append,
    List.take_of_length_le (by omega)]
  congr 2
  omega

/-- A slice and what is left behind it are what is left in front of it. -/
theorem slice_append_drop {o : Nat} (ho : n ≤ o) :
    slice source n o ++ source.drop o = source.drop n := by
  obtain ⟨k, rfl⟩ := Nat.exists_eq_add_of_le ho
  rw [slice, List.drop_take, Nat.add_sub_cancel_left, ← List.drop_drop, List.take_append_drop]

/-- The position behind the front of the text that is left. -/
theorem afterAll_take_add_length (h : source.drop n = text ++ ys) :
    Position.start.afterAll (source.take (n + text.length)) =
      (Position.start.afterAll (source.take n)).afterAll text := by
  rw [← Position.afterAll_append, List.take_add, h, List.take_left]

/-- The front of the text that is left ends in the text. -/
theorem add_length_le (h : source.drop n = text ++ ys) (hn : n ≤ source.length) :
    n + text.length ≤ source.length := by
  have hlength := congrArg List.length h
  rw [List.length_drop, List.length_append] at hlength
  omega

end

/-- What is scanned from an offset on tiles the text from there on. -/
theorem Scans.tiles {file : String} {source : List Char} {mode : Mode} {p : Position}
    {xs : List Char} {ts : List Token} (h : Scans file mode p xs ts) {n : Nat}
    (hn : n ≤ source.length) (hxs : source.drop n = xs)
    (hp : p = Position.start.afterAll (source.take n)) : Tiles file source mode n ts := by
  induction h generalizing n with
  | done =>
    rw [Tiles, hxs]
    exact .nothing
  | @skip mode mode' p text ys ts htakes _ ih =>
    have htiles := ih (add_length_le hxs hn) (drop_add_length hxs)
      (by rw [hp, afterAll_take_add_length hxs])
    cases ts with
    | nil =>
      rw [Tiles, drop_add_length hxs] at htiles
      rw [Tiles, hxs]
      exact .more (by rwa [List.append_nil]) htiles
    | cons t ts =>
      obtain ⟨o, e, mode₁, mode₂, ho, he, hlength, hlocation, hgap, htakes', hspells, hrest⟩ :=
        htiles
      refine ⟨o, e, mode₁, mode₂, by omega, he, hlength, hlocation, ?_, htakes', hspells, hrest⟩
      rw [slice_of_drop hxs ho]
      refine .more ?_ hgap
      rw [slice_append_drop ho, drop_add_length hxs]
      exact htakes
  | @token mode mode' p kind lexeme text ys ts htakes _ ih =>
    have hpos := List.length_pos_iff.mpr htakes.spells.text_ne_nil
    have htiles := ih (add_length_le hxs hn) (drop_add_length hxs)
      (by rw [hp, afterAll_take_add_length hxs])
    refine ⟨n, n + text.length, mode, mode', Nat.le_refl n, by omega, add_length_le hxs hn, ?_, ?_,
      ?_, ?_, htiles⟩
    · rw [placeAt, hp]
    · rw [slice, List.drop_take, Nat.sub_self, List.take_zero]
      exact .nothing
    · rw [slice_add_length hxs, drop_add_length hxs]
      exact htakes
    · rw [slice_add_length hxs, drop_add_length hxs]
      exact htakes.spells

/-- No token of a tiling is the end of the input. -/
theorem Tiles.kind_ne_endOfInput {file : String} {source : List Char} {mode : Mode} {n : Nat}
    {ts : List Token} (h : Tiles file source mode n ts) : ∀ t ∈ ts, t.kind ≠ .endOfInput := by
  induction ts generalizing mode n with
  | nil => simp
  | cons t ts ih =>
    obtain ⟨o, e, mode', mode'', _, _, _, _, _, _, hspells, hrest⟩ := h
    intro u hu
    rcases List.mem_cons.mp hu with rfl | hu
    · exact hspells.kind_ne_endOfInput
    · exact ih hrest u hu

/-- The tokens of a text that is scanned are those that tile it, and its end. -/
theorem exists_tiles_of_scan {source file : String} {tokens : List Token}
    (h : RegisterLang.scan source file = .ok tokens) :
    ∃ ts, tokens = ts ++ [⟨.endOfInput, "", placeAt file source.toList source.toList.length⟩] ∧
      (∀ t ∈ ts, t.kind ≠ .endOfInput) ∧ Tiles file source.toList .free 0 ts := by
  obtain ⟨ts, htokens, hscans⟩ := scans_of_scan h
  have htiles := hscans.tiles (Nat.zero_le _) rfl rfl
  refine ⟨ts, ?_, htiles.kind_ne_endOfInput, htiles⟩
  rw [htokens, placeAt, List.take_length]
  rfl

/-- The tokens of `$a: T .1`: a register, its type, and a member whose name is a digit. -/
def memberTokens : List Token :=
  [⟨.register, "a", ⟨"f", 1, 1, 0⟩⟩, ⟨.typeName, "T", ⟨"f", 1, 3, 2⟩⟩,
    ⟨.delimiter, ".", ⟨"f", 1, 7, 6⟩⟩, ⟨.identifier, "1", ⟨"f", 1, 8, 7⟩⟩,
    ⟨.endOfInput, "", ⟨"f", 1, 9, 8⟩⟩]

/-- The blanks behind a type and the digit behind a dot are tiled, too. -/
theorem exists_tiles_memberTokens :
    RegisterLang.scan "$a: T .1" "f" = .ok memberTokens ∧
      ∃ ts, memberTokens =
          ts ++ [⟨.endOfInput, "", placeAt "f" "$a: T .1".toList "$a: T .1".toList.length⟩] ∧
        (∀ t ∈ ts, t.kind ≠ .endOfInput) ∧ Tiles "f" "$a: T .1".toList .free 0 ts := by
  have hscan : RegisterLang.scan "$a: T .1" "f" = .ok memberTokens := by decide
  exact ⟨hscan, exists_tiles_of_scan hscan⟩

end RegisterLang.Scanner
