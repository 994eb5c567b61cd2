import Mathlib.Data.List.Sublists
import RegisterLang.Proofs.Text.EditDistance
import RegisterLang.Token.Directive

/-!
# Which directives are suggested

A word is offered every directive within two edits of it. Directives lie so far apart that no word
is that close to four of them, so the cut to three suggestions loses none. The suggestions stand in
the order of their distances, and equally near ones stand as they are declared.
-/

namespace RegisterLang.Directive

/-! ### How far directives are apart -/

/-- Among any four directives there are two that lie more than four edits apart. -/
theorem exists_distant_of_sublist : ∀ directives ∈ all.sublists, 4 ≤ directives.length →
    ∃ d ∈ directives, ∃ e ∈ directives,
      4 < Text.editDistance (Text.lowerCase d.word) (Text.lowerCase e.word) := by
  decide +kernel

/-- No text is within two edits of four directives: any two of them were within four edits of each
other then. -/
theorem length_filter_near_le (text : String) :
    (all.filter fun d => Text.editDistance text (Text.lowerCase d.word) ≤ 2).length ≤ 3 := by
  by_contra hmany
  obtain ⟨d, hd, e, he, hdistant⟩ := exists_distant_of_sublist _
    (List.mem_sublists.mpr List.filter_sublist) (Nat.lt_of_not_le hmany)
  have hd₂ : Text.editDistance text (Text.lowerCase d.word) ≤ 2 := by
    simpa using (List.mem_filter.mp hd).2
  have he₂ : Text.editDistance text (Text.lowerCase e.word) ≤ 2 := by
    simpa using (List.mem_filter.mp he).2
  have htriangle := Text.editDistance_triangle (Text.lowerCase d.word) text (Text.lowerCase e.word)
  rw [Text.editDistance_comm _ text] at htriangle
  omega

/-- The small forms of a capital sigma: the one within a word and the one at its end. -/
def sigmas : List Char :=
  ['\u03c3', '\u03c2']

/-- No directive has a sigma in it. -/
theorem not_mem_lowerCase_of_mem_sigmas :
    ∀ c ∈ sigmas, ∀ d : Directive, c ∉ (Text.lowerCase d.word).toList := by
  intro c hc d
  simp only [sigmas, List.mem_cons, List.not_mem_nil, or_false] at hc
  rcases hc with rfl | rfl <;> cases d <;> decide +kernel

/-- It does not matter to the distance from a directive which form the sigmas of a word take. -/
theorem editDistance_of_sigmas {word text : String}
    (h : List.Forall₂ (fun c c' => c = c' ∨ c ∈ sigmas ∧ c' ∈ sigmas) (Text.lowerCase word).toList
      text.toList) (d : Directive) :
    Text.editDistance text (Text.lowerCase d.word) = distance word d := by
  refine (Text.editDistance_congr (h.imp fun c c' hcc => ?_)).symm
  exact hcc.imp_right fun hsigmas => ⟨not_mem_lowerCase_of_mem_sigmas c hsigmas.1 d,
    not_mem_lowerCase_of_mem_sigmas c' hsigmas.2 d⟩

/-! ### The order of suggestions -/

/-- The first directive stands before the second one among the suggestions for a word: it is nearer,
or it is equally near and declared earlier. -/
def Before (word : String) (d e : Directive) : Prop :=
  distance word d < distance word e ∨
    (distance word d = distance word e ∧ all.idxOf d < all.idxOf e)

variable {word : String} {directives : List Directive}

/-- Directives in the order of their distances, equally near ones as they were. -/
abbrev ranked (word : String) (directives : List Directive) : List Directive :=
  directives.mergeSort fun d e => distance word d ≤ distance word e

/-- Distances are ordered: what is no further than what is no further is no further. -/
theorem distance_le_trans (d e f : Directive) (hde : decide (distance word d ≤ distance word e))
    (hef : decide (distance word e ≤ distance word f)) :
    decide (distance word d ≤ distance word f) :=
  decide_eq_true (Nat.le_trans (of_decide_eq_true hde) (of_decide_eq_true hef))

/-- Of two directives, one is no further than the other. -/
theorem distance_le_total (d e : Directive) :
    (decide (distance word d ≤ distance word e) || decide (distance word e ≤ distance word d)) := by
  simpa using Nat.le_total (distance word d) (distance word e)

/-- Ranked directives stand in the order of their distances. -/
theorem pairwise_distance_ranked (word : String) (directives : List Directive) :
    (ranked word directives).Pairwise fun d e => distance word d ≤ distance word e :=
  (List.pairwise_mergeSort distance_le_trans distance_le_total directives).imp of_decide_eq_true

/-- The directives at one distance stay as they were. -/
theorem filter_ranked (word : String) (directives : List Directive) (n : Nat) :
    (ranked word directives).filter (distance word · = n) =
      directives.filter (distance word · = n) := by
  have hsame : (directives.filter (distance word · = n)).Pairwise fun d e =>
      decide (distance word d ≤ distance word e) := by
    refine List.pairwise_of_forall_mem_list fun d hd e he => ?_
    have hd' := of_decide_eq_true (List.mem_filter.mp hd).2
    have he' := of_decide_eq_true (List.mem_filter.mp he).2
    exact decide_eq_true (by omega)
  have hkept := (List.sublist_mergeSort distance_le_trans distance_le_total hsame
    List.filter_sublist).filter (distance word · = n)
  rw [List.filter_filter] at hkept
  simp only [Bool.and_self] at hkept
  refine (hkept.eq_of_length ?_).symm
  exact ((List.mergeSort_perm directives _).filter _).length_eq.symm

/-- All directives stand in the order in which they are declared. -/
theorem pairwise_all : all.Pairwise fun d e => all.idxOf d < all.idxOf e := by
  decide

/-- Directives that are listed as they are declared are ranked in the order of suggestions. -/
theorem pairwise_before_ranked (h : directives.Sublist all) :
    (ranked word directives).Pairwise (Before word) := by
  rw [List.pairwise_iff_forall_sublist]
  intro d e hpair
  have hle := List.pairwise_iff_forall_sublist.mp (pairwise_distance_ranked word directives) hpair
  rcases Nat.lt_or_eq_of_le hle with hless | heq
  · exact .inl hless
  · -- Both stand among the directives at one distance, and these are still as they were.
    have hpair' := hpair.filter (distance word · = distance word e)
    rw [filter_ranked, List.filter_eq_self.mpr (by simp [heq])] at hpair'
    exact .inr ⟨heq, List.pairwise_iff_forall_sublist.mp pairwise_all
      ((hpair'.trans List.filter_sublist).trans h)⟩

/-! ### Suggestions -/

/-- The cut to three takes none of the near directives away. -/
theorem nearest_eq (word : String) :
    nearest word = ranked word (all.filter fun d => distance word d ≤ 2) := by
  rw [nearest]
  refine List.take_of_length_le ?_
  rw [List.length_mergeSort]
  exact length_filter_near_le (Text.lowerCase word)

/-- No two directives are written alike. -/
theorem written_injective : Function.Injective written := by
  intro d e h
  cases d <;> cases e <;> first | rfl | exact absurd h (by decide)

/-- The suggestions for a word are exactly the directives within two edits of it, letter case aside,
each of them once, the nearer ones first and equally near ones as they are declared. The cut to
three never takes one away, since no text at all is within two edits of four directives. -/
theorem exists_suggestions_eq (word : String) :
    ∃ directives : List Directive,
      suggestions word = directives.map written ∧
      (∀ d, d ∈ directives ↔
        Text.editDistance (Text.lowerCase word) (Text.lowerCase d.word) ≤ 2) ∧
      (suggestions word).Nodup ∧
      directives.Pairwise (Before word) ∧
      ∀ text, (all.filter fun d =>
        Text.editDistance text (Text.lowerCase d.word) ≤ 2).length ≤ 3 := by
  have hnodup : (nearest word).Nodup := by
    rw [nearest_eq, ranked, (List.mergeSort_perm _ _).nodup_iff]
    exact List.filter_sublist.nodup (by decide)
  refine ⟨nearest word, rfl, fun d => ?_, hnodup.map written_injective, ?_,
    length_filter_near_le⟩
  · rw [nearest_eq, ranked, List.mem_mergeSort, List.mem_filter, and_iff_right (mem_all d)]
    exact decide_eq_true_iff
  · rw [nearest_eq]
    exact pairwise_before_ranked List.filter_sublist

/-- Equally near directives stand as they are declared, whatever the letter case of the word. -/
example : suggestions "Fons" = ["@const", "@func", "@for"] := by
  cbv

end RegisterLang.Directive
