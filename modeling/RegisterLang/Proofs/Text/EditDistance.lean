import Mathlib.Data.List.Forall2
import Mathlib.Order.Bounds.Basic
import RegisterLang.Text.EditDistance

/-!
# The edit distance is the least number of edits

An edit inserts, deletes or substitutes one character at an index of a text, and a script is a list
of edits that are made one after the other. The rows that `editDistance` computes hold the lengths
of shortest scripts, so the edit distance is the length of a shortest script between its two texts.
Neither the swap of the two texts nor the shortcut for an empty one makes a difference to that. From
it the edit distance is a metric, and characters that a text does not have all look the same to it.
-/

namespace RegisterLang.Text

/-! ### Scripts of edits -/

/-- A change of a single character. -/
inductive Edit where
  | insert (index : Nat) (c : Char)
  | delete (index : Nat)
  | substitute (index : Nat) (c : Char)

namespace Edit

/-- The text behind an edit. What lies outside a text cannot be edited. -/
def result? : Edit → List Char → Option (List Char)
  | insert index c, cs =>
    if index ≤ cs.length then some (cs.take index ++ c :: cs.drop index) else none
  | delete index, cs => if index < cs.length then some (cs.eraseIdx index) else none
  | substitute index c, cs => if index < cs.length then some (cs.set index c) else none

/-- The text behind all edits of a script. -/
def resultAll? : List Edit → List Char → Option (List Char)
  | [], cs => some cs
  | edit :: script, cs => (edit.result? cs).bind (resultAll? script)

/-- An edit splits the text at its index. -/
theorem exists_split_of_result? {edit : Edit} {cs ds : List Char} (h : edit.result? cs = some ds) :
    ∃ front back, (∃ c, cs = front ++ back ∧ ds = front ++ c :: back) ∨
      (∃ c, cs = front ++ c :: back ∧ ds = front ++ back) ∨
      ∃ c d, cs = front ++ c :: back ∧ ds = front ++ d :: back := by
  cases edit with
  | insert index c =>
    obtain ⟨_, hds⟩ := Option.ite_none_right_eq_some.mp h
    exact ⟨cs.take index, cs.drop index, .inl ⟨c, by simp, (Option.some.inj hds).symm⟩⟩
  | delete index =>
    obtain ⟨hindex, hds⟩ := Option.ite_none_right_eq_some.mp h
    obtain rfl := Option.some.inj hds
    refine ⟨cs.take index, cs.drop (index + 1), .inr (.inl ⟨cs[index], by simp, ?_⟩)⟩
    exact List.eraseIdx_eq_take_drop_succ cs index
  | substitute index c =>
    obtain ⟨hindex, hds⟩ := Option.ite_none_right_eq_some.mp h
    obtain rfl := Option.some.inj hds
    refine ⟨cs.take index, cs.drop (index + 1), .inr (.inr ⟨cs[index], c, by simp, ?_⟩)⟩
    exact List.set_eq_take_append_cons_drop.trans (if_pos hindex)

/-- A character may be inserted at the end. -/
theorem insert_length (cs : List Char) (c : Char) :
    (insert cs.length c).result? cs = some (cs ++ [c]) := by
  simp [result?]

/-- The last character may be deleted. -/
theorem delete_length (cs : List Char) (c : Char) :
    (delete cs.length).result? (cs ++ [c]) = some cs := by
  simp [result?, List.eraseIdx_append_of_length_le]

/-- The last character may be substituted. -/
theorem substitute_length (cs : List Char) (c d : Char) :
    (substitute cs.length d).result? (cs ++ [c]) = some (cs ++ [d]) := by
  simp [result?]

/-- An edit leaves alone what is behind the text. -/
theorem result?_append {edit : Edit} {cs ds : List Char} (h : edit.result? cs = some ds)
    (tail : List Char) : edit.result? (cs ++ tail) = some (ds ++ tail) := by
  cases edit with
  | insert index c =>
    obtain ⟨hindex, hds⟩ := Option.ite_none_right_eq_some.mp h
    obtain rfl := Option.some.inj hds
    have hlength : index ≤ (cs ++ tail).length := by
      rw [List.length_append]
      omega
    rw [result?, if_pos hlength, List.take_append_of_le_length hindex,
      List.drop_append_of_le_length hindex, List.append_assoc, List.cons_append]
  | delete index =>
    obtain ⟨hindex, hds⟩ := Option.ite_none_right_eq_some.mp h
    obtain rfl := Option.some.inj hds
    have hlength : index < (cs ++ tail).length := by
      rw [List.length_append]
      omega
    rw [result?, if_pos hlength, List.eraseIdx_append_of_lt_length hindex]
  | substitute index c =>
    obtain ⟨hindex, hds⟩ := Option.ite_none_right_eq_some.mp h
    obtain rfl := Option.some.inj hds
    have hlength : index < (cs ++ tail).length := by
      rw [List.length_append]
      omega
    rw [result?, if_pos hlength, List.set_append_left index c hindex]

/-- A script does the same to a text in front of another one. -/
theorem resultAll?_append (script : List Edit) {cs ds : List Char}
    (h : resultAll? script cs = some ds) (tail : List Char) :
    resultAll? script (cs ++ tail) = some (ds ++ tail) := by
  induction script generalizing cs with
  | nil =>
    obtain rfl := Option.some.inj h
    rfl
  | cons edit script ih =>
    obtain ⟨es, hedit, hscript⟩ := Option.bind_eq_some_iff.mp h
    exact Option.bind_eq_some_iff.mpr ⟨es ++ tail, result?_append hedit tail, ih hscript⟩

/-- Scripts are made one after the other. -/
theorem resultAll?_concat {script script' : List Edit} {cs ds es : List Char}
    (h : resultAll? script cs = some ds) (h' : resultAll? script' ds = some es) :
    resultAll? (script ++ script') cs = some es := by
  induction script generalizing cs with
  | nil =>
    obtain rfl := Option.some.inj h
    exact h'
  | cons edit script ih =>
    obtain ⟨fs, hedit, hscript⟩ := Option.bind_eq_some_iff.mp h
    exact Option.bind_eq_some_iff.mpr ⟨fs, hedit, ih hscript⟩

/-- Some script of `n` edits turns one text into the other. -/
def Turns (n : Nat) (cs ds : List Char) : Prop :=
  ∃ script, script.length = n ∧ resultAll? script cs = some ds

namespace Turns

variable {m n : Nat} {cs ds es : List Char}

/-- No edits turn a text into itself. -/
theorem refl (cs : List Char) : Turns 0 cs cs :=
  ⟨[], rfl, rfl⟩

/-- One edit is a script. -/
theorem single {edit : Edit} (h : edit.result? cs = some ds) : Turns 1 cs ds :=
  ⟨[edit], rfl, Option.bind_eq_some_iff.mpr ⟨ds, h, rfl⟩⟩

/-- Edits one after the other are as many as there are of both. -/
theorem trans (h : Turns m cs ds) (h' : Turns n ds es) : Turns (m + n) cs es := by
  obtain ⟨script, rfl, hscript⟩ := h
  obtain ⟨script', rfl, hscript'⟩ := h'
  exact ⟨script ++ script', List.length_append, resultAll?_concat hscript hscript'⟩

/-- Texts may be edited in front of another one. -/
theorem append (h : Turns n cs ds) (tail : List Char) : Turns n (cs ++ tail) (ds ++ tail) := by
  obtain ⟨script, hlength, hscript⟩ := h
  exact ⟨script, hlength, resultAll?_append script hscript tail⟩

/-- Without edits, a text stays as it is. -/
theorem eq_of_zero (h : Turns 0 cs ds) : cs = ds := by
  obtain ⟨script, hlength, hscript⟩ := h
  obtain rfl := List.eq_nil_of_length_eq_zero hlength
  exact Option.some.inj hscript

end Turns

end Edit

/-! ### The distance from the ends -/

/-- What a substitution costs: nothing when the two characters agree. -/
abbrev mismatch (c d : Char) : Nat :=
  if c = d then 0 else 1

/-- The distance of two texts whose characters are listed from the last one to the first one. It
looks at the last characters only and at the distances of what stands in front of them. -/
def backDistance : List Char → List Char → Nat
  | [], s => s.length
  | _ :: r, [] => r.length + 1
  | c :: r, d :: s =>
    min (min (backDistance r (d :: s) + 1) (backDistance (c :: r) s + 1))
      (backDistance r s + mismatch c d)

/-- From an empty text, all characters are inserted. -/
@[simp] theorem backDistance_nil_left (s : List Char) : backDistance [] s = s.length := by
  rw [backDistance]

/-- To an empty text, all characters are deleted. -/
@[simp] theorem backDistance_nil_right (r : List Char) : backDistance r [] = r.length := by
  cases r with
  | nil => rw [backDistance]
  | cons c r => rw [backDistance, List.length_cons]

/-- Of two texts with a last character, one is deleted, inserted or substituted. -/
theorem backDistance_cons (c d : Char) (r s : List Char) :
    backDistance (c :: r) (d :: s) =
      min (min (backDistance r (d :: s) + 1) (backDistance (c :: r) s + 1))
        (backDistance r s + mismatch c d) := by
  rw [backDistance]

/-- Backwards through an edit script there are as many edits. -/
theorem backDistance_comm (r s : List Char) : backDistance r s = backDistance s r := by
  induction r, s using backDistance.induct with
  | case1 s => simp
  | case2 c r => simp
  | case3 c r d s ih₁ ih₂ ih₃ =>
    rw [backDistance_cons, backDistance_cons, ih₁, ih₂, ih₃, mismatch, mismatch]
    simp only [eq_comm]
    omega

/-- Nothing has to be edited to leave a text as it is. -/
theorem backDistance_self (r : List Char) : backDistance r r = 0 := by
  induction r with
  | nil => simp
  | cons c r ih => simp [backDistance_cons, ih]

/-- One more character on the right is at most one more edit. -/
theorem backDistance_cons_right_le (r : List Char) (d : Char) (s : List Char) :
    backDistance r (d :: s) ≤ backDistance r s + 1 := by
  cases r with
  | nil => simp
  | cons c r =>
    rw [backDistance_cons]
    omega

/-- One more character on the left is at most one more edit. -/
theorem backDistance_cons_left_le (c : Char) (r s : List Char) :
    backDistance (c :: r) s ≤ backDistance r s + 1 := by
  rw [backDistance_comm, backDistance_comm r]
  exact backDistance_cons_right_le s c r

/-- One character less on the right is at most one more edit. -/
theorem backDistance_le_cons_right (r : List Char) (d : Char) (s : List Char) :
    backDistance r s ≤ backDistance r (d :: s) + 1 := by
  induction r with
  | nil =>
    simp only [backDistance_nil_left, List.length_cons]
    omega
  | cons c r ih =>
    have hle := backDistance_cons_left_le c r s
    rw [backDistance_cons]
    omega

/-- Another character on the right is at most one more edit. -/
theorem backDistance_substitute_le (r : List Char) (c d : Char) (s : List Char) :
    backDistance r (c :: s) ≤ backDistance r (d :: s) + 1 := by
  induction r with
  | nil => simp
  | cons e r ih =>
    rw [backDistance_cons, backDistance_cons]
    have hle : mismatch e c ≤ mismatch e d + 1 := by
      unfold mismatch
      split <;> omega
    omega

/-- What is at most one more edit away stays so behind further characters. -/
theorem backDistance_append_le {s t : List Char}
    (h : ∀ r, backDistance r s ≤ backDistance r t + 1) (front r : List Char) :
    backDistance r (front ++ s) ≤ backDistance r (front ++ t) + 1 := by
  induction front generalizing r with
  | nil => exact h r
  | cons d front ih =>
    induction r with
    | nil =>
      have hle := ih []
      simp only [List.cons_append, backDistance_nil_left, List.length_cons] at hle ⊢
      omega
    | cons c r ihr =>
      simp only [List.cons_append] at ihr ⊢
      rw [backDistance_cons, backDistance_cons]
      have hle := ih (c :: r)
      have hle' := ih r
      omega

/-- An edit on the right is at most one more edit. -/
theorem backDistance_le_of_result? {edit : Edit} {cs ds : List Char} (h : edit.result? cs = some ds)
    (r : List Char) : backDistance r ds.reverse ≤ backDistance r cs.reverse + 1 := by
  obtain ⟨front, back, ⟨c, rfl, rfl⟩ | ⟨c, rfl, rfl⟩ | ⟨c, d, rfl, rfl⟩⟩ :=
    Edit.exists_split_of_result? h
  all_goals
    simp only [List.reverse_append, List.reverse_cons, List.append_assoc, List.cons_append,
      List.nil_append]
  · exact backDistance_append_le (fun r => backDistance_cons_right_le r c _) back.reverse r
  · exact backDistance_append_le (fun r => backDistance_le_cons_right r c _) back.reverse r
  · exact backDistance_append_le (fun r => backDistance_substitute_le r d c _) back.reverse r

/-- No script is shorter than the distance of its two texts. -/
theorem backDistance_le_of_turns {n : Nat} {cs ds : List Char} (h : Edit.Turns n cs ds) :
    backDistance cs.reverse ds.reverse ≤ n := by
  -- The distance from the first text grows by one at most with every edit.
  have grows (r es : List Char) (script : List Edit)
      (hscript : Edit.resultAll? script es = some ds) :
      backDistance r ds.reverse ≤ backDistance r es.reverse + script.length := by
    induction script generalizing es with
    | nil =>
      obtain rfl := Option.some.inj hscript
      exact Nat.le_refl _
    | cons edit script ih =>
      obtain ⟨fs, hedit, hscript⟩ := Option.bind_eq_some_iff.mp hscript
      have hle := ih fs hscript
      have hstep := backDistance_le_of_result? hedit r
      rw [List.length_cons]
      omega
  obtain ⟨script, rfl, hscript⟩ := h
  have hle := grows cs.reverse cs script hscript
  rwa [backDistance_self, Nat.zero_add] at hle

/-- Some script is as long as the distance of its two texts. It edits from the front to the end, so
an edit at the end of what is edited already leaves all that is in front of it alone. -/
theorem turns_backDistance (r s : List Char) :
    Edit.Turns (backDistance r s) r.reverse s.reverse := by
  induction r, s using backDistance.induct with
  | case1 s =>
    rw [backDistance_nil_left]
    induction s with
    | nil => exact .refl []
    | cons d s ih =>
      rw [List.reverse_cons]
      exact ih.trans (.single (Edit.insert_length s.reverse d))
  | case2 c r =>
    have deletes (cs : List Char) : Edit.Turns cs.length cs.reverse [] := by
      induction cs with
      | nil => exact .refl []
      | cons e cs ih =>
        rw [List.reverse_cons, List.length_cons, Nat.add_comm]
        exact (Edit.Turns.single (Edit.delete_length cs.reverse e)).trans ih
    rw [backDistance_nil_right]
    exact deletes (c :: r)
  | case3 c r d s ih₁ ih₂ ih₃ =>
    have hdelete : Edit.Turns (backDistance r (d :: s) + 1) (c :: r).reverse (d :: s).reverse := by
      rw [List.reverse_cons, Nat.add_comm]
      exact (Edit.Turns.single (Edit.delete_length r.reverse c)).trans ih₁
    have hinsert : Edit.Turns (backDistance (c :: r) s + 1) (c :: r).reverse (d :: s).reverse := by
      rw [List.reverse_cons (a := d)]
      exact ih₂.trans (.single (Edit.insert_length s.reverse d))
    have hkeep : Edit.Turns (backDistance r s) (c :: r).reverse (s.reverse ++ [c]) := by
      rw [List.reverse_cons]
      exact ih₃.append [c]
    have hsubstitute :
        Edit.Turns (backDistance r s + mismatch c d) (c :: r).reverse (d :: s).reverse := by
      rw [List.reverse_cons (a := d)]
      by_cases heq : c = d
      · rw [mismatch, if_pos heq, ← heq]
        exact hkeep
      · rw [mismatch, if_neg heq]
        exact hkeep.trans (.single (Edit.substitute_length s.reverse c d))
    rw [backDistance_cons]
    rcases Nat.le_total (min (backDistance r (d :: s) + 1) (backDistance (c :: r) s + 1))
      (backDistance r s + mismatch c d) with hle | hle
    · rw [Nat.min_eq_left hle]
      rcases Nat.le_total (backDistance r (d :: s) + 1) (backDistance (c :: r) s + 1) with
        hle' | hle'
      · rwa [Nat.min_eq_left hle']
      · rwa [Nat.min_eq_right hle']
    · rwa [Nat.min_eq_right hle]

/-! ### Rows -/

/-- The distances from `r` to what comes behind `s` when it takes in the characters of `b` one after
the other. -/
def backDistances (r : List Char) : (s b : List Char) → List Nat
  | _, [] => []
  | s, d :: b => backDistance r (d :: s) :: backDistances r (d :: s) b

/-- The rest of a row holds the distances for one character more on the left. -/
theorem distanceEntries_eq (c : Char) (r s b : List Char) :
    distanceEntries c (backDistance r s) (backDistance (c :: r) s) b (backDistances r s b) =
      backDistances (c :: r) s b := by
  induction b generalizing s with
  | nil => rfl
  | cons d b ih =>
    have hentry := backDistance_cons c d r s
    rw [backDistances, backDistances, distanceEntries]
    simp only [← hentry, ih]

/-- The row after the row of `r` is that of `r` with one character more. -/
theorem nextDistanceRow_eq (b : List Char) (r : List Char) (c : Char) :
    nextDistanceRow b (backDistance r [] :: backDistances r [] b) c =
      backDistance (c :: r) [] :: backDistances (c :: r) [] b := by
  have hfirst : backDistance (c :: r) [] = backDistance r [] + 1 := by simp
  rw [nextDistanceRow, ← hfirst, distanceEntries_eq]

/-- The first row holds lengths. -/
theorem range_eq (b : List Char) :
    List.range (b.length + 1) = backDistance [] [] :: backDistances [] [] b := by
  have lengths (s : List Char) :
      List.range' s.length (b.length + 1) = s.length :: backDistances [] s b := by
    induction b generalizing s with
    | nil => rfl
    | cons d b ih =>
      have hrest := ih (d :: s)
      rw [List.length_cons] at hrest
      rw [List.range'_succ, List.length_cons, hrest, backDistances, backDistance_nil_left,
        List.length_cons]
  rw [List.range_eq_range', backDistance_nil_left]
  exact lengths []

/-- The last row is that of the whole first text. -/
theorem foldl_nextDistanceRow (a b r : List Char) :
    a.foldl (nextDistanceRow b) (backDistance r [] :: backDistances r [] b) =
      backDistance (a.reverse ++ r) [] :: backDistances (a.reverse ++ r) [] b := by
  induction a generalizing r with
  | nil => rfl
  | cons c a ih =>
    rw [List.foldl_cons, nextDistanceRow_eq, ih, List.reverse_cons, List.append_assoc,
      List.singleton_append]

/-- The last entry of a row is that of the whole second text. -/
theorem getLastD_backDistances (r s b : List Char) :
    (backDistance r s :: backDistances r s b).getLastD 0 = backDistance r (b.reverse ++ s) := by
  induction b generalizing s with
  | nil => rfl
  | cons d b ih =>
    have hrest := ih (d :: s)
    rw [List.getLastD_cons] at hrest
    rw [backDistances, List.getLastD_cons, List.getLastD_cons, List.reverse_cons,
      List.append_assoc, List.singleton_append]
    exact hrest

/-- The rows compute the distance from the ends of the texts. -/
theorem lastDistance_eq (a b : List Char) :
    lastDistance a b = backDistance a.reverse b.reverse := by
  rw [lastDistance, range_eq, foldl_nextDistanceRow, getLastD_backDistances, List.append_nil,
    List.append_nil]

/-- The rows would give the same for an empty text. -/
theorem distanceToShorter_eq (long short : List Char) :
    distanceToShorter long short = lastDistance long short := by
  rw [distanceToShorter]
  split
  · next hempty =>
    rw [lastDistance_eq, List.eq_nil_of_length_eq_zero hempty, List.reverse_nil,
      backDistance_nil_right, List.length_reverse]
  · rfl

/-- The rows of either text have the same last entry, so it does not matter which text is longer. -/
theorem editDistanceChars_eq_lastDistance (a b : List Char) :
    editDistanceChars a b = lastDistance a b := by
  rw [editDistanceChars, distanceToShorter_eq, distanceToShorter_eq, lastDistance_eq b,
    backDistance_comm, ← lastDistance_eq]
  exact ite_self _

/-- The edit distance is the distance from the ends of the texts. -/
theorem editDistanceChars_eq (a b : List Char) :
    editDistanceChars a b = backDistance a.reverse b.reverse :=
  (editDistanceChars_eq_lastDistance a b).trans (lastDistance_eq a b)

/-! ### The distance of texts -/

/-- Two lists of characters agree, but for characters that are not in the alphabet. -/
abbrev AgreeOn (alphabet q r : List Char) : Prop :=
  List.Forall₂ (fun c d => c = d ∨ c ∉ alphabet ∧ d ∉ alphabet) q r

/-- Characters that the second text does not have all cost the same. -/
theorem backDistance_congr {alphabet q r s : List Char} (h : AgreeOn alphabet q r)
    (hs : ∀ c ∈ s, c ∈ alphabet) : backDistance q s = backDistance r s := by
  induction h generalizing s with
  | nil => rfl
  | @cons c d q r hcd htail ihq =>
    induction s with
    | nil => simp [htail.length_eq]
    | cons e s ihs =>
      have hs' : ∀ c ∈ s, c ∈ alphabet := fun c hc => hs c (List.mem_cons_of_mem e hc)
      have hmismatch : mismatch c e = mismatch d e := by
        rcases hcd with rfl | ⟨hc, hd⟩
        · rfl
        · have he := hs e List.mem_cons_self
          have hce : c ≠ e := fun heq => hc (heq ▸ he)
          have hde : d ≠ e := fun heq => hd (heq ▸ he)
          rw [mismatch, mismatch, if_neg hce, if_neg hde]
      rw [backDistance_cons, backDistance_cons, ihq hs, ihq hs', ihs hs', hmismatch]

/-- Some script is as long as the edit distance. -/
theorem turns_editDistance (a b : String) : Edit.Turns (editDistance a b) a.toList b.toList := by
  have hturns := turns_backDistance a.toList.reverse b.toList.reverse
  rwa [List.reverse_reverse, List.reverse_reverse, ← editDistanceChars_eq] at hturns

/-- No script is shorter than the edit distance. -/
theorem editDistance_le_of_turns {n : Nat} {a b : String} (h : Edit.Turns n a.toList b.toList) :
    editDistance a b ≤ n := by
  rw [editDistance, editDistanceChars_eq]
  exact backDistance_le_of_turns h

/-- Neither text comes first in a distance. -/
theorem editDistance_comm (a b : String) : editDistance a b = editDistance b a := by
  rw [editDistance, editDistance, editDistanceChars_eq, editDistanceChars_eq, backDistance_comm]

/-- Only equal texts are at no distance. -/
theorem editDistance_eq_zero_iff {a b : String} : editDistance a b = 0 ↔ a = b := by
  constructor
  · intro h
    have hturns := turns_editDistance a b
    rw [h] at hturns
    exact String.toList_injective hturns.eq_of_zero
  · rintro rfl
    exact Nat.le_zero.mp (editDistance_le_of_turns (.refl a.toList))

/-- To go by a third text is no shorter. -/
theorem editDistance_triangle (a b c : String) :
    editDistance a c ≤ editDistance a b + editDistance b c :=
  editDistance_le_of_turns ((turns_editDistance a b).trans (turns_editDistance b c))

/-- A text is equally far from two texts that agree on its characters. -/
theorem editDistance_congr {a a' b : String} (h : AgreeOn b.toList a.toList a'.toList) :
    editDistance a b = editDistance a' b := by
  rw [editDistance, editDistance, editDistanceChars_eq, editDistanceChars_eq]
  exact backDistance_congr (List.rel_reverse h) fun c hc => List.mem_reverse.mp hc

/-- The edit distance of two texts is the least number of insertions, deletions and substitutions of
single characters that turn the first text into the second one. So it is symmetric, it is zero for
equal texts alone, and no way over a third text is shorter. -/
theorem isLeast_editDistance (a b : String) :
    IsLeast {n | ∃ script : List Edit, script.length = n ∧
      Edit.resultAll? script a.toList = some b.toList} (editDistance a b) ∧
    editDistance a b = editDistance b a ∧
    (editDistance a b = 0 ↔ a = b) ∧
    ∀ c, editDistance a c ≤ editDistance a b + editDistance b c :=
  ⟨⟨turns_editDistance a b, fun _ h => editDistance_le_of_turns h⟩, editDistance_comm a b,
    editDistance_eq_zero_iff, editDistance_triangle a b⟩

/-- The longer text stands second, and a character in its middle stays. -/
example : editDistance "or" "fond" = 3 := by decide

end RegisterLang.Text
