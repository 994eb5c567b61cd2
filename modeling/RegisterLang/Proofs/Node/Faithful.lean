import Mathlib
import RegisterLang.Proofs.Node.Outline
import RegisterLang.Proofs.Text.ReadBack

/-!
# Outlines lose nothing

The data of a tree may be read off its outline. A label tells the kind of its node, the scalar
fields and the place apart, since quoted text tells where it ends; which fields have branches
depends on the kind alone, and every such field has one.
-/

namespace RegisterLang

namespace Data

variable {d e : Data} {xs ys : List Char}

/-- Data that labels write alike: two texts, or two flags. -/
inductive SameSort : Data → Data → Prop where
  | text (s t : String) : SameSort (.text s) (.text t)
  | flag (b c : Bool) : SameSort (.flag b) (.flag c)

/-- A scalar on a label tells where it ends and what it is. -/
theorem SameSort.scalarText_append_inj (hsort : SameSort d e)
    (h : (Outline.scalarText d).toList ++ xs = (Outline.scalarText e).toList ++ ys) :
    d = e ∧ xs = ys := by
  cases hsort with
  | text s t =>
    simp only [Outline.scalarText, Text.quoted, String.toList_ofList] at h
    obtain ⟨hst, hrest⟩ := Text.quotedChars_append_inj h
    exact ⟨congrArg Data.text (String.toList_inj.mp hst), hrest⟩
  | flag b c => cases b <;> cases c <;> simp_all [Outline.scalarText]

end Data

namespace Node

variable {α : Type}

/-! ### Labels -/

section Labels

variable {x y : Node (Option Location)} {style s t : String} {xs ys : List Char}

/-- Styled text tells where it ends. -/
theorem styled_append_inj (hs : Text.IsPlain s.toList) (ht : Text.IsPlain t.toList)
    (h : (styled style s).toList ++ xs = (styled style t).toList ++ ys) : s = t ∧ xs = ys := by
  have hbracket {u : String} (hu : Text.IsPlain u.toList) : '[' ∉ u.toList :=
    fun hmem => absurd (hu _ hmem).2 (by decide)
  simp only [toList_styled, List.cons_append, List.append_assoc, List.cons.injEq, true_and,
    List.append_cancel_left_eq] at h
  obtain ⟨hst, hrest⟩ := Text.append_cons_inj (hbracket hs) (hbracket ht) h
  simp only [List.cons.injEq, true_and, List.append_cancel_left_eq, List.nil_append] at hrest
  exact ⟨String.toList_inj.mp hst, hrest⟩

/-- A text in a style is read as its tags and itself, if it has no marks of tags. -/
theorem readTags_styled (hstyle : style ∈ ["bold", "dim", "cyan"]) (hs : Text.IsPlain s.toList)
    (rest : List Char) :
    Text.readTags 0 ((styled style s).toList ++ rest) =
      (styled style s).toList ++ Text.readTags 0 rest := by
  obtain ⟨hopening, hclosing⟩ := isTag_style hstyle
  have hrest := hclosing.readTags_append rest
  simp only [List.cons_append] at hrest
  simp only [toList_styled, List.cons_append, List.append_assoc, List.nil_append,
    hopening.readTags_append, hs.readTags_append, hrest]

/-- The place of a label is read as it is written. -/
theorem readTags_placeMarkup (place : Option Location) :
    Text.readTags 0 (placeMarkup place) = placeMarkup place := by
  cases place with
  | none => simp [placeMarkup, placeWords, Text.spaced, Text.readTags]
  | some location =>
    have hplain := isPlain_placeWords (some location) _ List.mem_cons_self
    show Text.readTags 0 (' ' :: ((styled "dim" _).toList ++ [])) = ' ' :: (_ ++ [])
    rw [Text.readTags_cons 0 (by decide) (by decide), readTags_styled (by decide) hplain]
    simp [Text.readTags]

/-- The label of a node, with the escapes of its fields read back. -/
theorem readTags_label (n : Node (Option Location)) :
    Text.readTags 0 n.outline.label.toList = (styled "bold" n.kind.name).toList ++
      (Text.spaced ((n.scalars.map fieldText).map String.toList) ++ placeMarkup n.tag) := by
  rw [toList_label_outline, readTags_styled (by decide) (isPlain_kind_name n.kind),
    Text.readTags_spaced n.pairwise_isPlain_scalars (apart_placeMarkup n.tag),
    readTags_placeMarkup]

/-- Labels of nodes of one kind have the same keys in the same order. -/
theorem sameSort_scalars {x y : Node α} (h : x.kind = y.kind) :
    List.Forall₂ (fun f g => f.1 = g.1 ∧ Data.SameSort f.2 g.2) x.scalars y.scalars := by
  cases x <;> cases y <;> cases h <;> repeat constructor

/-- The fields on a label are told apart, if those of the same key are of the same sort. -/
theorem spaced_fieldTexts_append_inj {fs gs : List (String × Data)}
    (hsort : List.Forall₂ (fun f g => f.1 = g.1 ∧ Data.SameSort f.2 g.2) fs gs)
    (h : Text.spaced ((fs.map fieldText).map String.toList) ++ xs =
      Text.spaced ((gs.map fieldText).map String.toList) ++ ys) : fs = gs ∧ xs = ys := by
  induction hsort with
  | nil => exact ⟨rfl, h⟩
  | @cons f g fs gs hfg _ ih =>
    obtain ⟨key, d⟩ := f
    obtain ⟨key', e⟩ := g
    obtain ⟨rfl, hde⟩ := hfg
    simp only [List.map_cons, Text.spaced_cons, fieldText, String.toList_append, List.cons_append,
      List.append_assoc, List.cons.injEq, true_and, List.append_cancel_left_eq] at h
    obtain ⟨rfl, hrest⟩ := hde.scalarText_append_inj h
    obtain ⟨rfl, hxs⟩ := ih hrest
    exact ⟨rfl, hxs⟩

/-- The place on a label tells the line and the column, which are all that data has of it. -/
theorem placeFields_eq_of_placeMarkup_eq {p q : Option Location}
    (h : placeMarkup p = placeMarkup q) : placeFields p = placeFields q := by
  have hcolon (n : Int) : ':' ∉ (toString n).toList := by
    intro hmem
    rcases Text.isDigit_or_eq_of_mem_toString hmem with h | h <;> cases h
  cases p with
  | none =>
    cases q with
    | none => rfl
    | some q => cases h
  | some p =>
    cases q with
    | none => cases h
    | some q =>
      have hwords : (styled "dim" _).toList ++ [] = (styled "dim" _).toList ++ [] :=
        (List.cons.inj h).2
      obtain ⟨hwords, -⟩ := styled_append_inj (isPlain_placeWords (some p) _ List.mem_cons_self)
        (isPlain_placeWords (some q) _ List.mem_cons_self) hwords
      rw [← String.toList_inj] at hwords
      simp only [String.toList_append, List.append_assoc] at hwords
      obtain ⟨hline, hcolumn⟩ := Text.append_cons_inj (hcolon _) (hcolon _) hwords
      have hline : p.line = q.line := Int.repr_inj.mp (String.toList_inj.mp hline)
      have hcolumn : p.column = q.column := Int.repr_inj.mp (String.toList_inj.mp hcolumn)
      simp only [placeFields, hline, hcolumn]

/-- No two kinds have the same name. -/
theorem kind_name_inj {k l : NodeKind} (h : k.name = l.name) : k = l := by
  have hall : ∀ k ∈ NodeKind.all, ∀ l ∈ NodeKind.all, k.name = l.name → k = l := by decide
  exact hall k k.mem_all l l.mem_all h

/-- A label tells the kind of its node, the scalar fields and the place. -/
theorem eq_of_label_eq (h : x.outline.label = y.outline.label) :
    x.kind = y.kind ∧ x.scalars = y.scalars ∧ placeFields x.tag = placeFields y.tag := by
  have hread := congrArg (Text.readTags 0 ·.toList) h
  simp only [readTags_label] at hread
  obtain ⟨hname, hrest⟩ := styled_append_inj (isPlain_kind_name _) (isPlain_kind_name _) hread
  have hkind := kind_name_inj hname
  obtain ⟨hscalars, hplace⟩ := spaced_fieldTexts_append_inj (sameSort_scalars hkind) hrest
  exact ⟨hkind, hscalars, placeFields_eq_of_placeMarkup_eq hplace⟩

end Labels

/-! ### Branches -/

section Branches

variable {x y : Node (Option Location)}

/-- Fields of the same key that both hold a text, a flag, a node, an optional node or nodes. -/
inductive Alike : String × Part α → String × Part α → Prop where
  | text (key s t : String) : Alike (key, .text s) (key, .text t)
  | flag (key : String) (b c : Bool) : Alike (key, .flag b) (key, .flag c)
  | child (key : String) (n m : Node α) : Alike (key, .child n) (key, .child m)
  | optional (key : String) (o p : Option (Node α)) : Alike (key, .optional o) (key, .optional p)
  | list (key : String) (ns ms : List (Node α)) : Alike (key, .list ns) (key, .list ms)

/-- Nodes of one kind have the same keys in the same order, and fields of the same sorts. -/
theorem alike_fields {x y : Node α} (h : x.kind = y.kind) :
    List.Forall₂ Alike x.fields y.fields := by
  cases x <;> cases y <;> cases h <;> repeat constructor

/-- The scalar that a field is. -/
def Part.scalar? : Part α → Option Data
  | text s => some (.text s)
  | flag b => some (.flag b)
  | child _ | optional _ | list _ => none

/-- The scalars of a node are found under the keys of its fields. -/
theorem lookup_scalars {n : Node α} {field : String × Part α} (h : field ∈ n.fields) :
    n.scalars.lookup field.1 = field.2.scalar? := by
  revert field
  cases n <;> simp [fields, scalars, Part.scalar?, List.lookup]

/-! ### Reading data off an outline -/

/-- Every node with the outline of this one has the data of this one. -/
def ReadsOff (n : Node (Option Location)) : Prop :=
  ∀ m : Node (Option Location), n.outline = m.outline → n.dump = m.dump

/-- Outlines behind the same lead are the same. -/
theorem outline_eq_of_lead_eq {lead : String}
    (h : Outline.item (lead ++ x.outline.label) x.outline.branches =
      Outline.item (lead ++ y.outline.label) y.outline.branches) : x.outline = y.outline := by
  obtain ⟨hlabel, hbranches⟩ := Outline.item.inj h
  have hlabel := (String.append_right_inj lead).mp hlabel
  cases hx : x.outline with
  | item label branches =>
    cases hy : y.outline with
    | item label' branches' =>
      rw [hx, hy] at hlabel hbranches
      exact congrArg₂ Outline.item hlabel hbranches

/-- No label of a node stands for an absent one. -/
theorem lead_label_ne (key : String) (n : Node (Option Location)) :
    Outline.branchName key ++ ": " ++ n.outline.label ≠
      Outline.branchName key ++ ": [dim]none[/dim]" := by
  intro h
  have hchars := congrArg String.toList h
  simp [toList_label_outline, toList_styled] at hchars

/-- Nodes with the same outlines have the same data, if each of them is read off its outline. -/
theorem map_dump_eq_of_map_outline_eq {ns ms : List (Node (Option Location))}
    (hreads : ∀ n ∈ ns, n.ReadsOff) (h : ns.map outline = ms.map outline) :
    ns.map dump = ms.map dump := by
  induction ns generalizing ms with
  | nil =>
    obtain rfl := List.map_eq_nil_iff.mp h.symm
    rfl
  | cons n ns ih =>
    cases ms with
    | nil => cases h
    | cons m ms =>
      obtain ⟨hn, hns⟩ := List.cons.inj h
      obtain ⟨hread, hreads⟩ := List.forall_mem_cons.mp hreads
      rw [List.map_cons, List.map_cons, hread m hn, ih hreads hns]

/-- Fields of the same sort have equally many branches. -/
theorem Alike.length_branches {f g : String × Part (Option Location)} (h : Alike f g) :
    (f.2.branches f.1).length = (g.2.branches g.1).length := by
  cases h with
  | optional key o p => cases o <;> cases p <;> rfl
  | _ => rfl

/-- A field is read off its scalar and its branch. -/
theorem Alike.dump_eq {f g : String × Part (Option Location)} (h : Alike f g)
    (hscalar : f.2.scalar? = g.2.scalar?) (hbranches : f.2.branches f.1 = g.2.branches g.1)
    (hreads : ∀ n ∈ f.2.nodes, n.ReadsOff) : (f.1, f.2.dump) = (g.1, g.2.dump) := by
  refine Prod.ext (by cases h <;> rfl) ?_
  cases h with
  | text key s t => exact Option.some.inj hscalar
  | flag key b c => exact Option.some.inj hscalar
  | child key n m =>
    exact hreads n List.mem_cons_self m (outline_eq_of_lead_eq (List.cons.inj hbranches).1)
  | optional key o p =>
    cases o with
    | none =>
      cases p with
      | none => rfl
      | some m =>
        have hitem := (List.cons.inj hbranches).1
        exact absurd (Outline.item.inj hitem).1.symm (lead_label_ne key m)
    | some n =>
      cases p with
      | none =>
        have hitem := (List.cons.inj hbranches).1
        exact absurd (Outline.item.inj hitem).1 (lead_label_ne key n)
      | some m =>
        have hitem := (List.cons.inj hbranches).1
        exact hreads n List.mem_cons_self m (outline_eq_of_lead_eq hitem)
  | list key ns ms =>
    have hitems := (Outline.item.inj (List.cons.inj hbranches).1).2
    exact congrArg Data.list (map_dump_eq_of_map_outline_eq hreads hitems)

/-- Fields are read off their scalars and their branches. -/
theorem map_dump_fields_eq {fs gs : List (String × Part (Option Location))}
    (halike : List.Forall₂ Alike fs gs)
    (hscalar : ∀ f ∈ fs, ∀ g ∈ gs, f.1 = g.1 → f.2.scalar? = g.2.scalar?)
    (hbranches : (fs.flatMap fun f => f.2.branches f.1) = gs.flatMap fun g => g.2.branches g.1)
    (hreads : ∀ f ∈ fs, ∀ n ∈ f.2.nodes, n.ReadsOff) :
    (fs.map fun f => (f.1, f.2.dump)) = gs.map fun g => (g.1, g.2.dump) := by
  induction halike with
  | nil => rfl
  | @cons f g fs gs hfg _ ih =>
    rw [List.flatMap_cons, List.flatMap_cons] at hbranches
    obtain ⟨hfront, hbehind⟩ := List.append_inj hbranches hfg.length_branches
    obtain ⟨hread, hreads⟩ := List.forall_mem_cons.mp hreads
    have hkey : f.1 = g.1 := by cases hfg <;> rfl
    have hscalarOfFront := hscalar f List.mem_cons_self g List.mem_cons_self hkey
    rw [List.map_cons, List.map_cons, hfg.dump_eq hscalarOfFront hfront hread]
    refine congrArg _ (ih (fun f' hf' g' hg' => ?_) hbehind hreads)
    exact hscalar f' (List.mem_cons_of_mem _ hf') g' (List.mem_cons_of_mem _ hg')

/-- Two trees have the same outline exactly if they have the same data. -/
theorem outline_eq_iff (x y : Node (Option Location)) :
    x.outline = y.outline ↔ x.dump = y.dump := by
  refine ⟨fun h => ?_, fun h => congrArg (Outline.ofData "") h⟩
  induction x using Node.induction generalizing y with
  | step x ih =>
    obtain ⟨hkind, hscalars, hplace⟩ := eq_of_label_eq (congrArg Outline.label h)
    have hbranches := congrArg Outline.branches h
    rw [branches_outline, branches_outline] at hbranches
    have hfields := map_dump_fields_eq (alike_fields hkind) ?_ hbranches ?_
    · rw [dump_eq, dump_eq, entry, entry, hkind, hplace, hfields]
    · intro f hf g hg hkey
      rw [← lookup_scalars hf, ← lookup_scalars hg, hkey, hscalars]
    · exact fun f hf c hc => ih c (mem_children_iff_exists_field.mpr ⟨f, hf, hc⟩)

end Branches

end Node

end RegisterLang
