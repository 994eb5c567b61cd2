import RegisterLang.Proofs.Node.Branches
import RegisterLang.Proofs.Text.Integer
import RegisterLang.Proofs.Text.Quoted

/-!
# What the labels of an outline show

Every node of a tree has an item in its outline. The label of a node shows its kind, its scalar
fields and its place, and its fields show whole unless a text among them has a backslash in front of
a bracket that opens no tag. No node has more than one field with a text of the source.
-/

namespace RegisterLang

namespace Node

variable {α : Type}

/-- The scalar fields of a node, in the order in which its label shows them. -/
def scalars : Node α → List (String × Data)
  | declaration _ name isConst _ _ => [("name", .text name), ("const", .flag isConst)]
  | function _ name _ _ _ => [("name", .text name)]
  | importUnit _ path => [("path", .text path)]
  | literal _ kind value => [("literalType", .text kind.name), ("value", .text value)]
  | primary _ kind name => [("name", .text name), ("kind", .text kind.name)]
  | binary _ operator _ _ | unary _ operator _ | assignment _ operator _ _ =>
    [("operator", .text operator)]
  | document .. | params .. | block .. | returning .. | whileLoop .. | member .. | call .. => []

/-- A scalar field as a label should show it: its key and its value, with texts in quotes. -/
def fieldText (field : String × Data) : String :=
  field.1 ++ "=" ++ Outline.scalarText field.2

/-- A place as a label should show it. -/
def placeWords (place : Option Location) : List String :=
  place.toList.map fun location => toString location.line ++ ":" ++ toString location.column

/-- The markup of a text in a style. -/
def styled (style text : String) : String :=
  ("[" ++ style ++ "]") ++ text ++ ("[/" ++ style ++ "]")

/-- The kind of a node, the given texts of its fields and its place, separated by single spaces. -/
def labelWith (n : Node (Option Location)) (fieldTexts : List String) : String :=
  " ".intercalate (n.kind.name :: (fieldTexts ++ placeWords n.tag))

/-- The label of a node is its kind, its scalars and the words for its place, with blanks between
them. -/
theorem label_outline (n : Node (Option Location)) :
    n.outline.label = " ".intercalate (styled "bold" n.kind.name ::
      (n.scalars.map (fun field => Text.escapeMarkup (fieldText field)) ++
        (placeWords n.tag).map (styled "dim"))) := by
  rcases n with ⟨_ | _, _⟩ | ⟨_ | _, name, isConst, typeName, value⟩ | ⟨_ | _, _⟩ | ⟨_ | _, _⟩ |
    ⟨_ | _, _, _, _, _⟩ | ⟨_ | _, _⟩ | ⟨_ | _, _, _, _⟩ | ⟨_ | _, _⟩ | ⟨_ | _, _, _⟩ |
    ⟨_ | _, _, _⟩ | ⟨_ | _, _, _⟩ | ⟨_ | _, _, _⟩ | ⟨_ | _, _, _, _⟩ | ⟨_ | _, _, _⟩ |
    ⟨_ | _, _, _, _⟩
  case declaration.none | declaration.some =>
    -- The value of a declaration is no scalar, so its label does not show it.
    obtain ⟨fields, hvalue⟩ := value.exists_dump_eq_record
    rw [outline, dump, hvalue]
    rfl
  all_goals rfl

/-! ### The parts of a label -/

/-- A number has no marks of tags. -/
theorem isPlain_toString (n : Int) : Text.IsPlain (toString n).toList := by
  intro c hc
  rcases Text.isDigit_or_eq_of_mem_toString hc with hdigit | rfl
  · constructor
    · rintro rfl
      cases hdigit
    · refine Bool.eq_false_iff.mpr fun hbracket => ?_
      rcases Text.isBracket_iff.mp hbracket with rfl | rfl <;> cases hdigit
  · decide

/-- The name of a kind has no marks of tags. -/
theorem isPlain_kind_name (kind : NodeKind) : Text.IsPlain kind.name.toList := by
  cases kind <;> decide

/-- The words for a place have no marks of tags. -/
theorem isPlain_placeWords (place : Option Location) :
    ∀ words ∈ placeWords place, Text.IsPlain words.toList := by
  cases place with
  | none => intro words h; cases h
  | some location =>
    refine List.forall_mem_singleton.mpr ?_
    rw [String.toList_append, String.toList_append, Text.isPlain_append_iff,
      Text.isPlain_append_iff]
    exact ⟨⟨isPlain_toString _, by decide⟩, isPlain_toString _⟩

/-- Of any two scalar fields of a node, one holds neither brackets nor backslashes. -/
theorem pairwise_isPlain_scalars (n : Node α) :
    ((n.scalars.map fieldText).map String.toList).Pairwise fun cs ds =>
      Text.IsPlain cs ∨ Text.IsPlain ds := by
  cases n with
  | declaration tag name isConst typeName value =>
    refine List.pairwise_pair.mpr (.inr ?_)
    cases isConst <;> decide
  | literal tag kind value =>
    refine List.pairwise_pair.mpr (.inl ?_)
    cases kind <;> decide +kernel
  | primary tag kind name =>
    refine List.pairwise_pair.mpr (.inr ?_)
    cases kind <;> decide +kernel
  | _ => first | exact List.Pairwise.nil | exact List.pairwise_singleton _ _

/-- What a scalar is written as has no marks of tags, unless it is a text. -/
theorem isPlain_scalarText {value : Data} (h : ∀ s, value ≠ .text s) :
    Text.IsPlain (Outline.scalarText value).toList := by
  cases value with
  | text s => exact absurd rfl (h s)
  | number n => exact isPlain_toString n
  | flag b => cases b <;> decide
  | null => decide
  | list _ | record _ => exact List.forall_mem_nil _

/-- A field ends in a quote mark, or it holds no backslash behind its key. -/
theorem getLast?_fieldText (field : String × Data) :
    (fieldText field).toList.getLast? ≠ some '\\' := by
  obtain ⟨key, value⟩ := field
  rw [fieldText, String.toList_append, List.getLast?_append]
  by_cases htext : ∃ s, value = .text s
  · obtain ⟨s, rfl⟩ := htext
    have hmark : Text.quoteMark s.toList ≠ '\\' := by
      rcases Text.quoteMark_eq s.toList with h | h <;> rw [h] <;> decide
    simpa [Outline.scalarText, Text.quoted, Text.quotedChars, List.getLast?_cons] using hmark
  · have hplain := isPlain_scalarText (not_exists.mp htext)
    cases hlast : (Outline.scalarText value).toList.getLast? with
    | none => simp
    | some c => simpa using (hplain c (List.mem_of_getLast? hlast)).1

/-- Labels have plain keys. -/
theorem isPlain_key {n : Node α} {field : String × Data} (h : field ∈ n.scalars) :
    Text.IsPlain (field.1 ++ "=").toList := by
  have hkeys : n.scalars.map Prod.fst ⊆ Outline.labelKeys := by
    cases n <;> simp [scalars, Outline.labelKeys]
  have hplain : ∀ key ∈ Outline.labelKeys, Text.IsPlain (key ++ "=").toList := by decide
  exact hplain _ (hkeys (List.mem_map_of_mem h))

/-- A field keeps its backslashes if its text does. -/
theorem keepsSlashes_fieldText_iff {n : Node α} {field : String × Data} (h : field ∈ n.scalars) :
    Text.KeepsSlashes (fieldText field).toList ↔
      ∀ s, field.2 = .text s → Text.KeepsSlashes s.toList := by
  rw [fieldText, String.toList_append,
    Text.keepsSlashes_append_iff_of_forall_ne fun c hc => (isPlain_key h c hc).1]
  by_cases htext : ∃ s, field.2 = .text s
  · obtain ⟨s, hs⟩ := htext
    rw [hs, Outline.scalarText, Text.quoted, String.toList_ofList,
      Text.keepsSlashes_quotedChars_iff]
    exact ⟨fun h s' hs' => Data.text.inj hs' ▸ h, fun h => h s rfl⟩
  · have hplain := isPlain_scalarText (not_exists.mp htext)
    exact iff_of_true (Text.shownTags_eq_self_iff.mp hplain.shownTags_eq)
      fun s hs => absurd ⟨s, hs⟩ htext

/-! ### Whole labels -/

/-- The characters of a label are those of its words, with blanks between them. -/
theorem toList_labelWith (n : Node (Option Location)) (fieldTexts : List String) :
    (n.labelWith fieldTexts).toList = n.kind.name.toList ++
      (Text.spaced (fieldTexts.map String.toList) ++
        Text.spaced ((placeWords n.tag).map String.toList)) := by
  rw [labelWith, String.toList_intercalate, List.map_cons, List.map_append]
  show [' '].intercalate _ = _
  rw [Text.intercalate_cons, Text.spaced_append]

/-- The characters of a text in a style are those of the text between the tags of the style. -/
theorem toList_styled (style text : String) :
    (styled style text).toList = '[' :: (style.toList ++ ']' ::
      (text.toList ++ '[' :: ('/' :: style.toList ++ [']']))) := by
  simp [styled]

/-- The styles of an outline are tags, and so are those that close them. -/
theorem isTag_style {style : String} (h : style ∈ ["bold", "dim", "cyan"]) :
    Text.IsTag style.toList ∧ Text.IsTag ('/' :: style.toList) := by
  simp only [List.mem_cons, List.not_mem_nil, or_false] at h
  rcases h with rfl | rfl | rfl
  all_goals exact ⟨Text.IsPlain.isTag (by decide) (by decide),
    Text.IsPlain.isTag (by decide) (by decide)⟩

/-- A text in a style is shown as itself, if it has no marks of tags. -/
theorem plainTags_styled {style text : String} (hstyle : style ∈ ["bold", "dim", "cyan"])
    (htext : Text.IsPlain text.toList) (rest : List Char) :
    Text.plainTags 0 ((styled style text).toList ++ rest) =
      text.toList ++ Text.plainTags 0 rest := by
  obtain ⟨hopening, hclosing⟩ := isTag_style hstyle
  rw [← htext.plainTags_styled hopening hclosing, toList_styled]
  simp

/-- The markup of the place of a node. -/
def placeMarkup (place : Option Location) : List Char :=
  Text.spaced (((placeWords place).map (styled "dim")).map String.toList)

/-- The place of a node completes no tag of the fields in front of it. -/
theorem apart_placeMarkup (place : Option Location) : Text.Apart (placeMarkup place) := by
  cases place with
  | none => exact ⟨fun c hc => (by cases hc), fun h => (by cases h)⟩
  | some location =>
    constructor
    · intro c hc
      cases hc
      rfl
    · simp [placeMarkup, placeWords, toList_styled, Text.spaced_cons, Text.isBracket]

/-- The place of a label is shown as its words. -/
theorem plainTags_placeMarkup (place : Option Location) :
    Text.plainTags 0 (placeMarkup place) = Text.spaced ((placeWords place).map String.toList) := by
  cases place with
  | none => simp [placeMarkup, placeWords, Text.spaced, Text.plainTags]
  | some location =>
    have hplain := isPlain_placeWords (some location) _ List.mem_cons_self
    show Text.plainTags 0 (' ' :: ((styled "dim" _).toList ++ [])) = ' ' :: (_ ++ [])
    rw [Text.plainTags_cons 0 (by decide) (by decide), plainTags_styled (by decide) hplain]
    simp [Text.plainTags]

/-- The label of a node is its kind in bold, its fields escaped one by one, and its place. -/
theorem toList_label_outline (n : Node (Option Location)) :
    n.outline.label.toList = (styled "bold" n.kind.name).toList ++
      (Text.spaced (((n.scalars.map fieldText).map String.toList).map (Text.escapeTags 0)) ++
        placeMarkup n.tag) := by
  have hfields : ((n.scalars.map fun field => Text.escapeMarkup (fieldText field)).map
      String.toList) = ((n.scalars.map fieldText).map String.toList).map (Text.escapeTags 0) := by
    rw [List.map_map, List.map_map, List.map_map]
    refine List.map_congr_left fun field _ => ?_
    show (Text.escapeMarkup _).toList = _
    rw [Text.escapeMarkup_eq (getLast?_fieldText field), String.toList_ofList]
    rfl
  rw [label_outline, String.toList_intercalate, List.map_cons, List.map_append, hfields]
  show [' '].intercalate _ = _
  rw [Text.intercalate_cons, Text.spaced_append, placeMarkup]

/-- The label of a node shows its fields as escaped text shows them, and the rest as it is. -/
theorem plainTags_label (n : Node (Option Location)) :
    Text.plainTags 0 n.outline.label.toList =
      (n.labelWith ((n.scalars.map fieldText).map Text.shownText)).toList := by
  rw [toList_label_outline, plainTags_styled (by decide) (isPlain_kind_name n.kind),
    Text.plainTags_spaced n.pairwise_isPlain_scalars (apart_placeMarkup n.tag),
    plainTags_placeMarkup, toList_labelWith, Text.map_toList_shownText]

/-- The fields of a node show whole exactly if all its texts keep their backslashes. -/
theorem labelWith_shownText_eq_iff (n : Node (Option Location)) :
    n.labelWith ((n.scalars.map fieldText).map Text.shownText) =
        n.labelWith (n.scalars.map fieldText) ↔
      ∀ key s, (key, Data.text s) ∈ n.scalars → Text.KeepsSlashes s.toList := by
  rw [← String.toList_inj, toList_labelWith, toList_labelWith, Text.map_toList_shownText,
    List.append_right_inj, Text.spaced_shownTags_eq_iff, List.forall_mem_map, List.forall_mem_map]
  constructor
  · intro h key s hs
    exact (keepsSlashes_fieldText_iff hs).mp (h _ hs) s rfl
  · rintro h ⟨key, value⟩ hfield
    refine (keepsSlashes_fieldText_iff hfield).mpr ?_
    rintro s rfl
    exact h key s hfield

end Node

/-! ### All labels of an outline -/

namespace Outline

mutual

/-- The labels of an outline, from top to bottom. -/
def labels : Outline → List String
  | item label branches => label :: labelsAll branches

/-- The labels of outlines, from top to bottom. -/
def labelsAll : List Outline → List String
  | [] => []
  | o :: os => labels o ++ labelsAll os

end

/-- What may stand in front of the label of a node, and what it shows: nothing, or the name of the
branch that the node is. -/
inductive IsLead : String → String → Prop where
  | nothing : IsLead "" ""
  | branch {key : String} (h : Text.IsPlain key.toList) :
    IsLead (branchName key ++ ": ") (key ++ ": ")

/-- The labels of an outline are its own and those of its branches. -/
theorem labels_eq (o : Outline) : o.labels = o.label :: labelsAll o.branches := by
  cases o
  rfl

/-- The labels of outlines are those of each of them. -/
theorem labelsAll_eq (os : List Outline) : labelsAll os = os.flatMap labels := by
  induction os with
  | nil => rfl
  | cons o os ih => rw [labelsAll, ih, List.flatMap_cons]

end Outline

namespace Node

variable {n m c : Node (Option Location)}

/-- The labels of a node in a field are labels of the branches of the field, with a lead in front of
the topmost. -/
theorem exists_lead_of_mem_nodes {key : String} {part : Part (Option Location)}
    (hkey : part.Fits key) (hc : c ∈ part.nodes) :
    ∃ lead shown, Outline.IsLead lead shown ∧
      (lead ++ c.outline.label) :: Outline.labelsAll c.outline.branches ⊆
        Outline.labelsAll (part.branches key) := by
  have hnamed (n : Node (Option Location)) (hplain : Text.IsPlain key.toList) :
      ∃ lead shown, Outline.IsLead lead shown ∧
        (lead ++ n.outline.label) :: Outline.labelsAll n.outline.branches ⊆
          Outline.labelsAll ((Part.child n).branches key) :=
    ⟨_, _, .branch hplain, List.subset_append_left _ _⟩
  cases part with
  | text _ | flag _ => cases hc
  | child n =>
    obtain rfl := List.mem_singleton.mp hc
    exact hnamed c hkey.2.2
  | optional o =>
    cases o with
    | none => cases hc
    | some n =>
      obtain rfl := List.mem_singleton.mp hc
      exact hnamed c hkey.1.2.2
  | list ns =>
    refine ⟨_, _, .nothing, ?_⟩
    have hmem : c.outline ∈ ns.map outline := List.mem_map_of_mem hc
    have hitems : c.outline.labels ⊆ Outline.labelsAll (ns.map outline) := by
      rw [Outline.labelsAll_eq]
      exact fun label hlabel => List.mem_flatMap_of_mem hmem hlabel
    have hbranch : Outline.labelsAll (ns.map outline) ⊆
        Outline.labelsAll ((Part.list ns).branches key) :=
      fun label hlabel => List.mem_append_left _ (List.mem_cons_of_mem _ hlabel)
    rw [String.empty_append, ← Outline.labels_eq]
    exact List.Subset.trans hitems hbranch

/-- The labels of a node directly below another one are labels of that one, with a lead in front of
the topmost. -/
theorem exists_lead_of_mem_children (h : c ∈ n.children) :
    ∃ lead shown, Outline.IsLead lead shown ∧
      (lead ++ c.outline.label) :: Outline.labelsAll c.outline.branches ⊆
        Outline.labelsAll n.outline.branches := by
  obtain ⟨field, hfield, hc⟩ := mem_children_iff_exists_field.mp h
  obtain ⟨lead, shown, hlead, hsubset⟩ := exists_lead_of_mem_nodes (fits_fields hfield) hc
  refine ⟨lead, shown, hlead, List.Subset.trans hsubset ?_⟩
  rw [branches_outline, Outline.labelsAll_eq, Outline.labelsAll_eq, List.flatMap_assoc]
  exact fun label hlabel => List.mem_flatMap_of_mem hfield hlabel

/-- Every node of a tree has its label in the outline of the tree, the root without a lead. -/
theorem exists_lead_of_mem_walk (h : m ∈ n.walk) :
    ∃ lead shown, Outline.IsLead lead shown ∧ lead ++ m.outline.label ∈ n.outline.labels := by
  have hbelow : m = n ∨ ∃ lead shown, Outline.IsLead lead shown ∧
      lead ++ m.outline.label ∈ Outline.labelsAll n.outline.branches := by
    induction n using Node.induction with
    | step n ih =>
      rcases mem_walk.mp h with rfl | ⟨c, hc, hm⟩
      · exact .inl rfl
      · obtain ⟨lead, shown, hlead, hsubset⟩ := exists_lead_of_mem_children hc
        rcases ih c hc hm with rfl | ⟨lead', shown', hlead', hmem⟩
        · exact .inr ⟨lead, shown, hlead, hsubset List.mem_cons_self⟩
        · exact .inr ⟨lead', shown', hlead', hsubset (List.mem_cons_of_mem _ hmem)⟩
  have hlabels := n.outline.labels_eq
  rcases hbelow with rfl | ⟨lead, shown, hlead, hmem⟩
  · exact ⟨"", "", .nothing, hlabels ▸ List.mem_cons_self⟩
  · exact ⟨lead, shown, hlead, hlabels ▸ List.mem_cons_of_mem _ hmem⟩

/-! ### What labels show -/

/-- What stands in front of a label is shown as it should be, tags aside. -/
theorem plainTags_lead {lead shown : String} (h : Outline.IsLead lead shown) (rest : List Char) :
    Text.plainTags 0 (lead.toList ++ rest) = shown.toList ++ Text.plainTags 0 rest := by
  cases h with
  | nothing => rfl
  | @branch key hkey =>
    have hcolon : Text.IsPlain ": ".toList := by decide
    have hlead : Outline.branchName key = styled "cyan" key := by
      simp [Outline.branchName, styled]
    rw [String.toList_append, List.append_assoc, hlead, plainTags_styled (by decide) hkey,
      hcolon.plainTags_append, String.toList_append, List.append_assoc]

/-- Every node of a tree has its label in the outline of the tree, behind a lead. Rendered, it shows
the lead, the kind of the node, its scalar fields and its place, each field as escaped text shows
it. So every character of the fields is shown exactly if every bracket behind a backslash opens a
tag, in all texts of the node. -/
theorem exists_label_of_mem_walk (n : Node (Option Location)) : ∀ m ∈ n.walk,
    ∃ lead shown, Outline.IsLead lead shown ∧ lead ++ m.outline.label ∈ n.outline.labels ∧
      Text.plainMarkup (lead ++ m.outline.label) =
        shown ++ m.labelWith ((m.scalars.map fieldText).map Text.shownText) ∧
      (Text.plainMarkup (lead ++ m.outline.label) =
          shown ++ m.labelWith (m.scalars.map fieldText) ↔
        ∀ key s, (key, Data.text s) ∈ m.scalars → Text.KeepsSlashes s.toList) := by
  intro m hm
  obtain ⟨lead, shown, hlead, hmem⟩ := exists_lead_of_mem_walk hm
  have hlabel : Text.plainMarkup (lead ++ m.outline.label) =
      shown ++ m.labelWith ((m.scalars.map fieldText).map Text.shownText) := by
    rw [Text.plainMarkup, String.toList_append, plainTags_lead hlead, plainTags_label,
      ← String.toList_append, String.ofList_toList]
  refine ⟨lead, shown, hlead, hmem, hlabel, ?_⟩
  rw [hlabel, ← labelWith_shownText_eq_iff, String.append_right_inj]

/-- A string with a backslash in front of a bracket that opens no tag. -/
def slashLiteral : Node (Option Location) :=
  .literal (some ⟨"t.llts", 1, 1, 0⟩) .string "\\[1"

/-- A program that is that string. -/
def slashDocument : Node (Option Location) :=
  .document (some ⟨"t.llts", 1, 1, 0⟩) [slashLiteral]

/-- One of the two backslashes that stand in the quoted string is not shown. -/
theorem exists_label_slashDocument : slashLiteral ∈ slashDocument.walk ∧
    ∃ lead shown, lead ++ slashLiteral.outline.label ∈ slashDocument.outline.labels ∧
      Text.plainMarkup (lead ++ slashLiteral.outline.label) ≠
        shown ++ "LiteralNode literalType='string' value='\\\\[1' 1:1" := by
  have hwalk : slashLiteral ∈ slashDocument.walk := mem_walk_of_mem_children List.mem_cons_self
  obtain ⟨lead, shown, -, hmem, -, hiff⟩ := exists_label_of_mem_walk slashDocument _ hwalk
  refine ⟨hwalk, lead, shown, hmem, fun h => ?_⟩
  have hlabel : slashLiteral.labelWith (slashLiteral.scalars.map fieldText) =
      "LiteralNode literalType='string' value='\\\\[1' 1:1" := by
    decide +kernel
  have hkeeps := hiff.mp (hlabel ▸ h) "value" "\\[1" (by simp [slashLiteral, scalars])
  exact absurd hkeeps (by decide)

end Node

end RegisterLang
