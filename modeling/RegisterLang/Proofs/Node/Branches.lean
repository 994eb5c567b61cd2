import RegisterLang.Node.Outline
import RegisterLang.Proofs.Node.Dump
import RegisterLang.Proofs.Text.Markup

/-!
# Branches of an outline

Every field of a node has one branch in the outline, unless it is a scalar that the label shows.
-/

namespace RegisterLang

namespace Outline

/-! ### Fields apart -/

/-- The branches of fields are those of the first one and those of the others. -/
theorem ofFields_cons (key : String) (value : Data) (fields : List (String × Data)) :
    ofFields ((key, value) :: fields) = ofFields [(key, value)] ++ ofFields fields := by
  cases value <;> simp only [ofFields] <;> split <;> rfl

/-- The branches of fields are those of each of them. -/
theorem ofFields_eq_flatMap (fields : List (String × Data)) :
    ofFields fields = fields.flatMap fun field => ofFields [field] := by
  induction fields with
  | nil => rfl
  | cons field fields ih => rw [List.flatMap_cons, ← ih, ← ofFields_cons]

/-- Kinds and places have keys of their own. -/
def namesBranch (key : String) : Prop :=
  key ≠ "type" ∧ key ≠ "loc" ∧ Text.IsPlain key.toList

/-- Whether a key names a branch can be decided. -/
instance : DecidablePred namesBranch :=
  fun key => inferInstanceAs (Decidable (key ≠ "type" ∧ key ≠ "loc" ∧ Text.IsPlain key.toList))

end Outline

namespace Node

variable {α : Type}

/-! ### Fields of a node -/

/-- Texts and flags have keys that labels show. So may nodes, which no label shows, but not what may
be absent: nothing is a scalar. -/
def Part.Fits (key : String) : Part α → Prop
  | text _ | flag _ => key ∈ Outline.labelKeys
  | child _ | list _ => Outline.namesBranch key
  | optional _ => Outline.namesBranch key ∧ key ∉ Outline.labelKeys

/-- Every field of a node has a key that fits it. -/
theorem fits_fields {n : Node α} {field : String × Part α} (h : field ∈ n.fields) :
    field.2.Fits field.1 := by
  revert field
  cases n <;> simp [fields, Part.Fits] <;> decide

/-- The branches of a field: one, unless its label shows it. -/
def Part.branches (key : String) : Part (Option Location) → List Outline
  | text _ | flag _ => []
  | child n | optional (some n) =>
    [.item (Outline.branchName key ++ ": " ++ n.outline.label) n.outline.branches]
  | optional none => [.item (Outline.branchName key ++ ": [dim]none[/dim]") []]
  | list ns =>
    [.item (Outline.branchName key ++ (" [dim](" ++ toString ns.length ++ ")[/dim]"))
      (ns.map outline)]

/-- The branches of listed data are the outlines of the nodes in the list. -/
theorem ofItems_map_dump (ns : List (Node (Option Location))) :
    Outline.ofItems (ns.map dump) = ns.map outline := by
  induction ns with
  | nil => rfl
  | cons n ns ih =>
    rw [List.map_cons, Outline.ofItems, ih]
    rfl

/-- The data of a node under a key is one branch, with the label of the node behind the name of the
key. -/
theorem ofFields_dump {key : String} (hkey : Outline.namesBranch key)
    (n : Node (Option Location)) :
    Outline.ofFields [(key, n.dump)] =
      [.item (Outline.branchName key ++ ": " ++ n.outline.label) n.outline.branches] := by
  obtain ⟨fields, h⟩ := n.exists_dump_eq_record
  simp [outline, h, Outline.ofFields, Outline.ofData, Outline.label, Outline.branches,
    Outline.onLabel, Data.isScalar, hkey.1, hkey.2.1]

/-- The data of a field is its branches, if its key fits it. -/
theorem ofFields_part {key : String} {part : Part (Option Location)} (hkey : part.Fits key) :
    Outline.ofFields [(key, part.dump)] = part.branches key := by
  cases part with
  | text _ | flag _ =>
    have hlabel : key ∈ Outline.labelKeys := hkey
    simp [Part.dump, Part.branches, Outline.ofFields, Outline.onLabel, Data.isScalar, hlabel]
  | child n => exact ofFields_dump hkey n
  | optional o =>
    cases o with
    | none =>
      simp [Part.dump, dumpOption, Part.branches, Outline.ofFields, Outline.onLabel, hkey.2,
        hkey.1.1, hkey.1.2.1]
    | some n => exact ofFields_dump hkey.1 n
  | list ns =>
    simp [Part.dump, Part.branches, Outline.ofFields, Outline.onLabel, Data.isScalar,
      ofItems_map_dump, hkey.1, hkey.2.1]

/-- The branches of a node are those of its fields. -/
theorem branches_outline (n : Node (Option Location)) :
    n.outline.branches = n.fields.flatMap fun field => field.2.branches field.1 := by
  have hplace : (placeFields n.tag).flatMap (fun field => Outline.ofFields [field]) = [] := by
    cases n.tag with
    | none => rfl
    | some location => simp [placeFields, Outline.ofFields]
  have hkind : Outline.ofFields [("type", .text n.kind.name)] = [] := by
    simp [Outline.ofFields]
  rw [outline, dump_eq, entry, Outline.ofData, Outline.branches,
    Outline.ofFields_eq_flatMap, List.flatMap_cons, List.flatMap_append, hplace, hkind,
    List.flatMap_map]
  exact List.flatMap_congr fun field hfield => ofFields_part (fits_fields hfield)

end Node

end RegisterLang
