import RegisterLang.Node.Dump
import RegisterLang.Text.Markup
import RegisterLang.Text.Quoted

/-!
# Outlines

An outline shows data for reading: every record is an item whose label carries its kind, its scalar
fields and its place, and whose branches are the records and lists inside it. Labels are markup, so
that a terminal can style them; field texts are escaped and never act as markup themselves.
-/

namespace RegisterLang

/-- A tree of labels. -/
inductive Outline where
  | item (label : String) (branches : List Outline)

namespace Outline

/-- The label of an item. -/
def label : Outline → String
  | item label _ => label

/-- The branches of an item. -/
def branches : Outline → List Outline
  | item _ branches => branches

/-! ### Labels -/

/-- The scalar fields that a label shows, in this order. -/
def labelKeys : List String :=
  ["name", "operator", "kind", "literalType", "value", "path", "const"]

/-- A field that a label shows is not a branch. -/
def onLabel (key : String) (value : Data) : Bool :=
  labelKeys.contains key && value.isScalar

/-- A scalar on a label: texts are quoted. -/
def scalarText : Data → String
  | .null => "None"
  | .flag value => if value then "True" else "False"
  | .number value => toString value
  | .text value => Text.quoted value
  | .list _ | .record _ => ""

/-- The kind of a record. -/
def kindText (fields : List (String × Data)) : String :=
  match fields.lookup "type" with
  | some (.text kind) => kind
  | _ => ""

/-- The scalar fields of a record as its label shows them. -/
def scalarParts (fields : List (String × Data)) : List String :=
  labelKeys.filterMap fun key =>
    match fields.lookup key with
    | some value =>
      if value.isScalar then some (Text.escapeMarkup (key ++ "=" ++ scalarText value)) else none
    | none => none

/-- The place of a record as its label shows it. -/
def placeParts (fields : List (String × Data)) : List String :=
  match fields.lookup "loc" with
  | some (.record [(_, .number line), (_, .number column)]) =>
    ["[dim]" ++ toString line ++ ":" ++ toString column ++ "[/dim]"]
  | _ => []

/-- The label of a record. -/
def recordLabel (fields : List (String × Data)) : String :=
  " ".intercalate
    (("[bold]" ++ kindText fields ++ "[/bold]") :: (scalarParts fields ++ placeParts fields))

/-- The name of a branch. -/
def branchName (key : String) : String :=
  "[cyan]" ++ key ++ "[/cyan]"

/-! ### From data to outlines -/

mutual

/-- The item of a record under a label that starts with `lead`. -/
def ofData (lead : String) : Data → Outline
  | .record fields => item (lead ++ recordLabel fields) (ofFields fields)
  | _ => item lead []

/-- The items of a list. -/
def ofItems : List Data → List Outline
  | [] => []
  | d :: ds => ofData "" d :: ofItems ds

/-- The branches of a record: the fields in their order, less what its label shows. -/
def ofFields : List (String × Data) → List Outline
  | [] => []
  | (key, value) :: fields =>
    let rest := ofFields fields
    if key = "type" ∨ key = "loc" ∨ onLabel key value then rest
    else match value with
      | .record inner =>
        item (branchName key ++ ": " ++ recordLabel inner) (ofFields inner) :: rest
      | .list items =>
        let count := " [dim](" ++ toString items.length ++ ")[/dim]"
        item (branchName key ++ count) (ofItems items) :: rest
      | .null => item (branchName key ++ ": [dim]none[/dim]") [] :: rest
      | _ => rest

end

/-! ### Plain text -/

mutual

/-- The lines of an item: its label behind `lead`, and its branches behind guides that start with
`indent`. -/
def linesFrom (lead indent : String) : Outline → List String
  | item label branches => (lead ++ Text.plainMarkup label) :: branchLines indent branches

/-- The lines of the branches of an item. The last branch has a corner, and nothing runs down beside
what is below it. -/
def branchLines (indent : String) : List Outline → List String
  | [] => []
  | [last] => linesFrom (indent ++ "└── ") (indent ++ "    ") last
  | branch :: branches =>
    linesFrom (indent ++ "├── ") (indent ++ "│   ") branch ++ branchLines indent branches

end

/-- An outline as plain text: markup takes effect, and guides show the structure. -/
def text (o : Outline) : String :=
  String.join ((linesFrom "" "" o).map (· ++ "\n"))

end Outline

/-- The outline of a tree. -/
def Node.outline (n : Node (Option Location)) : Outline :=
  Outline.ofData "" n.dump

end RegisterLang
