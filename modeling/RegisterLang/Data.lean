import RegisterLang.Text.Hex

/-!
# Plain data

Trees are handed to other programs as plain data: texts, numbers, truth values, lists, and records
whose fields keep their order. `Data.json` writes data as indented JSON in ASCII.
-/

namespace RegisterLang

/-- Plain data. The fields of a record have an order. -/
inductive Data where
  | null
  | flag (value : Bool)
  | number (value : Int)
  | text (value : String)
  | list (items : List Data)
  | record (fields : List (String × Data))

namespace Data

/-- Data that has no parts. -/
def isScalar : Data → Bool
  | list _ | record _ => false
  | _ => true

/-! ### JSON text -/

/-- A UTF-16 unit as a JSON escape. -/
def jsonUnit (n : Nat) : List Char :=
  '\\' :: 'u' :: Text.hexDigits 4 n

/-- A character inside a JSON string: some have an escape of their own, the other printable ASCII
characters stand for themselves, and the rest is written as UTF-16 units. -/
def jsonChar (c : Char) : List Char :=
  if c = '"' then ['\\', '"']
  else if c = '\\' then ['\\', '\\']
  else if c = '\n' then ['\\', 'n']
  else if c = '\r' then ['\\', 'r']
  else if c = '\t' then ['\\', 't']
  else if c = '\x08' then ['\\', 'b']
  else if c = '\x0c' then ['\\', 'f']
  else if ' ' ≤ c ∧ c ≤ '~' then [c]
  else if c.toNat < 0x10000 then jsonUnit c.toNat
  else
    let n := c.toNat - 0x10000
    jsonUnit (0xD800 + n / 0x400) ++ jsonUnit (0xDC00 + n % 0x400)

/-- A JSON string. -/
def jsonString (s : String) : String :=
  "\"" ++ String.ofList (s.toList.flatMap jsonChar) ++ "\""

/-- The start of a line at a nesting level: two spaces for each level. -/
def indent (level : Nat) : String :=
  String.ofList (List.replicate (2 * level) ' ')

/-- The parts of a list or record between its brackets, each on a line of its own. -/
def jsonBlock (opening closing : String) (level : Nat) (parts : List String) : String :=
  match parts with
  | [] => opening ++ closing
  | parts =>
    opening ++ "\n" ++ ",\n".intercalate (parts.map (indent (level + 1) ++ ·)) ++ "\n" ++
      indent level ++ closing

mutual

/-- The JSON text of data at a nesting level. -/
def jsonAt (level : Nat) : Data → String
  | null => "null"
  | flag value => if value then "true" else "false"
  | number value => toString value
  | text value => jsonString value
  | list items => jsonBlock "[" "]" level (jsonItems (level + 1) items)
  | record fields => jsonBlock "\x7b" "\x7d" level (jsonFields (level + 1) fields)

/-- The JSON texts of the items of a list. -/
def jsonItems (level : Nat) : List Data → List String
  | [] => []
  | item :: items => jsonAt level item :: jsonItems level items

/-- The JSON texts of the fields of a record. -/
def jsonFields (level : Nat) : List (String × Data) → List String
  | [] => []
  | (key, value) :: fields =>
    (jsonString key ++ ": " ++ jsonAt level value) :: jsonFields level fields

end

/-- The JSON text of data. -/
def json (d : Data) : String :=
  jsonAt 0 d

end Data

end RegisterLang
