import RegisterLang.Text.Quoted

/-!
# Locations

A location names a character of a source text. Lines and columns count from one and the offset from
zero; all three count characters, and only a line feed ends a line.
-/

namespace RegisterLang

/-- Where something stands in a source. The numbers are integers because locations may also be made
by hand, for reports about texts that nobody scanned. -/
structure Location where
  /-- The display name of the source. -/
  file : String
  line : Int
  column : Int
  /-- The number of characters in front. -/
  offset : Int
  deriving DecidableEq

/-- The short form of a location: file, line and column, between colons. -/
def Location.text (place : Location) : String :=
  place.file ++ ":" ++ toString place.line ++ ":" ++ toString place.column

/-- The full form of a location, with its offset and the file name in quotes. -/
def Location.detail (place : Location) : String :=
  "SourceLocation(" ++ Text.quoted place.file ++ ", " ++ toString place.line ++ ", " ++
    toString place.column ++ ", " ++ toString place.offset ++ ")"

/-- Line, column and offset of a cursor that reads a text from its start. -/
structure Position where
  line : Nat
  column : Nat
  offset : Nat
  deriving DecidableEq

namespace Position

/-- The position of the first character of a text. -/
def start : Position := ⟨1, 1, 0⟩

/-- The position behind a character: a line feed starts the next line, every other character moves
one column on. -/
def after (p : Position) (c : Char) : Position :=
  if c = '\n' then ⟨p.line + 1, 1, p.offset + 1⟩ else ⟨p.line, p.column + 1, p.offset + 1⟩

/-- The position behind a text that starts at `p`. -/
def afterAll (p : Position) (cs : List Char) : Position :=
  cs.foldl after p

/-- No characters leave a position where it is. -/
@[simp] theorem afterAll_nil (p : Position) : p.afterAll [] = p := rfl

/-- Characters one after the other move a position on one after the other. -/
@[simp] theorem afterAll_cons (p : Position) (c : Char) (cs : List Char) :
    p.afterAll (c :: cs) = (p.after c).afterAll cs := rfl

/-- Reading two texts in a row is reading their concatenation. -/
theorem afterAll_append (p : Position) (cs ds : List Char) :
    p.afterAll (cs ++ ds) = (p.afterAll cs).afterAll ds :=
  List.foldl_append

/-- The offset counts the characters read. -/
@[simp] theorem offset_afterAll (p : Position) (cs : List Char) :
    (p.afterAll cs).offset = p.offset + cs.length := by
  induction cs generalizing p with
  | nil => rfl
  | cons c cs ih =>
    rw [afterAll_cons, ih, List.length_cons]
    unfold after
    split <;> simp <;> omega

/-- The position as a location in a named source. -/
def inFile (p : Position) (file : String) : Location :=
  ⟨file, p.line, p.column, p.offset⟩

end Position

end RegisterLang
