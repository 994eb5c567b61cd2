/-!
# Markup

Labels carry styles as markup tags: an opening bracket, one of the characters that may start a tag,
any characters but an opening bracket, and a closing bracket. A tag after an odd number of
backslashes is shown as text. `escapeMarkup` protects a text from being taken for markup;
`plainMarkup` is what a label shows once its tags have had their effect.
-/

namespace RegisterLang.Text

/-- A tag starts with a small letter, a number sign, a slash or an at sign. -/
def isTagStart (c : Char) : Bool :=
  ('a' ≤ c && c ≤ 'z') || c == '#' || c == '/' || c == '@'

/-- Reads the tag whose opening bracket stands just before the text: its characters without the
brackets, and the text behind the closing bracket. -/
def tag? : List Char → Option (List Char × List Char)
  | [] => none
  | c :: cs =>
    if isTagStart c then
      match cs.dropWhile (fun d => d != '[' && d != ']') with
      | ']' :: rest => some (c :: cs.takeWhile (fun d => d != '[' && d != ']'), rest)
      | _ => none
    else none

/-- The text behind a tag is shorter than the text that starts with it. -/
theorem length_lt_of_tag? {cs body rest : List Char} (h : tag? cs = some (body, rest)) :
    rest.length < cs.length := by
  cases cs with
  | nil => simp [tag?] at h
  | cons c cs =>
    simp only [tag?] at h
    split at h
    · split at h
      · next tail heq =>
        cases h
        have hle := (List.dropWhile_sublist (l := cs) (fun d => d != '[' && d != ']')).length_le
        rw [heq] at hle
        simp only [List.length_cons] at hle ⊢
        omega
      · cases h
    · cases h

/-- A text as it stands in markup, after `slashes` backslashes. Each tag-like piece gets its
backslashes doubled and one more in front of it. -/
def escapeTags (slashes : Nat) : List Char → List Char
  | [] => List.replicate slashes '\\'
  | c :: cs =>
    if c = '\\' then escapeTags (slashes + 1) cs
    else if c = '[' then
      match h : tag? cs with
      | some (body, rest) =>
        have := length_lt_of_tag? h
        List.replicate (2 * slashes + 1) '\\' ++ '[' :: (body ++ ']' :: escapeTags 0 rest)
      | none => List.replicate slashes '\\' ++ '[' :: escapeTags 0 cs
    else List.replicate slashes '\\' ++ c :: escapeTags 0 cs
termination_by cs => cs.length

/-- A text that ends in a single backslash gets a second one, so that it cannot escape what
follows it. -/
def closeSlash (cs : List Char) : List Char :=
  match cs.reverse with
  | '\\' :: '\\' :: _ => cs
  | '\\' :: _ => cs ++ ['\\']
  | _ => cs

/-- The text in markup that shows `s` and holds no tag of its own. -/
def escapeMarkup (s : String) : String :=
  String.ofList (closeSlash (escapeTags 0 s.toList))

/-- What markup shows, after `slashes` backslashes. Before a tag each pair of backslashes shows one;
a backslash left over shows the tag as text, and without it the tag shows nothing. A bracket that
opens no tag takes away the one backslash in front of it. -/
def plainTags (slashes : Nat) : List Char → List Char
  | [] => List.replicate slashes '\\'
  | c :: cs =>
    if c = '\\' then plainTags (slashes + 1) cs
    else if c = '[' then
      match h : tag? cs with
      | some (body, rest) =>
        have := length_lt_of_tag? h
        let shown := if slashes % 2 = 1 then '[' :: (body ++ [']']) else []
        List.replicate (slashes / 2) '\\' ++ (shown ++ plainTags 0 rest)
      | none => List.replicate (slashes - 1) '\\' ++ '[' :: plainTags 0 cs
    else List.replicate slashes '\\' ++ c :: plainTags 0 cs
termination_by cs => cs.length

/-- The text that markup shows. -/
def plainMarkup (s : String) : String :=
  String.ofList (plainTags 0 s.toList)

end RegisterLang.Text
