/-!
# Letter case

Small and capital forms of letters are given by data: ranges of code points whose other form lies at
a constant distance, and single letters whose other form has several characters.
-/

namespace RegisterLang.Text

/-- Every `step`-th code point from `first` to `last` has its other form `shift` places further. -/
structure CaseRange where
  first : Nat
  last : Nat
  step : Nat
  shift : Int

/-- The range holds the code point. -/
def CaseRange.holds (r : CaseRange) (n : Nat) : Bool :=
  r.first ≤ n && n ≤ r.last && (n - r.first) % r.step == 0

/-- The other form of a character: its expansion if it has one, else the shifted code point of the
first range that holds it, else the character itself. -/
def changeCase (expansions : List (Nat × List Nat)) (ranges : List CaseRange) (c : Char) :
    List Char :=
  match expansions.lookup c.toNat with
  | some points => points.map Char.ofNat
  | none =>
    match ranges.find? (·.holds c.toNat) with
    | some r => [Char.ofNat (c.toNat + r.shift).toNat]
    | none => [c]

end RegisterLang.Text
