import RegisterLang.Proofs.Grammar.Safety
import RegisterLang.Proofs.Print.RoundTrip

/-!
# Chains and frames

A sum takes two levels of nesting however long it is, but its tree is as high as it is long. So the
limit on nesting does not keep an interpreter from breaking off: however many frames there are, a
longer sum is read without them and breaks reading off with them.
-/

namespace RegisterLang

open Grammar Scanner

/-! ### Sums -/

/-- The sum of ones with so many plus signs. Its tree leans to the left. -/
def onesTree : Nat → Node Unit
  | 0 => .literal () .number "1"
  | n + 1 => .binary () "+" (onesTree n) (.literal () .number "1")

/-- The tokens of the sum with so many plus signs, in front of other tokens. -/
def onesTokens : Nat → List Token → List Token
  | 0, ys => .bare .number "1" :: ys
  | n + 1, ys => onesTokens n (.bare .binaryOperator "+" :: .bare .number "1" :: ys)

/-- A sum starts with a one. -/
theorem head?_onesTokens (n : Nat) (ys : List Token) :
    (onesTokens n ys).head? = some (.bare .number "1") := by
  induction n generalizing ys with
  | zero => rfl
  | succ n ih => exact ih _

/-- The tree of a sum is higher than it has plus signs. -/
theorem height_onesTree (n : Nat) : (onesTree n).height = n + 1 := by
  induction n with
  | zero => rw [onesTree, Node.height_eq]; rfl
  | succ n ih =>
    have hone : (Node.literal () .number "1").height = 1 := by rw [Node.height_eq]; rfl
    rw [onesTree, Node.height_eq]
    simp [Node.children, ih, hone]

/-- The tokens of a sum form its tree. -/
theorem forms_onesTree (n : Nat) (ys : List Token) :
    Forms 0 (.binary (rank "+") (onesTree n)) (onesTokens n ys) ys := by
  have hone (least : Nat) (zs : List Token) :
      Forms 0 (.binary least (.literal () .number "1")) (.bare .number "1" :: zs) zs :=
    .single (.plain (.bare (@Derives.literal _ _ _ _ _ (.bare .number "1") _ rfl)))
  induction n generalizing ys with
  | zero => exact hone _ ys
  | succ n ih =>
    have hplus : rank "+" ≠ 0 := by decide
    exact @Derives.binary _ _ _ _ _ (onesTree n) _ (.bare .binaryOperator "+") _ _ _ rfl hplus
      (Nat.le_refl _) (ih _) (hone _ ys)

/-- The tokens of a sum and a semicolon form one statement. -/
theorem forms_onesStatement (n : Nat) :
    Forms 2 (.statements [onesTree n]) (onesTokens n [.bare .delimiter ";"]) [] := by
  have hexpression : Forms 1 (.expression (onesTree n)) (onesTokens n [.bare .delimiter ";"])
      [.bare .delimiter ";"] :=
    .value ((forms_onesTree n _).weaken (Nat.zero_le _))
  have hstarts : StartsExpressionStatement (onesTokens n [.bare .delimiter ";"]) :=
    ⟨_, head?_onesTokens n _, .inl (by decide)⟩
  exact .moreStatements (.evaluates hstarts hexpression rfl) .noStatement

/-- The tokens of a sum may stand in a text. -/
theorem lawful_onesTokens (n : Nat) {ys : List Token} (hys : Lawful .free ys) :
    Lawful .free (onesTokens n ys) := by
  have hspellable : Spellable .number "1" :=
    ⟨_, [], @Spells.integer ['1'] [] (by decide) (by decide) nofun nofun nofun⟩
  have hone {zs : List Token} (hzs : Lawful .free zs) : Lawful .free (.bare .number "1" :: zs) :=
    ⟨hspellable, nofun, hzs⟩
  induction n generalizing ys with
  | zero => exact hone hys
  | succ n ih => exact ih ⟨⟨_, _, spells_operator (by decide) []⟩, nofun, hone hys⟩

/-! ### Breaking off -/

/-- Trees of one shape are of one height. -/
theorem Node.height_map {α β : Type} (f : α → β) (n : Node α) : (n.map f).height = n.height := by
  induction n using Node.induction with
  | step n ih =>
    rw [height_eq, height_eq n, children_map, List.map_map]
    exact congrArg (fun heights => heights.foldr max 0 + 1) (List.map_congr_left ih)

/-- There is a program of one short statement, with two levels of nesting, for every number of
frames that breaks reading off with so many frames. Its text is a sum of ones with as many plus
signs. -/
theorem exists_parseSource_eq_recursion (i : Interpreter) (file : String) :
    ∃ source, ∀ limit : Int, 2 ≤ limit →
      (∃ tree, parseSource .program source file limit = .ok tree) ∧
        i.parseSource .program source file limit = .error .recursion := by
  have hlawful : Lawful .free (onesTokens i.frames [.bare .delimiter ";"]) :=
    lawful_onesTokens i.frames ⟨⟨_, [], .delimiter (c := ';') (by decide)⟩, nofun, trivial⟩
  obtain ⟨ts, hscans, hforms⟩ := exists_scans_text hlawful (forms_onesStatement i.frames) file
  refine ⟨Print.text (.document () [onesTree i.frames]), fun limit hlimit => ?_⟩
  have hdeep : Forms limit.toNat (.statements [onesTree i.frames]) ts [] := hforms.mono (by omega)
  obtain ⟨tree, htree, hshape⟩ := parseSource_eq_ok_iff.mpr ⟨ts, hscans, hdeep⟩
  refine ⟨⟨tree, htree⟩, interpreter_parseSource_of_lt htree ?_⟩
  have hheight : tree.height = i.frames + 2 := by
    rw [← Node.height_map (fun _ => ()) tree, show tree.map (fun _ => ()) = _ from hshape,
      Node.height_eq]
    simp [Node.children, height_onesTree]
  change i.frames < tree.height
  omega

end RegisterLang
