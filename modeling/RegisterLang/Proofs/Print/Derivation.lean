import RegisterLang.Proofs.Grammar.Program
import RegisterLang.Proofs.Print.Canonical

/-!
# Canonical items derive what they are laid out from

Whatever tokens a program is derived from, the tokens of its canonical items derive the same program
again, and with no more levels of nesting. An operand that stood in parentheses may lose them, since
it binds tightly enough for its place, and no operand gets parentheses that did not have them.
-/

namespace RegisterLang.Grammar

open Print Token

/-! ### How a statement starts -/

/-- The tokens `first' :: zs` can start an expression statement like the tokens `first :: xs` in
front of `ys`: they start with no register, or with a register alone, or with a register and the
same second token. -/
def StartsLike (first : Token) (xs ys : List Token) (first' : Token) (zs : List Token) : Prop :=
  first'.kind ∈ expressionStarts ∨
    (first.kind = .register ∧ first'.kind = .register ∧
      (xs = ys ∧ zs = [] ∨ ∃ second ∈ xs.head?, ∃ second' ∈ zs.head?, second'.Alike second))

/-- What stands behind an operand does not change how it starts. -/
theorem StartsLike.append {first op op' : Token} {xs ys ts ws : List Token}
    (h : ∃ first' zs, ts = first' :: zs ∧ StartsLike first xs (op :: ys) first' zs)
    (hop : op'.Alike op) (ys' : List Token) :
    ∃ first' zs, ts ++ op' :: ws = first' :: zs ∧ StartsLike first xs ys' first' zs := by
  obtain ⟨first', zs, rfl, hlike⟩ := h
  refine ⟨first', zs ++ op' :: ws, rfl, ?_⟩
  rcases hlike with hkind | ⟨hkind, hkind', ⟨rfl, rfl⟩ | ⟨second, hsecond, second', hzs, hsame⟩⟩
  · exact .inl hkind
  · exact .inr ⟨hkind, hkind', .inr ⟨op, rfl, op', rfl, hop⟩⟩
  · refine .inr ⟨hkind, hkind', .inr ⟨second, hsecond, second', ?_, hsame⟩⟩
    obtain ⟨zs, rfl⟩ := List.head?_eq_some_iff.mp hzs
    rfl

/-- An expression without parentheses in front binds tightly enough, and its items start like its
tokens. -/
def Phrase.StartsBare (xs ys : List Token) : Phrase Unit → Prop
  | expression tree => starts 0 tree
  | binary least tree => least ≤ 9 → starts (max 1 least) tree
  | operand tree => starts 9 tree
  | suffixed tree | primary tree => starts 10 tree
  | _ => True
where
  starts (need : Nat) (tree : Node Unit) : Prop :=
    ∀ first xs', xs = first :: xs' → ¬ first.isDelimiter "(" →
      need ≤ tree.level ∧ ∃ first' zs, tokens (items tree) = first' :: zs ∧
        StartsLike first xs' ys first' zs

/-- Literals start expression statements. -/
theorem tokenKind_mem_expressionStarts (kind : LiteralKind) :
    kind.tokenKind ∈ expressionStarts := by
  cases kind <;> decide

/-- Operands in place are laid out without parentheses. -/
theorem wrapped_of_le {need : Nat} {tree : Node Unit} (h : need ≤ tree.level) :
    wrapped (tree.level < need) (items tree) = items tree := by
  rw [wrapped, if_neg (by simpa using h)]

/-- What starts with an operand in its place starts like the operand. -/
theorem Phrase.StartsBare.starts.append {need need' : Nat} {left tree : Node Unit}
    {xs ys : List Token} {op op' : Token} (h : starts xs (op :: ys) need left)
    (hop : op'.Alike op) (hlevel : need' ≤ tree.level)
    (hitems : ∃ ws, tokens (items tree) =
      tokens (wrapped (left.level < need) (items left)) ++ op' :: ws) (ys' : List Token) :
    starts xs ys' need' tree := by
  intro first xs' hxs hopen
  obtain ⟨hneed, hleft⟩ := h first xs' hxs hopen
  obtain ⟨ws, hitems⟩ := hitems
  refine ⟨hlevel, ?_⟩
  rw [hitems, wrapped_of_le hneed]
  exact StartsLike.append hleft hop ys'

/-- What asks for less starts just the same. -/
theorem Phrase.StartsBare.starts.mono {need need' : Nat} {tree : Node Unit} {xs ys : List Token}
    (h : starts xs ys need tree) (hle : need' ≤ need) : starts xs ys need' tree := by
  intro first xs' hxs hopen
  obtain ⟨hneed, hitems⟩ := h first xs' hxs hopen
  exact ⟨by omega, hitems⟩

/-- Expressions without parentheses in front need none in their places, and their canonical items
start like their tokens. -/
theorem Derives.startsBare {n : Nat} {phrase : Phrase Unit} {xs ys : List Token}
    (h : Forms n phrase xs ys) : phrase.StartsBare xs ys := by
  induction h with
  | value _ ih => exact (ih (Nat.zero_le _)).mono (Nat.zero_le _)
  | @assignment n left right op xs ys zs _ hop _ ih =>
    have hleft : Phrase.StartsBare.starts xs (op :: ys) 1 left := ih (Nat.zero_le _)
    refine hleft.append (bare_alike_of_is (is_iff.mpr ⟨hop, rfl⟩)) (Nat.zero_le _)
      ⟨tokens (items right), ?_⟩ _
    rw [items, tokens_append]
    rfl
  | single _ ih => exact fun hleast => ih.mono (by omega)
  | @binary n least left right op xs ys zs hop hrank hleast _ _ ih =>
    intro _
    have hle := rank_le op.lexeme
    have hleft := (ih (by omega)).mono (Nat.le_max_right _ _)
    have htight : max 1 least ≤ (Node.binary () op.lexeme left right).level := by
      rw [Node.level]
      omega
    refine hleft.append (bare_alike_of_is (is_iff.mpr ⟨hop, rfl⟩)) htight
      ⟨tokens (wrapped (right.level < rank op.lexeme + 1) (items right)), ?_⟩ _
    rw [items, tokens_append]
    rfl
  | plain _ ih => exact ih.mono (by omega)
  | @unary n tree op xs ys hop =>
    intro first xs' hxs hopen
    have hstarts : (if op.lexeme ∈ Operator.signs then TokenKind.binaryOperator
        else .unaryOperator) ∈ expressionStarts := by
      split <;> decide
    exact ⟨Nat.le_refl _, _, _, by rw [items, prefixItem, tokens_cons_token], .inl hstarts⟩
  | bare _ ih => exact ih
  | @call n callee args _ _ _ _ _ _ hopening _ _ ih =>
    refine ih.append (bare_alike_of_is hopening) (Nat.le_refl 10)
      ⟨tokens ([delimiter ",", .space].intercalate (itemsAll args) ++ [delimiter ")"]), ?_⟩ _
    rw [items, tokens_append]
    rfl
  | @member n object _ name _ _ _ hdot _ ih =>
    refine ih.append (bare_alike_of_is hdot) (Nat.le_refl 10)
      ⟨tokens (items (nameOf (fun _ => ()) name)), ?_⟩ _
    rw [items, tokens_append]
    rfl
  | literal =>
    intro first xs' hxs hopen
    exact ⟨Nat.le_refl _, _, _, rfl, .inl (tokenKind_mem_expressionStarts _)⟩
  | identifier =>
    intro first xs' hxs hopen
    have hstarts : TokenKind.identifier ∈ expressionStarts := by decide
    exact ⟨Nat.le_refl _, _, _, rfl, .inl hstarts⟩
  | register hkind =>
    intro first xs' hxs hopen
    cases hxs
    exact ⟨Nat.le_refl _, _, _, rfl, .inr ⟨hkind, rfl, .inl ⟨rfl, rfl⟩⟩⟩
  | parenthesized hopening =>
    intro first xs' hxs hopen
    cases hxs
    exact absurd hopening hopen
  | _ => trivial

/-- The items of an expression statement start an expression statement. -/
theorem startsExpressionStatement_items {n : Nat} {tree : Node Unit} {semicolon : Token}
    {xs ys : List Token} (hstarts : StartsExpressionStatement xs)
    (h : Forms n (.expression tree) xs (semicolon :: ys)) (ys' : List Token) :
    StartsExpressionStatement (tokens (items tree) ++ .bare .delimiter ";" :: ys') := by
  obtain ⟨first, hfirst, hkind⟩ := hstarts
  obtain ⟨xs, rfl⟩ := List.head?_eq_some_iff.mp hfirst
  have hopen : ¬ first.isDelimiter "(" := by
    intro hdelimiter
    rw [(Token.is_iff.mp hdelimiter).1] at hkind
    rcases hkind with hmem | ⟨hregister, _⟩
    · exact absurd hmem (by decide)
    · cases hregister
  obtain ⟨_, first', zs, hitems, hlike⟩ := h.startsBare first xs rfl hopen
  rw [hitems]
  refine ⟨first', rfl, ?_⟩
  rcases hlike with hkind' | ⟨hregister, hregister', hlike⟩
  · exact .inl hkind'
  · have hnone : ¬ StartsDeclaration (first :: xs) := by
      rw [hregister] at hkind
      exact (hkind.resolve_left (by decide)).2
    refine .inr ⟨hregister', fun hdeclares => hnone ?_⟩
    rcases hlike with ⟨rfl, rfl⟩ | ⟨second, hsecond, second', hsecond', hsame⟩
    · revert hdeclares
      simp [StartsDeclaration, Token.bare, Token.is]
    · obtain ⟨xs, rfl⟩ := List.head?_eq_some_iff.mp hsecond
      obtain ⟨zs, rfl⟩ := List.head?_eq_some_iff.mp hsecond'
      exact ⟨hregister, hdeclares.2.imp hsame.kind.symm.trans hsame.is⟩

/-! ### Places of operands -/

section

variable {n p : Nat} {tree : Node Unit} {xs ys : List Token}

/-- An expression that is no assignment stands between operators on the lowest level of
precedence. -/
theorem Derives.binary_of_expression (h : Forms n (.expression tree) xs ys)
    (hlevel : 1 ≤ tree.level) : Forms n (.binary 0 tree) xs ys := by
  cases h with
  | value hbinary => exact hbinary.succ
  | assignment => cases hlevel

/-- An expression stands between operators on every level up to its own. -/
theorem Derives.binary_of_level (h : Forms n (.binary p tree) xs ys) {least : Nat}
    (hlevel : least ≤ tree.level) : Forms n (.binary least tree) xs ys := by
  cases h with
  | single hoperand => exact .single hoperand
  | binary hop hrank _ hleft hright => exact .binary hop hrank hlevel hleft hright

/-- An expression that binds more tightly than all binary operators is an operand. -/
theorem Derives.operand_of_level (h : Forms n (.binary p tree) xs ys) (hlevel : 9 ≤ tree.level) :
    Forms n (.operand tree) xs ys := by
  cases h with
  | single hoperand => exact hoperand
  | @binary _ _ _ _ op =>
    have hle := rank_le op.lexeme
    rw [Node.level] at hlevel
    omega

/-- An operand without an operator in front is an expression with its calls and members. -/
theorem Derives.suffixed_of_level (h : Forms n (.operand tree) xs ys) (hlevel : 10 ≤ tree.level) :
    Forms n (.suffixed tree) xs ys := by
  cases h with
  | plain hsuffixed => exact hsuffixed
  | unary =>
    rw [Node.level] at hlevel
    omega

/-- An expression of one token stands where a primary does. -/
theorem Derives.primary_of_isAtom (h : Forms n (.suffixed tree) xs ys) (hatom : tree.isAtom) :
    Forms n (.primary tree) xs ys := by
  cases h with
  | bare hprimary => exact hprimary
  | call => cases hatom
  | member => cases hatom

end

/-! ### What canonical items derive -/

/-- The tokens of the items derive the phrase, whatever stands behind them. -/
def Renders (n : Nat) (phrase : Phrase Unit) (its : List Item) : Prop :=
  ∀ ys, Forms n phrase (tokens its ++ ys) ys

/-- The items of an expression derive a phrase of it if it is tight enough for that phrase;
otherwise, they derive at least an expression, as in parentheses they did. -/
structure Fits (n : Nat) (tight : Bool) (phrase : Phrase Unit) (tree : Node Unit) : Prop where
  isExpression : tree.isExpression
  renders : (tight ∧ Renders n phrase (items tree)) ∨ Renders n (.expression tree) (items tree)

section

variable {n : Nat} {phrase : Phrase Unit} {its : List Item} {tight : Bool} {tree : Node Unit}

/-- With one more level, items derive what they derive without it. -/
theorem Renders.succ (h : Renders n phrase its) : Renders (n + 1) phrase its :=
  fun ys => (h ys).succ

/-- An expression in parentheses may stand wherever a primary may stand. -/
theorem Renders.parenthesized (h : Renders n (.expression tree) its) :
    Renders n (.primary tree) (wrapped true its) := by
  intro ys
  have hexpression := h (.bare .delimiter ")" :: ys)
  simpa [wrapped] using
    Derives.parenthesized (isDelimiter_bare "(") hexpression (isDelimiter_bare ")")

/-- What fits a phrase fits one that asks for less. -/
theorem Fits.imp {tight' : Bool} {phrase' : Phrase Unit} (h : Fits n tight phrase tree)
    (htight : tight → tight')
    (hphrase : ∀ xs ys, Forms n phrase xs ys → Forms n phrase' xs ys) :
    Fits n tight' phrase' tree :=
  ⟨h.isExpression, h.renders.imp_left fun ⟨hprevious, hrenders⟩ =>
    ⟨htight hprevious, fun ys => hphrase _ _ (hrenders ys)⟩⟩

/-- In its place, with parentheses if it needs them, what fits derives its phrase. -/
theorem Fits.wrapped (h : Fits n tight phrase tree)
    (hprimary : ∀ xs ys, Forms n (.primary tree) xs ys → Forms n phrase xs ys)
    (htight : tight → ∀ xs ys, Forms n (.expression tree) xs ys → Forms n phrase xs ys) :
    Renders n phrase (wrapped (!tight) (items tree)) := by
  intro ys
  cases tight with
  | false =>
    rcases h.renders with ⟨hfalse, _⟩ | hexpression
    · cases hfalse
    · exact hprimary _ _ (hexpression.parenthesized ys)
  | true =>
    rcases h.renders with ⟨_, hphrase⟩ | hexpression
    · exact hphrase ys
    · exact htight rfl _ _ (hexpression ys)

/-- Between operators, parentheses stand around what binds more loosely than the place needs. -/
theorem Fits.binary {need least : Nat} (h : Fits n (need ≤ tree.level) (.binary least tree) tree)
    (hneed : 1 ≤ need) (hleast : least ≤ need) :
    Renders n (.binary least tree) (Print.wrapped (tree.level < need) (items tree)) := by
  have hplace := h.wrapped (fun _ _ hprimary => .single (.plain (.bare hprimary)))
    fun htight _ _ hexpression => by
      have hlevel := of_decide_eq_true htight
      exact (hexpression.binary_of_expression (by omega)).binary_of_level (by omega)
  simpa only [← decide_not, Nat.not_le] using hplace

/-- Behind an operator, parentheses stand around what binds more loosely than an operand. -/
theorem Fits.operand (h : Fits n (9 ≤ tree.level) (.operand tree) tree) :
    Renders n (.operand tree) (Print.wrapped (tree.level < 9) (items tree)) := by
  have hplace := h.wrapped (fun _ _ hprimary => .plain (.bare hprimary))
    fun htight _ _ hexpression => by
      have hlevel := of_decide_eq_true htight
      exact (hexpression.binary_of_expression (by omega)).operand_of_level hlevel
  simpa only [← decide_not, Nat.not_le] using hplace

/-- In front of a call or a member, parentheses stand around what binds more loosely than those. -/
theorem Fits.suffixed (h : Fits n (10 ≤ tree.level) (.suffixed tree) tree) :
    Renders n (.suffixed tree) (Print.wrapped (tree.level < 10) (items tree)) := by
  have hplace := h.wrapped (fun _ _ hprimary => .bare hprimary)
    fun htight _ _ hexpression => by
      have hlevel := of_decide_eq_true htight
      have hbinary := hexpression.binary_of_expression (by omega)
      exact (hbinary.operand_of_level (by omega)).suffixed_of_level hlevel
  simpa only [← decide_not, Nat.not_le] using hplace

/-- Where a primary is needed, parentheses stand around all but single tokens. -/
theorem Fits.primary (h : Fits n tree.isAtom (.primary tree) tree) :
    Renders n (.primary tree) (Print.wrapped (!tree.isAtom) (items tree)) :=
  h.wrapped (fun _ _ hprimary => hprimary) fun hatom _ _ hexpression => by
    have hlevel := Node.level_of_isAtom hatom
    have hbinary := hexpression.binary_of_expression (by omega)
    have hoperand := hbinary.operand_of_level (by omega)
    exact (hoperand.suffixed_of_level (by omega)).primary_of_isAtom hatom

/-- The items of a declaration with a type and a value derive it. -/
theorem Renders.typedDeclaration (isConst : Bool) (name typeName : String)
    (hexpression : tree.isExpression) (h : Renders n (.expression tree) (items tree)) :
    Renders n
      (.declaration isConst
        (.declaration () name isConst (some (.primary () .identifier typeName)) tree))
      (items (.declaration () name false (some (.primary () .identifier typeName)) tree)) := by
  intro ys
  have hvalue := Derives.closedValue (h (.bare .delimiter ";" :: ys)) (isDelimiter_bare ";")
  simpa [items, typeItems, nameOf, Node.nameText, hexpression] using
    @Derives.typedDeclaration _ _ _ _ isConst _ (.bare .register name) (.bare .typeName typeName)
      _ _ _ rfl rfl (is_bare .assignOperator "=") hvalue

end

/-- The canonical items of what is read as a phrase derive the phrase. -/
def Phrase.RendersItems (n : Nat) : Phrase Unit → Prop
  | statements trees =>
    Renders n (.statements trees) ([.newline].intercalate (trees.map statementItems))
  | statement tree =>
    Renders n (.statement tree) (statementItems tree) ∧
      (tree.isExpression → Renders n (.expression tree) (items tree))
  | declaration isConst tree =>
    ∃ name typeName value, tree = .declaration () name isConst typeName value ∧
      Renders n (.declaration isConst tree) (items (.declaration () name false typeName value))
  | initialValue tree => tree.isExpression ∧ Renders n (.expression tree) (items tree)
  | block tree => Renders n (.block tree) (items tree)
  | params trees => Renders n (.params trees) (items (.params () trees))
  | furtherParams trees =>
    Renders n (.furtherParams trees)
      ((trees.map paramItems).flatMap ([delimiter ",", .space] ++ ·))
  | param tree => Renders n (.param tree) (paramItems tree)
  | typeAfterColon tree => Renders n (.typeAfterColon tree) (colonItems tree)
  | capture tree => Renders n (.capture tree) (captureItems tree)
  | expression tree => tree.isExpression ∧ Renders n (.expression tree) (items tree)
  | binary least tree => least ≤ 9 → Fits n (max 1 least ≤ tree.level) (.binary least tree) tree
  | operand tree => Fits n (9 ≤ tree.level) (.operand tree) tree
  | suffixed tree => Fits n (10 ≤ tree.level) (.suffixed tree) tree
  | primary tree => Fits n tree.isAtom (.primary tree) tree
  | arguments trees =>
    Renders n (.arguments trees) ([delimiter ",", .space].intercalate (trees.map items))
  | furtherArguments trees =>
    Renders n (.furtherArguments trees)
      ((trees.map items).flatMap ([delimiter ",", .space] ++ ·))

/-- The tokens that literals of a kind are written as are read as literals of that kind. -/
theorem literalKind?_tokenKind (kind : LiteralKind) : literalKind? kind.tokenKind = some kind := by
  cases kind <;> rfl

/-- Every operator in front of an operand is written as one. -/
theorem isUnary_bare (op : String) :
    isUnary (.bare (if op ∈ Operator.signs then .binaryOperator else .unaryOperator) op) := by
  by_cases hsign : op ∈ Operator.signs <;> simp [isUnary, hsign]

/-- The canonical items of what is derived derive it again. -/
theorem Derives.rendersItems {n : Nat} {phrase : Phrase Unit} {xs ys : List Token}
    (h : Forms n phrase xs ys) : phrase.RendersItems n := by
  induction h with
  | noStatement => exact fun _ => .noStatement
  | moreStatements _ _ ih₁ ih₂ =>
    intro ys
    have htrees := ih₂ ys
    rw [tokens_lines] at htrees ⊢
    simpa using Derives.moreStatements (ih₁.1 _) htrees
  | declares _ ih =>
    obtain ⟨name, typeName, value, rfl, hitems⟩ := ih
    exact ⟨fun ys => .declares (hitems ys), by rintro ⟨⟩⟩
  | declaresConst _ _ ih =>
    obtain ⟨name, typeName, value, rfl, hitems⟩ := ih
    exact ⟨fun ys => .declaresConst (is_bare .directive "const") (hitems ys), by rintro ⟨⟩⟩
  | returnsNothing =>
    refine ⟨fun ys => ?_, by rintro ⟨⟩⟩
    exact .returnsNothing (is_bare .keyword "return") (isDelimiter_bare ";")
  | returnsValue _ _ _ ih =>
    refine ⟨fun ys => ?_, by rintro ⟨⟩⟩
    have hvalue := ih.2 (.bare .delimiter ";" :: ys)
    simpa [statementItems, terminated, Node.isExpression, items, argumentItems] using
      Derives.returnsValue (is_bare .keyword "return") hvalue (isDelimiter_bare ";")
  | @imports _ _ _ path =>
    refine ⟨fun ys => ?_, by rintro ⟨⟩⟩
    exact .imports (is_bare .directive "import") (isDelimiter_bare "(")
      (kind_bare .string path.lexeme) (isDelimiter_bare ")") (isDelimiter_bare ";")
  | @function n ps returnType body _ name _ _ _ _ _ _ _ _ _ _ _ _ _ ih₁ ih₂ ih₃ =>
    refine ⟨fun ys => ?_, by rintro ⟨⟩⟩
    have hparams := ih₁ (.bare .delimiter ")" :: (tokens (colonItems returnType) ++
      (tokens (items body) ++ ys)))
    simpa [statementItems, terminated, Node.isExpression, items] using
      Derives.function (is_bare .directive "func") (kind_bare .identifier name.lexeme)
        (isDelimiter_bare "(") hparams (isDelimiter_bare ")") (ih₂ _) (ih₃ _)
  | @loop n condition capture body _ _ _ _ _ _ _ _ _ _ _ _ _ ih₁ ih₂ ih₃ =>
    refine ⟨fun ys => ?_, by rintro ⟨⟩⟩
    have hcondition := ih₁.2 (.bare .delimiter ")" :: (tokens (captureItems capture) ++
      (tokens (items body) ++ ys)))
    simpa [statementItems, terminated, Node.isExpression, items] using
      Derives.loop (is_bare .directive "while") (isDelimiter_bare "(") hcondition
        (isDelimiter_bare ")") (ih₂ _) (ih₃ _)
  | evaluates hstarts hexpression _ ih =>
    refine ⟨fun ys => ?_, fun _ => ih.2.succ⟩
    have hstarts' := startsExpressionStatement_items hstarts hexpression ys
    have htree := ih.2 (.bare .delimiter ";" :: ys)
    simpa [statementItems, terminated, ih.1] using
      Derives.evaluates hstarts' htree (isDelimiter_bare ";")
  | @plainDeclaration n isConst value register _ _ _ _ _ _ ih =>
    refine ⟨_, _, _, rfl, fun ys => ?_⟩
    have hvalue := Derives.closedValue (ih.2 (.bare .delimiter ";" :: ys)) (isDelimiter_bare ";")
    simpa [items, typeItems, ih.1] using @Derives.plainDeclaration _ _ _ _ isConst _
      (.bare .register register.lexeme) _ _ _ rfl (is_bare .assignOperator "=") hvalue
  | typedDeclaration _ _ _ _ ih => exact ⟨_, _, _, rfl, .typedDeclaration _ _ _ ih.1 ih.2⟩
  | @statementDeclaration n isConst value register typeName _ _ _ _ _ _ ih =>
    refine ⟨_, _, _, rfl, ?_⟩
    cases hvalue : value.isExpression with
    | true => exact .typedDeclaration _ _ _ hvalue (ih.2 hvalue)
    | false =>
      intro ys
      have hstatement := ih.1 ys
      have hnext : ∀ next ∈ (tokens (statementItems value) ++ ys).head?,
          ¬ next.is .assignOperator "=" := by
        obtain ⟨first, more, hfirst, hstarts⟩ := hstatement.starts rfl
        rw [hfirst]
        rintro next ⟨⟩
        exact not_is_equals_of_startsStatement hstarts
      simpa [statementItems, terminated, items, typeItems, nameOf, Node.nameText, hvalue] using
        @Derives.statementDeclaration _ _ _ _ isConst _ (.bare .register register.lexeme)
          (.bare .typeName typeName.lexeme) _ _ rfl rfl hnext hstatement
  | closedValue _ _ ih => exact ih
  | openValue _ _ ih => exact ih
  | block _ _ _ ih =>
    intro ys
    have htrees := ih (.bare .delimiter closingBrace :: ys)
    simpa [items] using
      Derives.block (isDelimiter_bare openingBrace) htrees (isDelimiter_bare closingBrace)
  | noParam => exact fun _ => .noParam
  | someParams _ _ ih₁ ih₂ =>
    intro ys
    simpa [items, intercalate_cons] using Derives.someParams (ih₁ _) (ih₂ ys)
  | noFurtherParam => exact fun _ => .noFurtherParam
  | furtherParam _ _ _ ih₁ ih₂ =>
    intro ys
    simpa using Derives.furtherParam (isDelimiter_bare ",") (ih₁ _) (ih₂ ys)
  | @param n typeName name xs ys _ _ ih =>
    exact fun ys => .param (kind_bare .identifier name.lexeme) (ih ys)
  | noType => exact fun _ => .noType
  | @someType _ _ name =>
    exact fun ys => .someType (isDelimiter_bare ":") (kind_bare .identifier name.lexeme)
  | noCapture => exact fun _ => .noCapture
  | someCapture _ _ _ ih =>
    intro ys
    have hcapture := ih.primary (.bare .delimiter "|" :: ys)
    simpa [captureItems] using
      Derives.someCapture (isDelimiter_bare "|") hcapture (isDelimiter_bare "|")
  | value _ ih =>
    have hfits := ih (Nat.zero_le _)
    refine ⟨hfits.isExpression, ?_⟩
    rcases hfits.renders with ⟨_, hbinary⟩ | hexpression
    · exact fun ys => .value (hbinary ys)
    · exact hexpression.succ
  | @assignment n left right op _ _ _ _ _ _ ih₁ ih₂ =>
    refine ⟨rfl, fun ys => ?_⟩
    have hleft := (ih₁ (Nat.zero_le _)).binary (by omega) (by omega)
    simpa [items] using
      Derives.assignment (hleft _) (kind_bare .assignOperator op.lexeme) (ih₂.2 ys)
  | single _ ih =>
    intro hleast
    refine ih.imp (fun htight => decide_eq_true ?_) fun _ _ => .single
    have hlevel := of_decide_eq_true htight
    omega
  | @binary n least left right op _ _ _ _ hrank hleast _ _ ih₁ ih₂ =>
    intro _
    have hle := rank_le op.lexeme
    have hleft := (ih₁ (by omega)).binary (by omega) (by omega)
    have hright := (ih₂ (by omega)).binary (by omega) (by omega)
    rw [Nat.max_eq_right (by omega)] at hleft hright
    have htight : max 1 least ≤ (Node.binary () op.lexeme left right).level := by
      rw [Node.level]
      omega
    refine ⟨rfl, .inl ⟨decide_eq_true htight, fun ys => ?_⟩⟩
    simpa [items] using @Derives.binary _ _ _ _ _ _ _ (.bare .binaryOperator op.lexeme) _ _ _
      rfl hrank hleast (hleft _) (hright ys)
  | plain _ ih =>
    refine ih.imp (fun htight => decide_eq_true ?_) fun _ _ => .plain
    have hlevel := of_decide_eq_true htight
    omega
  | @unary n tree op _ _ _ _ ih =>
    exact ⟨rfl, .inl ⟨rfl, fun ys => .unary (isUnary_bare op.lexeme) (ih.operand ys)⟩⟩
  | bare _ ih =>
    refine ih.imp (fun hatom => decide_eq_true ?_) fun _ _ => .bare
    have hlevel := Node.level_of_isAtom hatom
    omega
  | call _ _ _ _ ih₁ ih₂ =>
    refine ⟨rfl, .inl ⟨rfl, fun ys => ?_⟩⟩
    have hargs := ih₂ (.bare .delimiter ")" :: ys)
    simpa [items] using
      Derives.call (ih₁.suffixed _) (isDelimiter_bare "(") hargs (isDelimiter_bare ")")
  | @member n object _ name _ _ _ _ _ ih =>
    refine ⟨rfl, .inl ⟨rfl, fun ys => ?_⟩⟩
    simpa [items, nameOf, ReferenceKind.tokenKind] using
      Derives.member (ih.suffixed _) (isDelimiter_bare ".") (kind_bare .identifier name.lexeme)
  | @literal n kind token =>
    exact ⟨rfl, .inl ⟨rfl, fun ys =>
      @Derives.literal _ _ _ _ _ (.bare kind.tokenKind token.lexeme) _
        (literalKind?_tokenKind kind)⟩⟩
  | @identifier n token =>
    exact ⟨rfl, .inl ⟨rfl, fun ys => .identifier (kind_bare .identifier token.lexeme)⟩⟩
  | @register n token =>
    exact ⟨rfl, .inl ⟨rfl, fun ys => .register (kind_bare .register token.lexeme)⟩⟩
  | parenthesized _ _ _ ih => exact ⟨ih.1, .inr ih.2⟩
  | noArgument => exact fun _ => .noArgument
  | someArguments _ _ ih₁ ih₂ =>
    intro ys
    simpa [intercalate_cons] using Derives.someArguments (ih₁.2 _) (ih₂ ys)
  | noFurtherArgument => exact fun _ => .noFurtherArgument
  | trailingComma => exact fun _ => .noFurtherArgument
  | furtherArgument _ _ _ ih₁ ih₂ =>
    intro ys
    simpa using Derives.furtherArgument (isDelimiter_bare ",") (ih₁.2 _) (ih₂ ys)

end RegisterLang.Grammar
