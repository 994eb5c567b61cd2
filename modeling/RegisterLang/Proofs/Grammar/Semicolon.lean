import RegisterLang.Proofs.Grammar.Joining
import RegisterLang.Proofs.Grammar.Program

/-!
# Declarations without their semicolon

A declaration may end with a semicolon or without one. Left out in front of anything but a sign, the
semicolon is not missed: the tokens are read as the same program. Left out in front of a sign, it no
longer keeps the next statement away, and the value of the declaration goes on with it.
-/

namespace RegisterLang.Grammar

/-! ### Semicolons that end a declaration -/

/-- `Closes n phrase front semicolon behind`: the phrase is read from `front` and the semicolon, in
front of `behind`, and the semicolon ends a declaration. The declaration may be the value of another
one, which then ends with it. There is one rule for each rule of the grammar that ends with the
value of a declaration. -/
inductive Closes : Nat → Phrase Location → List Token → Token → List Token → Prop where
  | value {n value front semicolon behind} :
      Reads n (.expression value) (front ++ semicolon :: behind) (semicolon :: behind) →
      semicolon.isDelimiter ";" → Closes n (.initialValue value) front semicolon behind
  | plainDeclaration {n isConst value register equals front semicolon behind} :
      register.kind = .register → equals.is .assignOperator "=" →
      Closes n (.initialValue value) front semicolon behind →
      Closes n (.declaration isConst
        (.declaration register.location register.lexeme isConst none value))
        (register :: equals :: front) semicolon behind
  | typedDeclaration {n isConst value register typeName equals front semicolon behind} :
      register.kind = .register → typeName.kind = .typeName → equals.is .assignOperator "=" →
      Closes n (.initialValue value) front semicolon behind →
      Closes n (.declaration isConst (.declaration register.location register.lexeme isConst
        (some (nameOf Token.location typeName)) value))
        (register :: typeName :: equals :: front) semicolon behind
  | statementDeclaration {n isConst value register typeName front semicolon behind} :
      register.kind = .register → typeName.kind = .typeName →
      (∀ next ∈ front.head?, ¬ next.is .assignOperator "=") →
      Closes n (.statement value) front semicolon behind →
      Closes n (.declaration isConst (.declaration register.location register.lexeme isConst
        (some (nameOf Token.location typeName)) value))
        (register :: typeName :: front) semicolon behind
  | declares {n tree front semicolon behind} :
      Closes n (.declaration false tree) front semicolon behind →
      Closes (n + 1) (.statement tree) front semicolon behind
  | declaresConst {n tree keyword front semicolon behind} :
      keyword.is .directive "const" → Closes n (.declaration true tree) front semicolon behind →
      Closes (n + 1) (.statement tree) (keyword :: front) semicolon behind

/-- `Holds n phrase front semicolon behind rest`: the phrase is read from `front`, the semicolon and
`behind`, in front of `rest`, and the semicolon ends a declaration that is one of the statements in
the phrase, on the outside or in a block. There is one rule for each place that a statement has in a
rule of the grammar. -/
inductive Holds : Nat → Phrase Location → List Token → Token → List Token → List Token → Prop where
  | here {n tree trees front semicolon behind rest} :
      Closes n (.statement tree) front semicolon behind → Reads n (.statements trees) behind rest →
      Holds n (.statements (tree :: trees)) front semicolon behind rest
  | within {n tree trees front semicolon behind ys rest} :
      Holds n (.statement tree) front semicolon behind ys → Reads n (.statements trees) ys rest →
      Holds n (.statements (tree :: trees)) front semicolon behind rest
  | later {n tree trees taken front semicolon behind rest} :
      Reads n (.statement tree) (taken ++ (front ++ semicolon :: behind))
        (front ++ semicolon :: behind) →
      Holds n (.statements trees) front semicolon behind rest →
      Holds n (.statements (tree :: trees)) (taken ++ front) semicolon behind rest
  | block {n trees opening closing front semicolon behind rest} :
      opening.isDelimiter openingBrace →
      Holds n (.statements trees) front semicolon behind (closing :: rest) →
      closing.isDelimiter closingBrace →
      Holds n (.block (.block opening.location trees)) (opening :: front) semicolon behind rest
  | function {n params returnType body keyword name opening closing taken taken' front semicolon
        behind rest} :
      keyword.is .directive "func" → name.kind = .identifier → opening.isDelimiter "(" →
      Reads n (.params params) (taken ++ closing :: (taken' ++ (front ++ semicolon :: behind)))
        (closing :: (taken' ++ (front ++ semicolon :: behind))) →
      closing.isDelimiter ")" →
      Reads n (.typeAfterColon returnType) (taken' ++ (front ++ semicolon :: behind))
        (front ++ semicolon :: behind) →
      Holds n (.block body) front semicolon behind rest →
      Holds (n + 1) (.statement (.function name.location name.lexeme
        (.params opening.location params) returnType body))
        (keyword :: name :: opening :: (taken ++ closing :: (taken' ++ front))) semicolon behind
        rest
  | loop {n condition capture body keyword opening closing taken taken' front semicolon behind
        rest} :
      keyword.is .directive "while" → opening.isDelimiter "(" →
      Reads n (.expression condition)
        (taken ++ closing :: (taken' ++ (front ++ semicolon :: behind)))
        (closing :: (taken' ++ (front ++ semicolon :: behind))) →
      closing.isDelimiter ")" →
      Reads n (.capture capture) (taken' ++ (front ++ semicolon :: behind))
        (front ++ semicolon :: behind) →
      Holds n (.block body) front semicolon behind rest →
      Holds (n + 1) (.statement (.whileLoop keyword.location condition capture body))
        (keyword :: opening :: (taken ++ closing :: (taken' ++ front))) semicolon behind rest
  | statementDeclaration {n isConst value register typeName front semicolon behind rest} :
      register.kind = .register → typeName.kind = .typeName →
      (∀ next ∈ front.head?, ¬ next.is .assignOperator "=") →
      Holds n (.statement value) front semicolon behind rest →
      Holds n (.declaration isConst (.declaration register.location register.lexeme isConst
        (some (nameOf Token.location typeName)) value))
        (register :: typeName :: front) semicolon behind rest
  | declares {n tree front semicolon behind rest} :
      Holds n (.declaration false tree) front semicolon behind rest →
      Holds (n + 1) (.statement tree) front semicolon behind rest
  | declaresConst {n tree keyword front semicolon behind rest} :
      keyword.is .directive "const" →
      Holds n (.declaration true tree) front semicolon behind rest →
      Holds (n + 1) (.statement tree) (keyword :: front) semicolon behind rest

variable {n m : Nat} {phrase phrase' : Phrase Location} {tree statement : Tree}
  {front behind rest us ys zs : List Token} {semicolon sign : Token}

/-- Something stands in front of the semicolon of a declaration. -/
theorem Closes.front_ne_nil (h : Closes n phrase front semicolon behind) : front ≠ [] := by
  cases h with
  | value hvalue _ =>
    rintro rfl
    have hlength := hvalue.length_le
    simp only [Phrase.nonempty, Bool.toNat_true, List.nil_append] at hlength
    omega
  | declares hdeclaration => cases hdeclaration <;> simp
  | _ => simp

/-- Something stands in front of a semicolon that a phrase holds. -/
theorem Holds.front_ne_nil (h : Holds n phrase front semicolon behind rest) : front ≠ [] := by
  induction h with
  | here hcloses _ => exact hcloses.front_ne_nil
  | within _ _ ih | declares _ ih => exact ih
  | later _ _ ih => exact List.append_ne_nil_of_right_ne_nil _ ih
  | _ => simp

/-- The first token of a list is also the first one when others stand behind. -/
theorem head?_append_of_ne_nil (hfront : front ≠ []) (ys : List Token) :
    (front ++ ys).head? = front.head? := by
  cases front with
  | nil => exact absurd rfl hfront
  | cons first front => rfl

/-- What comes first stays the same when the semicolon is left out. -/
theorem staysApart_of_ne_nil (hfront : front ≠ []) {apart : Token → Prop} (ys ys' : List Token) :
    StaysApart apart (front ++ ys) (front ++ ys') := by
  rw [StaysApart, head?_append_of_ne_nil hfront, head?_append_of_ne_nil hfront]
  exact id

/-- A declaration with a statement as its value, in front of other tokens. -/
theorem reads_statementDeclaration {isConst : Bool} {value : Tree} {register typeName : Token}
    (hregister : register.kind = .register) (htype : typeName.kind = .typeName)
    (hnext : ∀ next ∈ front.head?, ¬ next.is .assignOperator "=") (hfront : front ≠ [])
    (hvalue : Reads n (.statement value) (front ++ ys) zs) :
    Reads n (.declaration isConst (.declaration register.location register.lexeme isConst
      (some (nameOf Token.location typeName)) value)) (register :: typeName :: front ++ ys) zs := by
  refine .statementDeclaration hregister htype ?_ hvalue
  rwa [List.append_eq, head?_append_of_ne_nil hfront]

/-- A declaration is read from its own tokens in front of other ones, if its value is. -/
theorem Closes.reads_of_initialValue (h : Closes n phrase front semicolon behind)
    (hvalue : ∀ k value taken, Reads k (.expression value) (taken ++ semicolon :: behind)
      (semicolon :: behind) → semicolon.isDelimiter ";" →
      Reads k (.initialValue value) (taken ++ ys) zs) :
    Reads n phrase (front ++ ys) zs := by
  induction h with
  | value hreads hsemicolon => exact hvalue _ _ _ hreads hsemicolon
  | plainDeclaration hregister hequals _ ih => exact .plainDeclaration hregister hequals (ih hvalue)
  | typedDeclaration hregister htype hequals _ ih =>
    exact .typedDeclaration hregister htype hequals (ih hvalue)
  | statementDeclaration hregister htype hnext hcloses ih =>
    exact reads_statementDeclaration hregister htype hnext hcloses.front_ne_nil (ih hvalue)
  | declares _ ih => exact .declares (ih hvalue)
  | declaresConst hkeyword _ ih => exact .declaresConst hkeyword (ih hvalue)

/-- What is read up to the semicolon of a declaration is read with it. -/
theorem Closes.reads (h : Closes n phrase front semicolon behind) :
    Reads n phrase (front ++ semicolon :: behind) behind :=
  h.reads_of_initialValue fun _ _ _ hreads hsemicolon => .closedValue hreads hsemicolon

/-- A phrase that holds the semicolon of a declaration is read with it. -/
theorem Holds.reads (h : Holds n phrase front semicolon behind rest) :
    Reads n phrase (front ++ semicolon :: behind) rest := by
  induction h with
  | here hcloses hrest => exact .moreStatements hcloses.reads hrest
  | within _ hrest ih => exact .moreStatements ih hrest
  | later hfirst _ ih =>
    rw [List.append_assoc]
    exact .moreStatements hfirst ih
  | block hopening _ hclosing ih => exact .block hopening ih hclosing
  | function hkeyword hname hopening hparams hclosing htype _ ih =>
    simp only [List.cons_append, List.append_assoc]
    exact .function hkeyword hname hopening hparams hclosing htype ih
  | loop hkeyword hopening hcondition hclosing hcapture _ ih =>
    simp only [List.cons_append, List.append_assoc]
    exact .loop hkeyword hopening hcondition hclosing hcapture ih
  | statementDeclaration hregister htype hnext hholds ih =>
    exact reads_statementDeclaration hregister htype hnext hholds.front_ne_nil ih
  | declares _ ih => exact .declares ih
  | declaresConst hkeyword _ ih => exact .declaresConst hkeyword ih

/-! ### In front of no sign -/

/-- In front of no sign, a declaration ends without its semicolon. -/
theorem Closes.reads_append (h : Closes n phrase front semicolon behind)
    (hbehind : ∀ next ∈ behind.head?, isSign next = false) :
    Reads n phrase (front ++ behind) behind :=
  h.reads_of_initialValue fun _ _ _ hreads _ =>
    .openValue (hreads.replace_of_isExpression rfl _) hbehind

/-! ### In front of a sign -/

/-- `Takes statement tree tree'`: the declaration takes the statement into its value, or into that
of the declaration which is its value. All else stays, and no name or literal is lost. -/
inductive Takes (statement : Tree) : Tree → Tree → Prop where
  | value {tag name isConst typeName value value'} :
      value'.items.Perm (value.items ++ statement.items) →
      Takes statement (.declaration tag name isConst typeName value)
        (.declaration tag name isConst typeName value')
  | inner {tag name isConst typeName value value'} :
      Takes statement value value' →
      Takes statement (.declaration tag name isConst typeName value)
        (.declaration tag name isConst typeName value')

/-- A phrase that ends with a declaration takes the statement in. -/
inductive PhraseTakes (statement : Tree) : Phrase Location → Phrase Location → Prop where
  | initialValue {value value'} :
      value'.items.Perm (value.items ++ statement.items) →
      PhraseTakes statement (.initialValue value) (.initialValue value')
  | declaration {isConst tree tree'} :
      Takes statement tree tree' →
      PhraseTakes statement (.declaration isConst tree) (.declaration isConst tree')
  | statement {tree tree'} :
      Takes statement tree tree' → PhraseTakes statement (.statement tree) (.statement tree')

/-- A statement that starts with a sign is an expression and its semicolon. -/
theorem exists_expression_of_isSign (hsign : isSign sign)
    (h : Reads n (.statement statement) (sign :: us) zs) :
    ∃ m semicolon, Reads m (.expression statement) (sign :: us) (semicolon :: zs) ∧
      semicolon.isDelimiter ";" := by
  have hkind := kind_of_isSign hsign
  cases h with
  | declares hdeclaration =>
    obtain ⟨first, tokens, htokens, hfirst⟩ := hdeclaration.starts rfl
    cases htokens
    simp [Phrase.starts, hkind] at hfirst
  | evaluates _ hexpression hsemicolon => exact ⟨_, _, hexpression, hsemicolon⟩
  | declaresConst hkeyword | returnsNothing hkeyword | returnsValue hkeyword | imports hkeyword
  | function hkeyword | loop hkeyword =>
    simp [Token.is, hkind] at hkeyword

/-- In front of a statement that starts with a sign, a declaration without its semicolon takes the
statement in. -/
theorem Closes.exists_takes (h : Closes n phrase front semicolon (sign :: us))
    (hsign : isSign sign) {last : Token}
    (hstatement : Reads m (.expression statement) (sign :: us) (last :: zs))
    (hlast : last.isDelimiter ";") :
    ∃ k phrase', PhraseTakes statement phrase phrase' ∧
      Reads k phrase' (front ++ sign :: us) zs := by
  generalize hbehind : sign :: us = behind at h
  induction h with
  | value hvalue _ =>
    subst hbehind
    have hvalue' := hvalue.replace_of_isExpression rfl (sign :: us)
    obtain ⟨k, tree, htree⟩ := hvalue'.exists_expression_join hsign hstatement
    obtain ⟨taken, htaken⟩ := hstatement.suffix
    refine ⟨k, .initialValue tree, .initialValue ?_, .closedValue htree hlast⟩
    rw [← htaken, ← List.append_assoc] at htree
    rw [← htaken] at hstatement
    have hitems := htree.items_perm
    rw [List.filter_append, List.map_append] at hitems
    exact hitems.trans (hvalue.items_perm.symm.append hstatement.items_perm.symm)
  | plainDeclaration hregister hequals _ ih =>
    obtain ⟨k, _, htakes, hreads⟩ := ih hbehind
    obtain ⟨hitems⟩ := htakes
    exact ⟨k, _, .declaration (.value hitems), .plainDeclaration hregister hequals hreads⟩
  | typedDeclaration hregister htype hequals _ ih =>
    obtain ⟨k, _, htakes, hreads⟩ := ih hbehind
    obtain ⟨hitems⟩ := htakes
    exact ⟨k, _, .declaration (.value hitems), .typedDeclaration hregister htype hequals hreads⟩
  | statementDeclaration hregister htype hnext hcloses ih =>
    obtain ⟨k, _, htakes, hreads⟩ := ih hbehind
    cases htakes with | statement htakes =>
    exact ⟨k, _, .declaration (.inner htakes),
      reads_statementDeclaration hregister htype hnext hcloses.front_ne_nil hreads⟩
  | declares _ ih =>
    obtain ⟨k, _, htakes, hreads⟩ := ih hbehind
    cases htakes with | declaration htakes =>
    exact ⟨k + 1, _, .statement htakes, .declares hreads⟩
  | declaresConst hkeyword _ ih =>
    obtain ⟨k, _, htakes, hreads⟩ := ih hbehind
    cases htakes with | declaration htakes =>
    exact ⟨k + 1, _, .statement htakes, .declaresConst hkeyword hreads⟩

/-! ### The statement list around a declaration -/

/-- `Swaps statements statements' tree tree'`: the trees are the same, but for one list of
statements, in a document or a block, that ends with `statements` in the first tree and with
`statements'` in the second one. -/
inductive Swaps (statements statements' : List Tree) : Tree → Tree → Prop where
  | document {tag before} :
      Swaps statements statements' (.document tag (before ++ statements))
        (.document tag (before ++ statements'))
  | block {tag before} :
      Swaps statements statements' (.block tag (before ++ statements))
        (.block tag (before ++ statements'))
  | inDocument {tag before tree tree' behind} :
      Swaps statements statements' tree tree' →
      Swaps statements statements' (.document tag (before ++ tree :: behind))
        (.document tag (before ++ tree' :: behind))
  | inBlock {tag before tree tree' behind} :
      Swaps statements statements' tree tree' →
      Swaps statements statements' (.block tag (before ++ tree :: behind))
        (.block tag (before ++ tree' :: behind))
  | inFunction {tag name params returnType body body'} :
      Swaps statements statements' body body' →
      Swaps statements statements' (.function tag name params returnType body)
        (.function tag name params returnType body')
  | inLoop {tag condition capture body body'} :
      Swaps statements statements' body body' →
      Swaps statements statements' (.whileLoop tag condition capture body)
        (.whileLoop tag condition capture body')
  | inDeclaration {tag name isConst typeName value value'} :
      Swaps statements statements' value value' →
      Swaps statements statements' (.declaration tag name isConst typeName value)
        (.declaration tag name isConst typeName value')

/-- The same of the trees of a phrase. -/
inductive PhraseSwaps (statements statements' : List Tree) :
    Phrase Location → Phrase Location → Prop where
  | ending (before : List Tree) :
      PhraseSwaps statements statements' (.statements (before ++ statements))
        (.statements (before ++ statements'))
  | among (before : List Tree) {tree tree' behind} :
      Swaps statements statements' tree tree' →
      PhraseSwaps statements statements' (.statements (before ++ tree :: behind))
        (.statements (before ++ tree' :: behind))
  | statement {tree tree'} :
      Swaps statements statements' tree tree' →
      PhraseSwaps statements statements' (.statement tree) (.statement tree')
  | declaration {isConst tree tree'} :
      Swaps statements statements' tree tree' →
      PhraseSwaps statements statements' (.declaration isConst tree) (.declaration isConst tree')
  | block {tree tree'} :
      Swaps statements statements' tree tree' →
      PhraseSwaps statements statements' (.block tree) (.block tree')

/-- Swapping a list for itself changes nothing. -/
theorem Swaps.eq {statements : List Tree} {tree tree' : Tree}
    (h : Swaps statements statements tree tree') : tree = tree' := by
  induction h with
  | document | block => rfl
  | inDocument _ ih | inBlock _ ih | inFunction _ ih | inLoop _ ih | inDeclaration _ ih => rw [ih]

/-- To swap a list of statements for itself does not change the phrase around it. -/
theorem PhraseSwaps.eq {statements : List Tree}
    (h : PhraseSwaps statements statements phrase phrase') : phrase = phrase' := by
  cases h with
  | ending => rfl
  | among _ h | statement h | declaration h | block h => rw [h.eq]

/-! ### Reading around the statements -/

/-- Whatever is read in the place of the inner phrase is part of what is read in the place of the
outer one. -/
def Wraps (n : Nat) (inner : Phrase Location) (xs ys : List Token) (m : Nat)
    (outer : Phrase Location) (zs ws : List Token) : Prop :=
  ∀ extra statements statements' inner', PhraseSwaps statements statements' inner inner' →
    Reads (n + extra) inner' xs ys →
      ∃ outer', PhraseSwaps statements statements' outer outer' ∧ Reads (m + extra) outer' zs ws

/-- A phrase is around itself. -/
theorem Wraps.refl (n : Nat) (phrase : Phrase Location) (xs ys : List Token) :
    Wraps n phrase xs ys n phrase xs ys :=
  fun _ _ _ phrase' hswaps hreads => ⟨phrase', hswaps, hreads⟩

/-- What is around a phrase that is around another one is around that one. -/
theorem Wraps.trans {k : Nat} {phrase'' : Phrase Location} {xs' ys' xs'' ys'' : List Token}
    (h : Wraps n phrase xs ys m phrase' xs' ys')
    (h' : Wraps m phrase' xs' ys' k phrase'' xs'' ys'') :
    Wraps n phrase xs ys k phrase'' xs'' ys'' := by
  intro extra statements statements' inner' hswaps hreads
  obtain ⟨inner'', hswaps', hreads'⟩ := h extra statements statements' inner' hswaps hreads
  exact h' extra statements statements' inner'' hswaps' hreads'

/-- A list of statements is around the first of them. -/
theorem wraps_first {trees : List Tree} (hrest : Reads n (.statements trees) ys zs) :
    Wraps n (.statement tree) xs ys n (.statements (tree :: trees)) xs zs := by
  rintro extra _ _ _ ⟨⟩ hreads
  next hswaps =>
  exact ⟨_, .among [] hswaps,
    .moreStatements hreads (hrest.mono (Nat.le_add_right n extra))⟩

/-- A list of statements is around those behind the first one. -/
theorem wraps_later {trees : List Tree} (hfirst : Reads n (.statement tree) xs ys) :
    Wraps n (.statements trees) ys zs n (.statements (tree :: trees)) xs zs := by
  intro extra _ _ _ hswaps hreads
  have hfirst' := hfirst.mono (Nat.le_add_right n extra)
  cases hswaps with
  | ending before =>
    exact ⟨_, .ending (tree :: before), .moreStatements hfirst' hreads⟩
  | among before hswaps =>
    exact ⟨_, .among (tree :: before) hswaps, .moreStatements hfirst' hreads⟩

/-- A block is around its statements. -/
theorem wraps_block {trees : List Tree} {opening closing : Token}
    (hopening : opening.isDelimiter openingBrace) (hclosing : closing.isDelimiter closingBrace) :
    Wraps n (.statements trees) xs (closing :: ys) n (.block (.block opening.location trees))
      (opening :: xs) ys := by
  intro extra _ _ _ hswaps hreads
  cases hswaps with
  | ending => exact ⟨_, .block .block, .block hopening hreads hclosing⟩
  | among _ hswaps => exact ⟨_, .block (.inBlock hswaps), .block hopening hreads hclosing⟩

/-- A function is around its block. -/
theorem wraps_function {params : List Tree} {returnType : Option Tree} {body : Tree}
    {keyword name opening closing : Token} (hkeyword : keyword.is .directive "func")
    (hname : name.kind = .identifier) (hopening : opening.isDelimiter "(")
    (hparams : Reads n (.params params) xs (closing :: ys)) (hclosing : closing.isDelimiter ")")
    (htype : Reads n (.typeAfterColon returnType) ys zs) :
    Wraps n (.block body) zs rest (n + 1) (.statement (.function name.location name.lexeme
      (.params opening.location params) returnType body)) (keyword :: name :: opening :: xs)
      rest := by
  intro extra _ _ _ hswaps hreads
  cases hswaps with | block hswaps =>
  have hle := Nat.le_add_right n extra
  rw [Nat.add_right_comm]
  exact ⟨_, .statement (.inFunction hswaps), .function hkeyword hname hopening (hparams.mono hle)
    hclosing (htype.mono hle) hreads⟩

/-- A loop is around its block. -/
theorem wraps_loop {condition body : Tree} {capture : Option Tree}
    {keyword opening closing : Token} (hkeyword : keyword.is .directive "while")
    (hopening : opening.isDelimiter "(")
    (hcondition : Reads n (.expression condition) xs (closing :: ys))
    (hclosing : closing.isDelimiter ")") (hcapture : Reads n (.capture capture) ys zs) :
    Wraps n (.block body) zs rest (n + 1)
      (.statement (.whileLoop keyword.location condition capture body))
      (keyword :: opening :: xs) rest := by
  intro extra _ _ _ hswaps hreads
  cases hswaps with | block hswaps =>
  have hle := Nat.le_add_right n extra
  rw [Nat.add_right_comm]
  exact ⟨_, .statement (.inLoop hswaps), .loop hkeyword hopening (hcondition.mono hle) hclosing
    (hcapture.mono hle) hreads⟩

/-- A declaration is around the statement in the place of its value. -/
theorem wraps_statementDeclaration {isConst : Bool} {value : Tree} {register typeName : Token}
    (hregister : register.kind = .register) (htype : typeName.kind = .typeName)
    (hnext : ∀ next ∈ xs.head?, ¬ next.is .assignOperator "=") :
    Wraps n (.statement value) xs ys n (.declaration isConst (.declaration register.location
      register.lexeme isConst (some (nameOf Token.location typeName)) value))
      (register :: typeName :: xs) ys := by
  intro extra _ _ _ hswaps hreads
  cases hswaps with | statement hswaps =>
  exact ⟨_, .declaration (.inDeclaration hswaps),
    .statementDeclaration hregister htype hnext hreads⟩

/-- A statement is around a declaration. -/
theorem wraps_declares :
    Wraps n (.declaration false tree) xs ys (n + 1) (.statement tree) xs ys := by
  intro extra _ _ _ hswaps hreads
  cases hswaps with | declaration hswaps =>
  rw [Nat.add_right_comm]
  exact ⟨_, .statement hswaps, .declares hreads⟩

/-- A statement is around the declaration of a constant. -/
theorem wraps_declaresConst {keyword : Token} (hkeyword : keyword.is .directive "const") :
    Wraps n (.declaration true tree) xs ys (n + 1) (.statement tree) (keyword :: xs) ys := by
  intro extra _ _ _ hswaps hreads
  cases hswaps with | declaration hswaps =>
  rw [Nat.add_right_comm]
  exact ⟨_, .statement hswaps, .declaresConst hkeyword hreads⟩

/-- Statements end in front of no sign. -/
def EndsApart (phrase : Phrase Location) (rest : List Token) : Prop :=
  ∀ trees, phrase = .statements trees → ∀ t ∈ rest.head?, isSign t = false

/-- In front of `behind`, the semicolon ends a declaration that is the first of some statements, and
whatever is read in their place, without the semicolon, is part of what is read in the place of the
whole phrase. -/
def HasStatements (semicolon : Token) (behind : List Token) (n : Nat) (phrase : Phrase Location)
    (xs rest : List Token) : Prop :=
  ∃ m tree trees front rest', Closes m (.statement tree) front semicolon behind ∧
    Reads m (.statements trees) behind rest' ∧
    (EndsApart phrase rest → ∀ t ∈ rest'.head?, isSign t = false) ∧
    Wraps m (.statements (tree :: trees)) (front ++ behind) rest' n phrase xs rest

/-- The statements in a phrase are statements in whatever has the phrase in it. -/
theorem HasStatements.wrap (h : HasStatements semicolon behind n phrase xs ys)
    (hends : EndsApart phrase' rest → EndsApart phrase ys)
    (hwraps : Wraps n phrase xs ys m phrase' zs rest) :
    HasStatements semicolon behind m phrase' zs rest := by
  obtain ⟨k, tree, trees, front, rest', hcloses, hreads, hends', hwraps'⟩ := h
  exact ⟨k, tree, trees, front, rest', hcloses, hreads, fun h => hends' (hends h),
    hwraps'.trans hwraps⟩

/-- The semicolon of a declaration stands behind one of the statements in a phrase. -/
theorem Holds.hasStatements (h : Holds n phrase front semicolon behind rest) :
    HasStatements semicolon behind n phrase (front ++ behind) rest := by
  induction h with
  | here hcloses hrest =>
    exact ⟨_, _, _, _, _, hcloses, hrest, fun h => h _ rfl, .refl _ _ _ _⟩
  | within _ hrest ih => exact ih.wrap (by simp [EndsApart]) (wraps_first hrest)
  | @later _ _ _ _ _ _ behind _ hfirst hholds ih =>
    have hfirst' := hfirst.replace (staysApart_of_ne_nil hholds.front_ne_nil _ behind)
    rw [List.append_assoc]
    exact ih.wrap (fun h _ _ => h _ rfl) (wraps_later hfirst')
  | @block _ _ _ closing _ _ _ _ hopening _ hclosing ih =>
    have hsign : isSign closing = false := by simp [isSign, (Token.is_iff.mp hclosing).1]
    exact ih.wrap (fun _ _ _ => by simpa using hsign) (wraps_block hopening hclosing)
  | @function _ _ _ _ _ _ _ closing _ taken' front _ behind _ hkeyword hname hopening hparams
      hclosing htype hholds ih =>
    have htype' := htype.replace (staysApart_of_ne_nil hholds.front_ne_nil _ behind)
    have hparams' := hparams.replace (.cons closing _ (taken' ++ (front ++ behind)))
    simp only [List.cons_append, List.append_assoc]
    exact ih.wrap (by simp [EndsApart])
      (wraps_function hkeyword hname hopening hparams' hclosing htype')
  | @loop _ _ _ _ _ _ closing _ taken' front _ behind _ hkeyword hopening hcondition hclosing
      hcapture hholds ih =>
    have hcapture' := hcapture.replace (staysApart_of_ne_nil hholds.front_ne_nil _ behind)
    have hcondition' := hcondition.replace (.cons closing _ (taken' ++ (front ++ behind)))
    simp only [List.cons_append, List.append_assoc]
    exact ih.wrap (by simp [EndsApart])
      (wraps_loop hkeyword hopening hcondition' hclosing hcapture')
  | statementDeclaration hregister htype hnext hholds ih =>
    rw [← head?_append_of_ne_nil hholds.front_ne_nil] at hnext
    exact ih.wrap (by simp [EndsApart]) (wraps_statementDeclaration hregister htype hnext)
  | declares _ ih => exact ih.wrap (by simp [EndsApart]) wraps_declares
  | declaresConst hkeyword _ ih =>
    exact ih.wrap (by simp [EndsApart]) (wraps_declaresConst hkeyword)

/-- In front of no sign, the semicolon of a declaration may be left out. -/
theorem Holds.reads_append (h : Holds n phrase front semicolon behind rest)
    (hbehind : ∀ next ∈ behind.head?, isSign next = false) :
    Reads n phrase (front ++ behind) rest := by
  obtain ⟨m, tree, trees, front', rest', hcloses, hrest, _, hwraps⟩ := h.hasStatements
  obtain ⟨phrase', hswaps, hreads⟩ := hwraps 0 (tree :: trees) (tree :: trees) _ (.ending [])
    (.moreStatements (hcloses.reads_append hbehind) hrest)
  rwa [hswaps.eq]

/-- In front of a sign, a declaration without its semicolon takes the next statement in. -/
theorem Holds.exists_takes (h : Holds n phrase front semicolon (sign :: us) rest)
    (hsign : isSign sign) (hrest : EndsApart phrase rest) :
    ∃ k first second first' others phrase', Takes second first first' ∧
      PhraseSwaps (first :: second :: others) (first' :: others) phrase phrase' ∧
      Reads k phrase' (front ++ sign :: us) rest := by
  obtain ⟨m, first, trees, front', rest', hcloses, hreads, hends, hwraps⟩ := h.hasStatements
  have hrest' := hends hrest
  cases hreads with
  | noStatement => simp [hsign] at hrest'
  | @moreStatements _ second others _ ys _ hsecond hothers =>
    obtain ⟨m', last, hexpression, hlast⟩ := exists_expression_of_isSign hsign hsecond
    obtain ⟨k, _, htakes, hfirst⟩ := hcloses.exists_takes hsign hexpression hlast
    cases htakes with | statement htakes =>
    obtain ⟨phrase', hswaps, hreads'⟩ := hwraps k _ _ _ (.ending [])
      (.moreStatements (hfirst.mono (Nat.le_add_left k m)) (hothers.mono (Nat.le_add_right m k)))
    exact ⟨_, first, second, _, others, phrase', htakes, hswaps, hreads'⟩

/-! ### Programs -/

/-- In the document that is read from the tokens, the token at the index is the semicolon at the end
of a declaration. -/
def EndsDeclaration (limit : Int) (tokens : List Token) (document : Tree) (index : Nat) : Prop :=
  ∃ front semicolon behind,
    tokens.takeWhile (·.kind != .endOfInput) = front ++ semicolon :: behind ∧
      front.length = index ∧
      Holds limit.toNat (.statements document.children) front semicolon behind []

/-- The tokens of a program stand in front of the first end of the input, and more may stand behind
that. -/
theorem exists_eq_takeWhile_append {tokens : List Token}
    (hended : ∃ last ∈ tokens.getLast?, last.kind = .endOfInput) :
    ∃ eof others, tokens = tokens.takeWhile (·.kind != .endOfInput) ++ eof :: others ∧
      eof.kind = .endOfInput := by
  obtain ⟨last, hlast, hkind⟩ := hended
  have hsplit := tokens.takeWhile_append_dropWhile (p := (·.kind != .endOfInput))
  have hhead := List.head?_dropWhile_not (·.kind != .endOfInput) tokens
  cases hothers : tokens.dropWhile (·.kind != .endOfInput) with
  | nil =>
    rw [hothers, List.append_nil] at hsplit
    rw [← hsplit] at hlast
    have hne := List.all_eq_true.mp List.all_takeWhile last (List.mem_of_getLast? hlast)
    simp [hkind] at hne
  | cons eof others =>
    rw [hothers] at hsplit hhead
    exact ⟨eof, others, hsplit.symm, by simpa using hhead⟩

/-- A program is read from tokens that are none of them an end of the input, whatever stands behind
that end. -/
theorem parseTokens_of_reads {limit : Int} {first eof : Token} {tokens others : List Token}
    {trees : List Tree} (hfirst : tokens.head? = some first)
    (htokens : ∀ t ∈ tokens, t.kind ≠ .endOfInput) (heof : eof.kind = .endOfInput)
    (hended : ∃ last ∈ (eof :: others).getLast?, last.kind = .endOfInput)
    (hreads : Reads limit.toNat (.statements trees) tokens []) :
    parseTokens .program limit (tokens ++ eof :: others) =
      .ok (.document first.location trees) := by
  have hended' : ∃ last ∈ (tokens ++ eof :: others).getLast?, last.kind = .endOfInput := by
    obtain ⟨last, hlast, hkind⟩ := hended
    exact ⟨last, by rw [List.getLast?_append, hlast]; rfl, hkind⟩
  refine (parseTokens_eq_ok_iff hended').mpr ⟨first, ?_, trees, rfl, ?_⟩
  · rw [List.head?_append, hfirst]
    rfl
  · rwa [List.takeWhile_append_of_pos (by simpa using htokens),
      List.takeWhile_cons_of_neg (by simp [heof]), List.append_nil]

/-- The semicolon at the end of a declaration may be left out in front of anything but a sign: the
same document is read within the same limit. In front of a sign, it may be left out if the limit is
high enough, but the declaration takes the next statement in, and the list of statements around them
has one less. -/
theorem parseTokens_eraseIdx {limit : Int} {tokens : List Token} {document : Tree} {index : Nat}
    (hended : ∃ last ∈ tokens.getLast?, last.kind = .endOfInput)
    (hparse : parseTokens .program limit tokens = .ok document)
    (hsemicolon : EndsDeclaration limit tokens document index) :
    ∃ next ∈ tokens[index + 1]?,
      (isSign next = false →
        parseTokens .program limit (tokens.eraseIdx index) = .ok document) ∧
      (isSign next → ∃ document' first second first' others,
        Takes second first first' ∧
          Swaps (first :: second :: others) (first' :: others) document document' ∧
          ∃ least, ∀ limit' ≥ least,
            parseTokens .program limit' (tokens.eraseIdx index) = .ok document') := by
  obtain ⟨first, hfirst, trees, rfl, -⟩ := (parseTokens_eq_ok_iff hended).mp hparse
  obtain ⟨front, semicolon, behind, hpending, rfl, hholds⟩ := hsemicolon
  obtain ⟨eof, others, htokens, heof⟩ := exists_eq_takeWhile_append hended
  have hkinds : ∀ t ∈ front ++ behind, t.kind ≠ .endOfInput := by
    have hall : (tokens.takeWhile (·.kind != .endOfInput)).all (·.kind != .endOfInput) :=
      List.all_takeWhile
    rw [hpending, List.all_eq_true] at hall
    intro t ht
    have hmem := ((List.sublist_cons_self semicolon behind).append_left front).subset ht
    simpa using hall t hmem
  rw [hpending] at htokens
  subst htokens
  have hends : ∃ last ∈ (eof :: others).getLast?, last.kind = .endOfInput := by
    simpa [List.getLast?_append, List.getLast?_cons] using hended
  have hfirst' : (front ++ behind).head? = some first := by
    rw [List.append_assoc, head?_append_of_ne_nil hholds.front_ne_nil] at hfirst
    rwa [head?_append_of_ne_nil hholds.front_ne_nil]
  have herase : (front ++ semicolon :: behind ++ eof :: others).eraseIdx front.length =
      (front ++ behind) ++ eof :: others := by
    rw [List.append_assoc, List.eraseIdx_append_of_length_le (Nat.le_refl _), Nat.sub_self,
      List.append_assoc]
    rfl
  rw [herase]
  have hread {limit' : Int} {trees' : List Tree}
      (hreads : Reads limit'.toNat (.statements trees') (front ++ behind) []) :=
    parseTokens_of_reads hfirst' hkinds heof hends hreads
  cases behind with
  | nil =>
    refine ⟨eof, by simp, fun _ => hread (hholds.reads_append (by simp)), fun hsign => ?_⟩
    rw [kind_of_isSign hsign] at heof
    cases heof
  | cons next behind =>
    refine ⟨next, by simp, fun hnext => hread (hholds.reads_append (by simpa using hnext)),
      fun hsign => ?_⟩
    obtain ⟨k, first', second, first'', others', phrase', htakes, hswaps, hreads⟩ :=
      hholds.exists_takes hsign (by simp [EndsApart])
    cases hswaps with
    | ending before =>
      exact ⟨_, first', second, first'', others', htakes, .document, k,
        fun limit' hle => hread (hreads.mono (by omega))⟩
    | among before hswaps =>
      exact ⟨_, first', second, first'', others', htakes, .inDocument hswaps, k,
        fun limit' hle => hread (hreads.mono (by omega))⟩

/-- The tokens of `$a = 1; -2; $b = 3;`. -/
def negativeTokens : List Token :=
  [.bare .register "a", .bare .assignOperator "=", .bare .number "1", .bare .delimiter ";",
    .bare .binaryOperator "-", .bare .number "2", .bare .delimiter ";", .bare .register "b",
    .bare .assignOperator "=", .bare .number "3", .bare .delimiter ";", .bare .endOfInput ""]

/-- The document of `$a = 1; -2; $b = 3;`. -/
def negativeDocument : Tree :=
  let place := (Token.bare .endOfInput "").location
  .document place [.declaration place "a" false none (.literal place .number "1"),
    .unary place "-" (.literal place .number "2"),
    .declaration place "b" false none (.literal place .number "3")]

/-- A number alone is an expression. -/
theorem reads_number (n : Nat) (lexeme : String) (ys : List Token) :
    Reads (n + 1) (.expression (.literal (Token.bare .number lexeme).location .number lexeme))
      (.bare .number lexeme :: ys) ys :=
  .value (.single (.plain (.bare (@Derives.literal _ _ _ _ _ (.bare .number lexeme) _ rfl))))

/-- A declaration of a number, with a semicolon. -/
theorem closes_number (n : Nat) (name lexeme : String) (ys : List Token) :
    Closes (n + 2) (.statement (.declaration (Token.bare .register name).location name false none
        (.literal (Token.bare .number lexeme).location .number lexeme)))
      [.bare .register name, .bare .assignOperator "=", .bare .number lexeme] (.bare .delimiter ";")
      ys :=
  .declares (@Closes.plainDeclaration _ _ _ (.bare .register name) (.bare .assignOperator "=")
    [.bare .number lexeme] _ _ rfl rfl (.value (reads_number n lexeme _) rfl))

/-- A negative number as a statement. -/
theorem reads_negative (n : Nat) (lexeme : String) (ys : List Token) :
    Reads (n + 3) (.statement (.unary (Token.bare .binaryOperator "-").location "-"
        (.literal (Token.bare .number lexeme).location .number lexeme)))
      (.bare .binaryOperator "-" :: .bare .number lexeme :: .bare .delimiter ";" :: ys) ys :=
  .evaluates ⟨_, rfl, .inl (by decide)⟩ (.value (.single (@Derives.unary _ _ _ _ _
    (.bare .binaryOperator "-") _ _ rfl (.plain (.bare (@Derives.literal _ _ _ _ _
      (.bare .number lexeme) _ rfl)))))) rfl

/-- Without its semicolon, the first declaration takes the negative number in, and the last one
stays as it is. -/
theorem parseTokens_eraseIdx_negativeTokens :
    parseTokens .program 64 negativeTokens = .ok negativeDocument ∧
      parseTokens .program 64 (negativeTokens.eraseIdx 10) = .ok negativeDocument ∧
      ∃ document' first second first' others,
        Takes second first first' ∧
          Swaps (first :: second :: others) (first' :: others) negativeDocument document' ∧
          ∃ least, ∀ limit' ≥ least,
            parseTokens .program limit' (negativeTokens.eraseIdx 3) = .ok document' := by
  have hlast : Holds 64 (.statements [_])
      [.bare .register "b", .bare .assignOperator "=", .bare .number "3"] (.bare .delimiter ";")
      [] [] := .here (closes_number 62 "b" "3" []) .noStatement
  have hmiddle : Holds 64 (.statements [_, _])
      ([.bare .binaryOperator "-", .bare .number "2", .bare .delimiter ";"] ++
        [.bare .register "b", .bare .assignOperator "=", .bare .number "3"])
      (.bare .delimiter ";") [] [] := .later (reads_negative 61 "2" _) hlast
  have hall : Holds 64 (.statements [_, _, _])
      ([.bare .register "a", .bare .assignOperator "=", .bare .number "1", .bare .delimiter ";"] ++
        ([.bare .binaryOperator "-", .bare .number "2", .bare .delimiter ";"] ++
          [.bare .register "b", .bare .assignOperator "=", .bare .number "3"]))
      (.bare .delimiter ";") [] [] := .later (closes_number 62 "a" "1" _).reads hmiddle
  have hends : EndsDeclaration 64 negativeTokens negativeDocument 10 := ⟨_, _, _, rfl, rfl, hall⟩
  have hends' : EndsDeclaration 64 negativeTokens negativeDocument 3 :=
    ⟨_, _, _, rfl, rfl, .here (closes_number 62 "a" "1" _) hmiddle.reads⟩
  have hended : ∃ last ∈ negativeTokens.getLast?, last.kind = .endOfInput := ⟨_, rfl, rfl⟩
  have hparse : parseTokens .program 64 negativeTokens = .ok negativeDocument := by
    obtain ⟨front, semicolon, behind, hpending, _, hholds⟩ := hends
    refine (parseTokens_eq_ok_iff hended).mpr ⟨_, rfl, _, rfl, ?_⟩
    rw [hpending]
    exact hholds.reads
  obtain ⟨next, hnext, hapart, -⟩ := parseTokens_eraseIdx hended hparse hends
  obtain ⟨next', hnext', -, htakes⟩ := parseTokens_eraseIdx hended hparse hends'
  cases hnext
  cases hnext'
  exact ⟨hparse, hapart rfl, htakes rfl⟩

end RegisterLang.Grammar
