import RegisterLang.Grammar.Program

/-!
# Derivations of the grammar

The grammar of the language as a relation between phrases and token lists. A derivation says what
may be read; it knows nothing of a cursor, of rounds or of the order in which a parser tries things.
Each rule takes a phrase off the front of a token list and leaves the rest of it, so that a rule may
also ask what follows a phrase.

The number in a derivation bounds the levels of nesting: a statement, an expression, the right side
of an assignment and the operand of a unary operator each take one level.
-/

namespace RegisterLang.Grammar

/-- What the front of a token list can be read as, with the trees it is read as. -/
inductive Phrase (α : Type) where
  | statements (trees : List (Node α))
  | statement (tree : Node α)
  | declaration (isConst : Bool) (tree : Node α)
  /-- What stands behind the equals sign of a declaration. -/
  | initialValue (tree : Node α)
  | block (tree : Node α)
  /-- Parameters, without their parentheses. -/
  | params (trees : List (Node α))
  /-- Parameters behind a first one, each with a comma in front. -/
  | furtherParams (trees : List (Node α))
  | param (tree : Node α)
  /-- A colon and the name of a type, or nothing. -/
  | typeAfterColon (tree : Option (Node α))
  /-- The capture of a loop between its bars, or nothing. -/
  | capture (tree : Option (Node α))
  | expression (tree : Node α)
  /-- Operands with binary operators of at least some rank between them. -/
  | binary (least : Nat) (tree : Node α)
  | operand (tree : Node α)
  /-- A primary with the calls and members behind it. -/
  | suffixed (tree : Node α)
  | primary (tree : Node α)
  /-- Arguments, without their parentheses. -/
  | arguments (trees : List (Node α))
  /-- Arguments behind a first one, each with a comma in front. -/
  | furtherArguments (trees : List (Node α))

/-- The token is a sign: a binary operator that may also stand in front of an operand. -/
def isSign (token : Token) : Bool :=
  token.kind == .binaryOperator && Operator.signs.contains token.lexeme

/-- A sign is a binary operator. -/
theorem kind_of_isSign {sign : Token} (h : isSign sign) : sign.kind = .binaryOperator := by
  simp only [isSign, Bool.and_eq_true, beq_iff_eq] at h
  exact h.1

/-- Signs are among the binary operators that have a level of precedence. -/
theorem rank_ne_zero_of_isSign {sign : Token} (h : isSign sign) : rank sign.lexeme ≠ 0 := by
  have hsigns : ∀ lexeme ∈ Operator.signs, rank lexeme ≠ 0 := by decide
  simp only [isSign, Bool.and_eq_true, List.contains_iff_mem] at h
  exact hsigns _ h.2

/-- A sign may stand in front of an operand. -/
theorem isUnary_of_isSign {sign : Token} (h : isSign sign) : isUnary sign :=
  Bool.or_eq_true_iff.mpr (.inr h)

/-- What stands in front of an operand is no end of the input. -/
theorem kind_ne_of_isUnary {token : Token} (h : isUnary token) : token.kind ≠ .endOfInput := by
  rcases kind_of_isUnary h with hkind | hkind <;> rw [hkind] <;> decide

/-- The tokens start the declaration of a register. -/
def StartsDeclaration : List Token → Prop
  | register :: next :: _ =>
    register.kind = .register ∧ (next.kind = .typeName ∨ next.is .assignOperator "=")
  | _ => False

/-- The tokens start with one that an expression statement may start with, and start no
declaration. -/
def StartsExpressionStatement (tokens : List Token) : Prop :=
  ∃ first ∈ tokens.head?, first.kind ∈ expressionStarts ∨
    (first.kind = .register ∧ ¬ StartsDeclaration tokens)

section

variable {α : Type} (mark : Token → α)

/-- A token as the tree of an identifier, with the mark of the token. -/
def nameOf (token : Token) : Node α :=
  .primary (mark token) .identifier token.lexeme

variable (apart : Token → Prop)

/-- `Derives mark apart n phrase xs ys`: the tokens `xs` are `phrase`, read with at most `n` levels
of nesting, followed by `ys`. Nodes carry the marks of their tokens. A declaration may end without
a semicolon only in front of a token that `apart` holds of. -/
inductive Derives : Nat → Phrase α → List Token → List Token → Prop where
  | noStatement {n xs} : Derives n (.statements []) xs xs
  | moreStatements {n tree trees xs ys zs} :
      Derives n (.statement tree) xs ys → Derives n (.statements trees) ys zs →
      Derives n (.statements (tree :: trees)) xs zs
  | declares {n tree xs ys} :
      Derives n (.declaration false tree) xs ys → Derives (n + 1) (.statement tree) xs ys
  | declaresConst {n tree keyword xs ys} :
      keyword.is .directive "const" → Derives n (.declaration true tree) xs ys →
      Derives (n + 1) (.statement tree) (keyword :: xs) ys
  | returnsNothing {n keyword semicolon ys} :
      keyword.is .keyword "return" → semicolon.isDelimiter ";" →
      Derives (n + 1) (.statement (.returning (mark keyword) none)) (keyword :: semicolon :: ys) ys
  | returnsValue {n value keyword semicolon xs ys} :
      keyword.is .keyword "return" → Derives n (.expression value) xs (semicolon :: ys) →
      semicolon.isDelimiter ";" →
      Derives (n + 1) (.statement (.returning (mark keyword) (some value))) (keyword :: xs) ys
  | imports {n keyword opening path closing semicolon ys} :
      keyword.is .directive "import" → opening.isDelimiter "(" → path.kind = .string →
      closing.isDelimiter ")" → semicolon.isDelimiter ";" →
      Derives (n + 1) (.statement (.importUnit (mark path) path.lexeme))
        (keyword :: opening :: path :: closing :: semicolon :: ys) ys
  | function {n params returnType body keyword name opening closing xs ys zs ws} :
      keyword.is .directive "func" → name.kind = .identifier → opening.isDelimiter "(" →
      Derives n (.params params) xs (closing :: ys) → closing.isDelimiter ")" →
      Derives n (.typeAfterColon returnType) ys zs → Derives n (.block body) zs ws →
      Derives (n + 1) (.statement
        (.function (mark name) name.lexeme (.params (mark opening) params) returnType body))
        (keyword :: name :: opening :: xs) ws
  | loop {n condition capture body keyword opening closing xs ys zs ws} :
      keyword.is .directive "while" → opening.isDelimiter "(" →
      Derives n (.expression condition) xs (closing :: ys) → closing.isDelimiter ")" →
      Derives n (.capture capture) ys zs → Derives n (.block body) zs ws →
      Derives (n + 1) (.statement (.whileLoop (mark keyword) condition capture body))
        (keyword :: opening :: xs) ws
  | evaluates {n tree semicolon xs ys} :
      StartsExpressionStatement xs → Derives n (.expression tree) xs (semicolon :: ys) →
      semicolon.isDelimiter ";" → Derives (n + 1) (.statement tree) xs ys
  | plainDeclaration {n isConst value register equals xs ys} :
      register.kind = .register → equals.is .assignOperator "=" →
      Derives n (.initialValue value) xs ys →
      Derives n (.declaration isConst
        (.declaration (mark register) register.lexeme isConst none value))
        (register :: equals :: xs) ys
  | typedDeclaration {n isConst value register typeName equals xs ys} :
      register.kind = .register → typeName.kind = .typeName → equals.is .assignOperator "=" →
      Derives n (.initialValue value) xs ys →
      Derives n (.declaration isConst
        (.declaration (mark register) register.lexeme isConst (some (nameOf mark typeName)) value))
        (register :: typeName :: equals :: xs) ys
  | statementDeclaration {n isConst value register typeName xs ys} :
      register.kind = .register → typeName.kind = .typeName →
      (∀ next ∈ xs.head?, ¬ next.is .assignOperator "=") → Derives n (.statement value) xs ys →
      Derives n (.declaration isConst
        (.declaration (mark register) register.lexeme isConst (some (nameOf mark typeName)) value))
        (register :: typeName :: xs) ys
  | closedValue {n value semicolon xs ys} :
      Derives n (.expression value) xs (semicolon :: ys) → semicolon.isDelimiter ";" →
      Derives n (.initialValue value) xs ys
  | openValue {n value xs ys} :
      Derives n (.expression value) xs ys → (∀ next ∈ ys.head?, apart next) →
      Derives n (.initialValue value) xs ys
  | block {n trees opening closing xs ys} :
      opening.isDelimiter openingBrace → Derives n (.statements trees) xs (closing :: ys) →
      closing.isDelimiter closingBrace →
      Derives n (.block (.block (mark opening) trees)) (opening :: xs) ys
  | noParam {n xs} : Derives n (.params []) xs xs
  | someParams {n tree trees xs ys zs} :
      Derives n (.param tree) xs ys → Derives n (.furtherParams trees) ys zs →
      Derives n (.params (tree :: trees)) xs zs
  | noFurtherParam {n xs} : Derives n (.furtherParams []) xs xs
  | furtherParam {n tree trees comma xs ys zs} :
      comma.isDelimiter "," → Derives n (.param tree) xs ys →
      Derives n (.furtherParams trees) ys zs →
      Derives n (.furtherParams (tree :: trees)) (comma :: xs) zs
  | param {n typeName name xs ys} :
      name.kind = .identifier → Derives n (.typeAfterColon typeName) xs ys →
      Derives n (.param (.declaration (mark name) name.lexeme false typeName
        (.literal (mark name) .number "0"))) (name :: xs) ys
  | noType {n xs} : Derives n (.typeAfterColon none) xs xs
  | someType {n colon name ys} :
      colon.isDelimiter ":" → name.kind = .identifier →
      Derives n (.typeAfterColon (some (nameOf mark name))) (colon :: name :: ys) ys
  | noCapture {n xs} : Derives n (.capture none) xs xs
  | someCapture {n tree opening closing xs ys} :
      opening.isDelimiter "|" → Derives n (.primary tree) xs (closing :: ys) →
      closing.isDelimiter "|" → Derives n (.capture (some tree)) (opening :: xs) ys
  | value {n tree xs ys} :
      Derives n (.binary 0 tree) xs ys → Derives (n + 1) (.expression tree) xs ys
  | assignment {n left right op xs ys zs} :
      Derives n (.binary 0 left) xs (op :: ys) → op.kind = .assignOperator →
      Derives n (.expression right) ys zs →
      Derives (n + 1) (.expression (.assignment left.tag op.lexeme left right)) xs zs
  | single {n least tree xs ys} :
      Derives n (.operand tree) xs ys → Derives n (.binary least tree) xs ys
  | binary {n least left right op xs ys zs} :
      op.kind = .binaryOperator → rank op.lexeme ≠ 0 → least ≤ rank op.lexeme →
      Derives n (.binary (rank op.lexeme) left) xs (op :: ys) →
      Derives n (.binary (rank op.lexeme + 1) right) ys zs →
      Derives n (.binary least (.binary left.tag op.lexeme left right)) xs zs
  | plain {n tree xs ys} :
      Derives n (.suffixed tree) xs ys → Derives n (.operand tree) xs ys
  | unary {n tree op xs ys} :
      isUnary op → Derives n (.operand tree) xs ys →
      Derives (n + 1) (.operand (.unary (mark op) op.lexeme tree)) (op :: xs) ys
  | bare {n tree xs ys} :
      Derives n (.primary tree) xs ys → Derives n (.suffixed tree) xs ys
  | call {n callee args opening closing xs ys zs} :
      Derives n (.suffixed callee) xs (opening :: ys) → opening.isDelimiter "(" →
      Derives n (.arguments args) ys (closing :: zs) → closing.isDelimiter ")" →
      Derives n (.suffixed (.call callee.tag callee args)) xs zs
  | member {n object dot name xs ys} :
      Derives n (.suffixed object) xs (dot :: name :: ys) → dot.isDelimiter "." →
      name.kind = .identifier →
      Derives n (.suffixed (.member object.tag object (nameOf mark name))) xs ys
  | literal {n kind token ys} :
      literalKind? token.kind = some kind →
      Derives n (.primary (.literal (mark token) kind token.lexeme)) (token :: ys) ys
  | identifier {n token ys} :
      token.kind = .identifier → Derives n (.primary (nameOf mark token)) (token :: ys) ys
  | register {n token ys} :
      token.kind = .register →
      Derives n (.primary (.primary (mark token) .register token.lexeme)) (token :: ys) ys
  | parenthesized {n tree opening closing xs ys} :
      opening.isDelimiter "(" → Derives n (.expression tree) xs (closing :: ys) →
      closing.isDelimiter ")" → Derives n (.primary tree) (opening :: xs) ys
  | noArgument {n xs} : Derives n (.arguments []) xs xs
  | someArguments {n tree trees xs ys zs} :
      Derives n (.expression tree) xs ys → Derives n (.furtherArguments trees) ys zs →
      Derives n (.arguments (tree :: trees)) xs zs
  | noFurtherArgument {n xs} : Derives n (.furtherArguments []) xs xs
  | trailingComma {n comma ys} :
      comma.isDelimiter "," → Derives n (.furtherArguments []) (comma :: ys) ys
  | furtherArgument {n tree trees comma xs ys zs} :
      comma.isDelimiter "," → Derives n (.expression tree) xs ys →
      Derives n (.furtherArguments trees) ys zs →
      Derives n (.furtherArguments (tree :: trees)) (comma :: xs) zs

end

/-! ### How phrases begin -/

/-- The token starts a primary. -/
def startsPrimary (token : Token) : Bool :=
  (literalKind? token.kind).isSome || token.kind == .identifier || token.kind == .register ||
    token.isDelimiter "("

/-- The token starts an operand, and so an expression. -/
def startsOperand (token : Token) : Bool :=
  isUnary token || startsPrimary token

/-- No primary starts with a unary operator. -/
theorem not_isUnary_of_startsPrimary {token : Token} (h : startsPrimary token) :
    ¬ isUnary token := by
  intro hunary
  simp only [startsPrimary, Token.isDelimiter, Token.is, Bool.or_eq_true, Bool.and_eq_true,
    beq_iff_eq] at h
  rcases kind_of_isUnary hunary with hkind | hkind <;> simp [hkind, literalKind?] at h

/-- The token starts a statement of a kind that has a grammar. -/
def startsStatement (token : Token) : Bool :=
  token.kind == .directive || token.kind == .keyword ||
    (startsOperand token && !token.isDelimiter "(")

/-- A statement starts with no equals sign. -/
theorem not_is_equals_of_startsStatement {token : Token} (h : startsStatement token) :
    ¬ token.is .assignOperator "=" := by
  intro hequals
  have hkind := (Token.is_iff.mp hequals).1
  simp [startsStatement, startsOperand, startsPrimary, isUnary, Token.isDelimiter, Token.is, hkind,
    literalKind?] at h

/-- What the first token of a phrase is like. Phrases that may be empty have no such rule. -/
def Phrase.starts {α : Type} : Phrase α → Token → Bool
  | statement _ => startsStatement
  | declaration _ _ => fun token => token.kind == .register
  | block _ => (·.isDelimiter openingBrace)
  | param _ => fun token => token.kind == .identifier
  | initialValue _ | expression _ | binary _ _ | operand _ => startsOperand
  | suffixed _ | primary _ => startsPrimary
  | statements _ | params _ | furtherParams _ | typeAfterColon _ | capture _ | arguments _
  | furtherArguments _ => fun _ => true

/-- Whether a phrase has a first token, whatever it is read as. -/
def Phrase.nonempty {α : Type} : Phrase α → Bool
  | statements _ | params _ | furtherParams _ | typeAfterColon _ | capture _ | arguments _
  | furtherArguments _ => false
  | _ => true

section

variable {α : Type} {mark : Token → α} {apart : Token → Prop}

/-- Whatever an expression statement starts with starts a statement, once it starts an operand. -/
theorem startsStatement_of_startsOperand {tokens : List Token} {first : Token}
    (hstarts : StartsExpressionStatement (first :: tokens)) (hoperand : startsOperand first) :
    startsStatement first := by
  obtain ⟨first', hfirst, hkind⟩ := hstarts
  obtain rfl : first = first' := by simpa using hfirst
  have hdelimiter : first.isDelimiter "(" = false := by
    have hne : first.kind ≠ .delimiter := by
      rcases hkind with hmem | ⟨hregister, _⟩
      · intro heq
        rw [heq] at hmem
        revert hmem
        decide
      · rw [hregister]
        decide
    simp [Token.isDelimiter, Token.is, hne]
  simp [startsStatement, hoperand, hdelimiter]

/-- What can be read with some levels of nesting can be read with one more. -/
theorem Derives.succ {n : Nat} {phrase : Phrase α} {xs ys : List Token}
    (h : Derives mark apart n phrase xs ys) : Derives mark apart (n + 1) phrase xs ys := by
  induction h with
  | noStatement => exact .noStatement
  | moreStatements _ _ ih₁ ih₂ => exact .moreStatements ih₁ ih₂
  | declares _ ih => exact .declares ih
  | declaresConst hkeyword _ ih => exact .declaresConst hkeyword ih
  | returnsNothing hkeyword hsemicolon => exact .returnsNothing hkeyword hsemicolon
  | returnsValue hkeyword _ hsemicolon ih => exact .returnsValue hkeyword ih hsemicolon
  | imports hkeyword hopening hpath hclosing hsemicolon =>
    exact .imports hkeyword hopening hpath hclosing hsemicolon
  | function hkeyword hname hopening _ hclosing _ _ ih₁ ih₂ ih₃ =>
    exact .function hkeyword hname hopening ih₁ hclosing ih₂ ih₃
  | loop hkeyword hopening _ hclosing _ _ ih₁ ih₂ ih₃ =>
    exact .loop hkeyword hopening ih₁ hclosing ih₂ ih₃
  | evaluates hstarts _ hsemicolon ih => exact .evaluates hstarts ih hsemicolon
  | plainDeclaration hregister hequals _ ih => exact .plainDeclaration hregister hequals ih
  | typedDeclaration hregister htype hequals _ ih =>
    exact .typedDeclaration hregister htype hequals ih
  | statementDeclaration hregister htype hnext _ ih =>
    exact .statementDeclaration hregister htype hnext ih
  | closedValue _ hsemicolon ih => exact .closedValue ih hsemicolon
  | openValue _ happart ih => exact .openValue ih happart
  | block hopening _ hclosing ih => exact .block hopening ih hclosing
  | noParam => exact .noParam
  | someParams _ _ ih₁ ih₂ => exact .someParams ih₁ ih₂
  | noFurtherParam => exact .noFurtherParam
  | furtherParam hcomma _ _ ih₁ ih₂ => exact .furtherParam hcomma ih₁ ih₂
  | param hname _ ih => exact .param hname ih
  | noType => exact .noType
  | someType hcolon hname => exact .someType hcolon hname
  | noCapture => exact .noCapture
  | someCapture hopening _ hclosing ih => exact .someCapture hopening ih hclosing
  | value _ ih => exact .value ih
  | assignment _ hop _ ih₁ ih₂ => exact .assignment ih₁ hop ih₂
  | single _ ih => exact .single ih
  | binary hop hrank hleast _ _ ih₁ ih₂ => exact .binary hop hrank hleast ih₁ ih₂
  | plain _ ih => exact .plain ih
  | unary hop _ ih => exact .unary hop ih
  | bare _ ih => exact .bare ih
  | call _ hopening _ hclosing ih₁ ih₂ => exact .call ih₁ hopening ih₂ hclosing
  | member _ hdot hname ih => exact .member ih hdot hname
  | literal hkind => exact .literal hkind
  | identifier hkind => exact .identifier hkind
  | register hkind => exact .register hkind
  | parenthesized hopening _ hclosing ih => exact .parenthesized hopening ih hclosing
  | noArgument => exact .noArgument
  | someArguments _ _ ih₁ ih₂ => exact .someArguments ih₁ ih₂
  | noFurtherArgument => exact .noFurtherArgument
  | trailingComma hcomma => exact .trailingComma hcomma
  | furtherArgument hcomma _ _ ih₁ ih₂ => exact .furtherArgument hcomma ih₁ ih₂

/-- What can be read with some levels of nesting can be read with more. -/
theorem Derives.mono {n m : Nat} {phrase : Phrase α} {xs ys : List Token}
    (h : Derives mark apart n phrase xs ys) (hle : n ≤ m) :
    Derives mark apart m phrase xs ys := by
  induction hle with
  | refl => exact h
  | step _ ih => exact ih.succ

/-- A phrase leaves at most the tokens it found, and fewer if it is never empty. -/
theorem Derives.length_le {n : Nat} {phrase : Phrase α} {xs ys : List Token}
    (h : Derives mark apart n phrase xs ys) :
    ys.length + phrase.nonempty.toNat ≤ xs.length := by
  induction h <;>
    simp only [Phrase.nonempty, Bool.toNat_true, Bool.toNat_false, List.length_cons] at * <;>
    omega

/-- What a phrase leaves is the end of what it found. -/
theorem Derives.suffix {n : Nat} {phrase : Phrase α} {xs ys : List Token}
    (h : Derives mark apart n phrase xs ys) : ys <:+ xs := by
  induction h with
  | noStatement | noParam | noFurtherParam | noType | noCapture | noArgument | noFurtherArgument =>
    exact List.suffix_rfl
  | _ => grind [List.IsSuffix.trans, List.suffix_cons]

/-- A phrase that is never empty has a first token of the right sort. -/
theorem Derives.starts {n : Nat} {phrase : Phrase α} {xs ys : List Token}
    (h : Derives mark apart n phrase xs ys) (hne : phrase.nonempty) :
    ∃ first tokens, xs = first :: tokens ∧ phrase.starts first := by
  induction h with
  | declares _ ih =>
    obtain ⟨first, tokens, rfl, hfirst⟩ := ih rfl
    have hkind : first.kind = .register := by simpa [Phrase.starts] using hfirst
    refine ⟨first, tokens, rfl, ?_⟩
    simp [Phrase.starts, startsStatement, startsOperand, startsPrimary, Token.isDelimiter, Token.is,
      hkind]
  | evaluates hstarts _ _ ih =>
    obtain ⟨first, tokens, rfl, hfirst⟩ := ih rfl
    exact ⟨first, tokens, rfl, startsStatement_of_startsOperand hstarts hfirst⟩
  | declaresConst hkeyword | returnsNothing hkeyword | returnsValue hkeyword | imports hkeyword
  | function hkeyword | loop hkeyword =>
    have hkind := (Token.is_iff.mp hkeyword).1
    exact ⟨_, _, rfl, by simp [Phrase.starts, startsStatement, hkind]⟩
  | plainDeclaration hkind | typedDeclaration hkind | statementDeclaration hkind | param hkind =>
    exact ⟨_, _, rfl, by simp [Phrase.starts, hkind]⟩
  | block hopening => exact ⟨_, _, rfl, hopening⟩
  | unary hop => exact ⟨_, _, rfl, by simp [Phrase.starts, startsOperand, hop]⟩
  | parenthesized hopening => exact ⟨_, _, rfl, by simp [Phrase.starts, startsPrimary, hopening]⟩
  | literal hkind | identifier hkind | register hkind =>
    exact ⟨_, _, rfl, by simp [Phrase.starts, startsPrimary, hkind]⟩
  | plain _ ih =>
    obtain ⟨first, tokens, rfl, hfirst⟩ := ih rfl
    have hprimary : startsPrimary first := hfirst
    exact ⟨first, tokens, rfl, by simp [Phrase.starts, startsOperand, hprimary]⟩
  | closedValue _ _ ih | openValue _ _ ih | value _ ih | assignment _ _ _ ih | single _ ih
  | binary _ _ _ _ _ ih | bare _ ih | call _ _ _ _ ih | member _ _ _ ih =>
    exact ih rfl
  | _ => cases hne

end

end RegisterLang.Grammar
