import RegisterLang.Proofs.Grammar.Items
import RegisterLang.Proofs.Node.Siblings

/-!
# Trees over tokens

The trees that a derivation reads stand over its tokens: a node begins at a token in front of those
of its children, or where the first of its children begins, and siblings take their tokens one
behind the other.
-/

namespace RegisterLang

namespace Grammar

open Node

/-! ### Trees and the tokens under them -/

/-- `Spans isParam trees tokens`: the trees stand side by side over the tokens. Every item of a
token belongs to the node that begins there. -/
inductive Spans : Bool → List Tree → List Token → Prop where
  | nothing {isParam tokens} : (∀ t ∈ tokens, t.kind.holdsItem = false) → Spans isParam [] tokens
  | append {isParam trees trees' tokens tokens'} :
      Spans isParam trees tokens → Spans isParam trees' tokens' →
      Spans isParam (trees ++ trees') (tokens ++ tokens')
  /-- A node that begins at the token in front of its children. -/
  | under {n t tokens} :
      Spans n.isParams n.inSourceOrder tokens → n.tag = t.location →
      n.item? = (if t.kind.holdsItem then some t.item else none) → Spans false [n] (t :: tokens)
  /-- A parameter. A literal fills the place of its value. -/
  | param {t typeName tokens} :
      Spans false typeName.toList tokens → t.kind.holdsItem →
      Spans true [.declaration t.location t.lexeme false typeName
        (.literal t.location .number "0")] (t :: tokens)
  /-- A node that begins where the first of its children begins. -/
  | headed {n left trees tokens} :
      Spans false (left :: trees) tokens → n.tag = left.tag → n.item? = none →
      n.isParams = false → n.children = left :: trees → n.row = n.children →
      Spans false [n] tokens

/-- The trees stand over the tokens of `xs` in front of `ys`. -/
def SpansFront (isParam : Bool) (trees : List Tree) (xs ys : List Token) : Prop :=
  ∃ tokens, xs = tokens ++ ys ∧ Spans isParam trees tokens

namespace SpansFront

variable {isParam : Bool} {trees trees' : List Tree} {n left : Tree} {t : Token}
  {xs ys zs : List Token}

/-- No trees stand over no tokens. -/
theorem refl (isParam : Bool) (xs : List Token) : SpansFront isParam [] xs xs :=
  ⟨[], rfl, .nothing (by simp)⟩

/-- Trees over tokens and trees over the tokens behind them stand side by side. -/
theorem trans (h : SpansFront isParam trees xs ys) (h' : SpansFront isParam trees' ys zs) :
    SpansFront isParam (trees ++ trees') xs zs := by
  obtain ⟨tokens, rfl, hspans⟩ := h
  obtain ⟨tokens', rfl, hspans'⟩ := h'
  exact ⟨tokens ++ tokens', (List.append_assoc ..).symm, hspans.append hspans'⟩

/-- A token that holds no item may stand in front. -/
theorem cons (ht : t.kind.holdsItem = false) (h : SpansFront isParam trees xs ys) :
    SpansFront isParam trees (t :: xs) ys := by
  have hfront : SpansFront isParam [] (t :: xs) xs := ⟨[t], rfl, .nothing (by simpa using ht)⟩
  exact hfront.trans h

/-- A token that holds no item may stand behind. -/
theorem behind (h : SpansFront isParam trees xs (t :: ys)) (ht : t.kind.holdsItem = false) :
    SpansFront isParam trees xs ys := by
  have hback : SpansFront isParam [] (t :: ys) ys := ⟨[t], rfl, .nothing (by simpa using ht)⟩
  simpa using h.trans hback

/-- A node that begins at the token in front of its children. -/
theorem under {within : Bool} (h : SpansFront within trees xs ys) (hwithin : n.isParams = within)
    (htrees : n.inSourceOrder = trees) (htag : n.tag = t.location)
    (hitem : n.item? = if t.kind.holdsItem then some t.item else none) :
    SpansFront false [n] (t :: xs) ys := by
  subst hwithin htrees
  obtain ⟨tokens, rfl, hspans⟩ := h
  exact ⟨t :: tokens, rfl, hspans.under htag hitem⟩

/-- A node without children is read from one token. -/
theorem leaf (hwithin : n.isParams = false) (htrees : n.inSourceOrder = [])
    (htag : n.tag = t.location)
    (hitem : n.item? = if t.kind.holdsItem then some t.item else none) :
    SpansFront false [n] (t :: xs) xs :=
  (refl false xs).under hwithin htrees htag hitem

/-- A node that begins where the first of its children begins. -/
theorem headed (h : SpansFront false (left :: trees) xs ys) (htag : n.tag = left.tag)
    (hitem : n.item? = none) (hparams : n.isParams = false)
    (hchildren : n.children = left :: trees) (hrow : n.row = n.children) :
    SpansFront false [n] xs ys := by
  obtain ⟨tokens, rfl, hspans⟩ := h
  exact ⟨tokens, rfl, hspans.headed htag hitem hparams hchildren hrow⟩

end SpansFront

/-! ### Derivations -/

/-- The trees that a phrase is read as, in the order of the text. -/
def Phrase.trees {α : Type} : Phrase α → List (Node α)
  | statements trees | params trees | furtherParams trees | arguments trees
  | furtherArguments trees => trees
  | typeAfterColon tree | capture tree => tree.toList
  | statement tree | declaration _ tree | initialValue tree | block tree | param tree
  | expression tree | binary _ tree | operand tree | suffixed tree | primary tree => [tree]

/-- The trees of a phrase are parameters. -/
def Phrase.readsParams {α : Type} : Phrase α → Bool
  | params _ | furtherParams _ | param _ => true
  | _ => false

/-- The kinds of literals are those of tokens that hold an item. -/
theorem holdsItem_of_literalKind? {kind : TokenKind} {literal : LiteralKind}
    (h : literalKind? kind = some literal) : kind.holdsItem = true := by
  cases kind <;> first | rfl | cases h

/-- What stands in front of an operand holds no item. -/
theorem holdsItem_of_isUnary {t : Token} (h : isUnary t) : t.kind.holdsItem = false := by
  rcases kind_of_isUnary h with hkind | hkind <;> rw [hkind] <;> rfl

/-- A token that holds an item is read as a name. -/
theorem spansFront_nameOf {t : Token} (hkind : t.kind.holdsItem) (xs : List Token) :
    SpansFront false [nameOf Token.location t] (t :: xs) xs :=
  .leaf rfl rfl rfl (by rw [if_pos hkind]; rfl)

/-- The trees of a phrase stand over the tokens of the phrase. -/
theorem Derives.spans {apart : Token → Prop} {n : Nat} {phrase : Phrase Location}
    {xs ys : List Token} (h : Derives Token.location apart n phrase xs ys) :
    SpansFront phrase.readsParams phrase.trees xs ys := by
  induction h with
  | noStatement => exact .refl _ _
  | moreStatements _ _ ih₁ ih₂ => exact ih₁.trans ih₂
  | declares _ ih => exact ih
  | declaresConst hkeyword _ ih => exact ih.cons (Token.holdsItem_of_is hkeyword rfl)
  | @returnsNothing n keyword semicolon ys hkeyword hsemicolon =>
    have hkind := Token.holdsItem_of_is hkeyword rfl
    have hnothing := (SpansFront.refl false ys).cons (Token.holdsItem_of_isDelimiter hsemicolon)
    exact hnothing.under rfl rfl rfl (by rw [hkind]; rfl)
  | @returnsValue n value keyword semicolon xs ys hkeyword _ hsemicolon ih =>
    have hkind := Token.holdsItem_of_is hkeyword rfl
    have hvalue := ih.behind (Token.holdsItem_of_isDelimiter hsemicolon)
    exact hvalue.under rfl rfl rfl (by rw [hkind]; rfl)
  | @imports n keyword opening path closing semicolon ys hkeyword hopening hpath hclosing
      hsemicolon =>
    have hkind : path.kind.holdsItem := by rw [hpath]; rfl
    have hbehind := ((SpansFront.refl false ys).cons
      (Token.holdsItem_of_isDelimiter hsemicolon)).cons (Token.holdsItem_of_isDelimiter hclosing)
    have hpath : SpansFront false [.importUnit path.location path.lexeme]
        (path :: closing :: semicolon :: ys) ys :=
      hbehind.under rfl rfl rfl (by rw [if_pos hkind]; rfl)
    exact (hpath.cons (Token.holdsItem_of_isDelimiter hopening)).cons
      (Token.holdsItem_of_is hkeyword rfl)
  | @function n params returnType body keyword name opening closing xs ys zs ws hkeyword hname
      hopening _ hclosing _ _ ih₁ ih₂ ih₃ =>
    have hkind : name.kind.holdsItem := by rw [hname]; rfl
    have hopen := Token.holdsItem_of_isDelimiter hopening
    have hparams : SpansFront false [.params opening.location params] (opening :: xs) ys :=
      (ih₁.behind (Token.holdsItem_of_isDelimiter hclosing)).under rfl rfl rfl (by rw [hopen]; rfl)
    refine SpansFront.cons (Token.holdsItem_of_is hkeyword rfl) ?_
    exact ((hparams.trans ih₂).trans ih₃).under rfl rfl rfl (by rw [if_pos hkind]; rfl)
  | @loop n condition capture body keyword opening closing xs ys zs ws hkeyword hopening _ hclosing
      _ _ ih₁ ih₂ ih₃ =>
    have hkind := Token.holdsItem_of_is hkeyword rfl
    have hparts := ((ih₁.behind (Token.holdsItem_of_isDelimiter hclosing)).trans ih₂).trans ih₃
    exact (hparts.cons (Token.holdsItem_of_isDelimiter hopening)).under rfl rfl rfl
      (by rw [hkind]; rfl)
  | evaluates _ _ hsemicolon ih => exact ih.behind (Token.holdsItem_of_isDelimiter hsemicolon)
  | plainDeclaration hregister hequals _ ih =>
    exact (ih.cons (Token.holdsItem_of_is hequals rfl)).under rfl rfl rfl
      (by rw [if_pos (by rw [hregister]; rfl)]; rfl)
  | @typedDeclaration n isConst value register typeName equals xs ys hregister htype hequals _ ih =>
    have hkind : register.kind.holdsItem := by rw [hregister]; rfl
    have htypeName := spansFront_nameOf (t := typeName) (by rw [htype]; rfl) (equals :: xs)
    have hparts := htypeName.trans (ih.cons (Token.holdsItem_of_is hequals rfl))
    exact hparts.under rfl rfl rfl (by rw [if_pos hkind]; rfl)
  | @statementDeclaration n isConst value register typeName xs ys hregister htype _ _ ih =>
    have hkind : register.kind.holdsItem := by rw [hregister]; rfl
    have htypeName := spansFront_nameOf (t := typeName) (by rw [htype]; rfl) xs
    exact (htypeName.trans ih).under rfl rfl rfl (by rw [if_pos hkind]; rfl)
  | closedValue _ hsemicolon ih => exact ih.behind (Token.holdsItem_of_isDelimiter hsemicolon)
  | openValue _ _ ih => exact ih
  | @block n trees opening closing xs ys hopening _ hclosing ih =>
    have hkind := Token.holdsItem_of_isDelimiter hopening
    exact (ih.behind (Token.holdsItem_of_isDelimiter hclosing)).under rfl rfl rfl
      (by rw [hkind]; rfl)
  | noParam => exact .refl _ _
  | someParams _ _ ih₁ ih₂ => exact ih₁.trans ih₂
  | noFurtherParam => exact .refl _ _
  | furtherParam hcomma _ _ ih₁ ih₂ =>
    exact (ih₁.trans ih₂).cons (Token.holdsItem_of_isDelimiter hcomma)
  | @param n typeName name xs ys hname _ ih =>
    obtain ⟨tokens, rfl, hspans⟩ := ih
    exact ⟨name :: tokens, rfl, hspans.param (by rw [hname]; rfl)⟩
  | noType => exact .refl _ _
  | someType hcolon hname =>
    exact (spansFront_nameOf (by rw [hname]; rfl) _).cons (Token.holdsItem_of_isDelimiter hcolon)
  | noCapture => exact .refl _ _
  | someCapture hopening _ hclosing ih =>
    exact (ih.behind (Token.holdsItem_of_isDelimiter hclosing)).cons
      (Token.holdsItem_of_isDelimiter hopening)
  | value _ ih => exact ih
  | assignment _ hop _ ih₁ ih₂ =>
    exact ((ih₁.behind (by rw [hop]; rfl)).trans ih₂).headed rfl rfl rfl rfl rfl
  | single _ ih => exact ih
  | binary hop _ _ _ _ ih₁ ih₂ =>
    exact ((ih₁.behind (by rw [hop]; rfl)).trans ih₂).headed rfl rfl rfl rfl rfl
  | plain _ ih => exact ih
  | @unary n tree op xs ys hop _ ih =>
    have hkind := holdsItem_of_isUnary hop
    exact ih.under rfl rfl rfl (by rw [hkind]; rfl)
  | bare _ ih => exact ih
  | call _ hopening _ hclosing ih₁ ih₂ =>
    exact ((ih₁.behind (Token.holdsItem_of_isDelimiter hopening)).trans
      (ih₂.behind (Token.holdsItem_of_isDelimiter hclosing))).headed rfl rfl rfl rfl rfl
  | @member n object dot name xs ys _ hdot hname ih =>
    have hproperty := spansFront_nameOf (t := name) (by rw [hname]; rfl) ys
    exact ((ih.behind (Token.holdsItem_of_isDelimiter hdot)).trans hproperty).headed rfl rfl rfl rfl
      rfl
  | @literal n kind token ys hkind =>
    have hholds := holdsItem_of_literalKind? hkind
    exact .leaf rfl rfl rfl (by rw [if_pos hholds]; rfl)
  | identifier hkind => exact spansFront_nameOf (by rw [hkind]; rfl) _
  | @register n token ys hkind =>
    have hholds : token.kind.holdsItem := by rw [hkind]; rfl
    exact .leaf rfl rfl rfl (by rw [if_pos hholds]; rfl)
  | parenthesized hopening _ hclosing ih =>
    exact (ih.behind (Token.holdsItem_of_isDelimiter hclosing)).cons
      (Token.holdsItem_of_isDelimiter hopening)
  | noArgument => exact .refl _ _
  | someArguments _ _ ih₁ ih₂ => exact ih₁.trans ih₂
  | noFurtherArgument => exact .refl _ _
  | trailingComma hcomma =>
    exact (SpansFront.refl false _).cons (Token.holdsItem_of_isDelimiter hcomma)
  | furtherArgument hcomma _ _ ih₁ ih₂ =>
    exact (ih₁.trans ih₂).cons (Token.holdsItem_of_isDelimiter hcomma)

end Grammar

end RegisterLang
