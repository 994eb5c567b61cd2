import Mathlib.Data.List.Forall2
import RegisterLang.Proofs.Grammar.Derivation

/-!
# Derivations without places

A derivation tests kinds and lexemes of tokens and nothing else. So whatever is derived from some
tokens is derived from any other tokens that read the same, up to the marks on the nodes.
-/

namespace RegisterLang

/-- Two tokens read the same: they have the same kind and the same lexeme. -/
structure Token.Alike (t u : Token) : Prop where
  kind : t.kind = u.kind
  lexeme : t.lexeme = u.lexeme

namespace Token

/-- Every token reads the same as itself. -/
theorem Alike.refl (t : Token) : t.Alike t := ⟨rfl, rfl⟩

/-- Tokens read the same in either order. -/
theorem Alike.symm {t u : Token} (h : t.Alike u) : u.Alike t := ⟨h.kind.symm, h.lexeme.symm⟩

/-- A token that stands nowhere. -/
def bare (kind : TokenKind) (lexeme : String) : Token :=
  ⟨kind, lexeme, ⟨"", 0, 0, 0⟩⟩

/-- A bare token has the kind that it is made with. -/
@[simp] theorem kind_bare (kind : TokenKind) (lexeme : String) : (bare kind lexeme).kind = kind :=
  rfl

/-- A bare token has the text that it is made with. -/
@[simp] theorem lexeme_bare (kind : TokenKind) (lexeme : String) :
    (bare kind lexeme).lexeme = lexeme := rfl

/-- A bare token is of the kind and the text that it is made with. -/
theorem is_bare (kind : TokenKind) (lexeme : String) : (bare kind lexeme).is kind lexeme :=
  is_iff.mpr ⟨rfl, rfl⟩

/-- A bare delimiter is that delimiter. -/
theorem isDelimiter_bare (lexeme : String) : (bare .delimiter lexeme).isDelimiter lexeme :=
  is_bare .delimiter lexeme

/-- A token reads the same as one that stands nowhere and has its kind and its lexeme. -/
theorem bare_alike_of_is {t : Token} {kind : TokenKind} {lexeme : String} (h : t.is kind lexeme) :
    (bare kind lexeme).Alike t :=
  ⟨(is_iff.mp h).1.symm, (is_iff.mp h).2.symm⟩

/-- Tokens that read the same pass the same tests. -/
theorem Alike.is_eq {t u : Token} (h : t.Alike u) (kind : TokenKind) (lexeme : String) :
    t.is kind lexeme = u.is kind lexeme := by
  rw [Token.is, Token.is, h.kind, h.lexeme]

/-- Tokens that read the same are the same delimiter or none. -/
theorem Alike.isDelimiter_eq {t u : Token} (h : t.Alike u) (lexeme : String) :
    t.isDelimiter lexeme = u.isDelimiter lexeme :=
  h.is_eq .delimiter lexeme

/-- A token that reads the same as one of some kind and text is of them as well. -/
theorem Alike.is {t u : Token} (h : t.Alike u) {kind : TokenKind} {lexeme : String}
    (ht : t.is kind lexeme) : u.is kind lexeme := by
  rwa [← h.is_eq]

/-- A token that reads the same as a delimiter is that delimiter. -/
theorem Alike.isDelimiter {t u : Token} (h : t.Alike u) {lexeme : String}
    (ht : t.isDelimiter lexeme) : u.isDelimiter lexeme :=
  h.is ht

end Token

namespace Node

variable {α β : Type}

/-- Tags that stay as they are leave the tree as it is. -/
theorem map_eq_self {f : α → α} (hf : ∀ a, f a = a) (n : Node α) : n.map f = n := by
  induction n using Node.induction with
  | step n ih =>
    have all (ns : List (Node α)) (hns : ∀ c ∈ ns, c ∈ n.children) : ns.map (map f) = ns :=
      (List.map_congr_left fun c hc => ih c (hns c hc)).trans (List.map_id' ns)
    have option (o : Option (Node α)) (ho : ∀ c ∈ o.toList, c ∈ n.children) :
        o.map (map f) = o := by
      cases o with
      | none => rfl
      | some c => exact congrArg some (ih c (ho c (List.mem_singleton_self c)))
    cases n <;> simp_all [map, children]

/-- A tree without its tags. -/
abbrev shape : Node α → Node Unit :=
  map fun _ => ()

/-- A tree without tags is its own shape. -/
@[simp] theorem shape_eq_id : (shape : Node Unit → Node Unit) = id :=
  funext (map_eq_self fun _ => rfl)

end Node

namespace Grammar

/-- Some phrase with other marks has the shape of this one and the property `P`. -/
def Phrase.Twin {α β : Type} (P : Phrase β → Prop) : Phrase α → Prop
  | statements trees =>
    ∃ trees', trees'.map Node.shape = trees.map Node.shape ∧ P (.statements trees')
  | statement tree => ∃ tree', tree'.shape = tree.shape ∧ P (.statement tree')
  | declaration isConst tree =>
    ∃ tree', tree'.shape = tree.shape ∧ P (.declaration isConst tree')
  | initialValue tree => ∃ tree', tree'.shape = tree.shape ∧ P (.initialValue tree')
  | block tree => ∃ tree', tree'.shape = tree.shape ∧ P (.block tree')
  | params trees => ∃ trees', trees'.map Node.shape = trees.map Node.shape ∧ P (.params trees')
  | furtherParams trees =>
    ∃ trees', trees'.map Node.shape = trees.map Node.shape ∧ P (.furtherParams trees')
  | param tree => ∃ tree', tree'.shape = tree.shape ∧ P (.param tree')
  | typeAfterColon tree =>
    ∃ tree', tree'.map Node.shape = tree.map Node.shape ∧ P (.typeAfterColon tree')
  | capture tree => ∃ tree', tree'.map Node.shape = tree.map Node.shape ∧ P (.capture tree')
  | expression tree => ∃ tree', tree'.shape = tree.shape ∧ P (.expression tree')
  | binary least tree => ∃ tree', tree'.shape = tree.shape ∧ P (.binary least tree')
  | operand tree => ∃ tree', tree'.shape = tree.shape ∧ P (.operand tree')
  | suffixed tree => ∃ tree', tree'.shape = tree.shape ∧ P (.suffixed tree')
  | primary tree => ∃ tree', tree'.shape = tree.shape ∧ P (.primary tree')
  | arguments trees =>
    ∃ trees', trees'.map Node.shape = trees.map Node.shape ∧ P (.arguments trees')
  | furtherArguments trees =>
    ∃ trees', trees'.map Node.shape = trees.map Node.shape ∧ P (.furtherArguments trees')

/-- A test that only reads a token gives the same result on the first of other such tokens. -/
theorem forall_head?_of_alike {test : Token → Prop} (htest : ∀ t u, t.Alike u → test t → test u)
    {xs xs' : List Token} (hxs : List.Forall₂ Token.Alike xs xs') (h : ∀ t ∈ xs.head?, test t) :
    ∀ t ∈ xs'.head?, test t := by
  cases hxs with
  | nil => exact h
  | @cons t u _ _ htu _ =>
    intro u' hu
    obtain rfl : u = u' := by simpa using hu
    exact htest t u htu (h t rfl)

/-- What reads the same as an operator in front of an operand is one as well. -/
theorem isUnary_of_alike {t u : Token} (h : t.Alike u) (ht : isUnary t) : isUnary u := by
  rwa [isUnary, ← h.kind, ← h.lexeme]

/-- Tokens that read the same start a declaration both or neither. -/
theorem StartsDeclaration.of_alike {xs xs' : List Token}
    (hxs : List.Forall₂ Token.Alike xs xs') (h : StartsDeclaration xs) : StartsDeclaration xs' := by
  obtain _ | ⟨hregister, _ | ⟨hnext, _⟩⟩ := hxs
  · exact h
  · exact h
  · exact ⟨hregister.kind.symm.trans h.1, h.2.imp hnext.kind.symm.trans hnext.is⟩

/-- Tokens that read the same start an expression as a statement both or neither. -/
theorem StartsExpressionStatement.of_alike {xs xs' : List Token}
    (hxs : List.Forall₂ Token.Alike xs xs') (h : StartsExpressionStatement xs) :
    StartsExpressionStatement xs' := by
  obtain ⟨first, hfirst, hkind⟩ := h
  obtain _ | @⟨_, u, _, us, hfirst', hxs'⟩ := hxs
  · cases hfirst
  · obtain rfl := Option.some.inj hfirst
    have hback : List.Forall₂ Token.Alike (u :: us) (_ :: _) :=
      .cons hfirst'.symm (hxs'.flip.imp fun _ _ => Token.Alike.symm)
    refine ⟨u, rfl, ?_⟩
    rw [← hfirst'.kind]
    exact hkind.imp_right fun ⟨hregister, hnone⟩ =>
      ⟨hregister, fun hdeclares => hnone (hdeclares.of_alike hback)⟩

variable {α β : Type} {mark : Token → α} {apart : Token → Prop}

/-- Tokens that read the same have a derivation of the same shape, whatever marks it carries. -/
theorem Derives.twin {n : Nat} {phrase : Phrase α} {xs ys xs' : List Token} (mark' : Token → β)
    (happart : ∀ t u : Token, t.Alike u → apart t → apart u)
    (h : Derives mark apart n phrase xs ys) (hxs : List.Forall₂ Token.Alike xs xs') :
    ∃ ys', List.Forall₂ Token.Alike ys ys' ∧
      phrase.Twin fun phrase' => Derives mark' apart n phrase' xs' ys' := by
  induction h generalizing xs' with
  | noStatement => exact ⟨xs', hxs, [], rfl, .noStatement⟩
  | moreStatements _ _ ih₁ ih₂ =>
    obtain ⟨ys', hys, tree, htree, h₁⟩ := ih₁ hxs
    obtain ⟨zs', hzs, trees, htrees, h₂⟩ := ih₂ hys
    exact ⟨zs', hzs, tree :: trees, by simp [htree, htrees], .moreStatements h₁ h₂⟩
  | declares _ ih =>
    obtain ⟨ys', hys, tree, htree, h⟩ := ih hxs
    exact ⟨ys', hys, tree, htree, .declares h⟩
  | declaresConst hkeyword _ ih =>
    obtain _ | ⟨hkeyword', hxs⟩ := hxs
    obtain ⟨ys', hys, tree, htree, h⟩ := ih hxs
    exact ⟨ys', hys, tree, htree, .declaresConst (hkeyword'.is hkeyword) h⟩
  | returnsNothing hkeyword hsemicolon =>
    obtain _ | ⟨hkeyword', _ | ⟨hsemicolon', hys⟩⟩ := hxs
    exact ⟨_, hys, .returning _ none, rfl,
      .returnsNothing (hkeyword'.is hkeyword) (hsemicolon'.isDelimiter hsemicolon)⟩
  | returnsValue hkeyword _ hsemicolon ih =>
    obtain _ | ⟨hkeyword', hxs⟩ := hxs
    obtain ⟨_, _ | ⟨hsemicolon', hys⟩, value, hvalue, h⟩ := ih hxs
    exact ⟨_, hys, _, by simp [Node.map, hvalue],
      .returnsValue (hkeyword'.is hkeyword) h (hsemicolon'.isDelimiter hsemicolon)⟩
  | imports hkeyword hopening hpath hclosing hsemicolon =>
    obtain _ | ⟨hkeyword', _ | ⟨hopening', _ | ⟨hpath', _ | ⟨hclosing', _ |
      ⟨hsemicolon', hys⟩⟩⟩⟩⟩ := hxs
    exact ⟨_, hys, _, by simp [Node.map, hpath'.lexeme], .imports (hkeyword'.is hkeyword)
      (hopening'.isDelimiter hopening) (hpath'.kind.symm.trans hpath)
      (hclosing'.isDelimiter hclosing) (hsemicolon'.isDelimiter hsemicolon)⟩
  | function hkeyword hname hopening _ hclosing _ _ ih₁ ih₂ ih₃ =>
    obtain _ | ⟨hkeyword', _ | ⟨hname', _ | ⟨hopening', hxs⟩⟩⟩ := hxs
    obtain ⟨_, _ | ⟨hclosing', hys⟩, params, hparams, h₁⟩ := ih₁ hxs
    obtain ⟨_, hzs, returnType, hreturnType, h₂⟩ := ih₂ hys
    obtain ⟨_, hws, body, hbody, h₃⟩ := ih₃ hzs
    exact ⟨_, hws, _, by simp [Node.map, hparams, hreturnType, hbody, hname'.lexeme],
      .function (hkeyword'.is hkeyword) (hname'.kind.symm.trans hname)
        (hopening'.isDelimiter hopening) h₁ (hclosing'.isDelimiter hclosing) h₂ h₃⟩
  | loop hkeyword hopening _ hclosing _ _ ih₁ ih₂ ih₃ =>
    obtain _ | ⟨hkeyword', _ | ⟨hopening', hxs⟩⟩ := hxs
    obtain ⟨_, _ | ⟨hclosing', hys⟩, condition, hcondition, h₁⟩ := ih₁ hxs
    obtain ⟨_, hzs, capture, hcapture, h₂⟩ := ih₂ hys
    obtain ⟨_, hws, body, hbody, h₃⟩ := ih₃ hzs
    exact ⟨_, hws, _, by simp [Node.map, hcondition, hcapture, hbody],
      .loop (hkeyword'.is hkeyword) (hopening'.isDelimiter hopening) h₁
        (hclosing'.isDelimiter hclosing) h₂ h₃⟩
  | evaluates hstarts _ hsemicolon ih =>
    obtain ⟨_, _ | ⟨hsemicolon', hys⟩, tree, htree, h⟩ := ih hxs
    exact ⟨_, hys, tree, htree,
      .evaluates (hstarts.of_alike hxs) h (hsemicolon'.isDelimiter hsemicolon)⟩
  | plainDeclaration hregister hequals _ ih =>
    obtain _ | ⟨hregister', _ | ⟨hequals', hxs⟩⟩ := hxs
    obtain ⟨_, hys, value, hvalue, h⟩ := ih hxs
    exact ⟨_, hys, _, by simp [Node.map, hvalue, hregister'.lexeme],
      .plainDeclaration (hregister'.kind.symm.trans hregister) (hequals'.is hequals) h⟩
  | typedDeclaration hregister htype hequals _ ih =>
    obtain _ | ⟨hregister', _ | ⟨htype', _ | ⟨hequals', hxs⟩⟩⟩ := hxs
    obtain ⟨_, hys, value, hvalue, h⟩ := ih hxs
    exact ⟨_, hys, _, by simp [Node.map, nameOf, hvalue, hregister'.lexeme, htype'.lexeme],
      .typedDeclaration (hregister'.kind.symm.trans hregister) (htype'.kind.symm.trans htype)
        (hequals'.is hequals) h⟩
  | statementDeclaration hregister htype hnext _ ih =>
    obtain _ | ⟨hregister', _ | ⟨htype', hxs⟩⟩ := hxs
    obtain ⟨_, hys, value, hvalue, h⟩ := ih hxs
    exact ⟨_, hys, _, by simp [Node.map, nameOf, hvalue, hregister'.lexeme, htype'.lexeme],
      .statementDeclaration (hregister'.kind.symm.trans hregister) (htype'.kind.symm.trans htype)
        (forall_head?_of_alike (fun t u htu ht hu => ht (htu.symm.is hu)) hxs hnext) h⟩
  | closedValue _ hsemicolon ih =>
    obtain ⟨_, _ | ⟨hsemicolon', hys⟩, value, hvalue, h⟩ := ih hxs
    exact ⟨_, hys, value, hvalue, .closedValue h (hsemicolon'.isDelimiter hsemicolon)⟩
  | openValue _ hnext ih =>
    obtain ⟨_, hys, value, hvalue, h⟩ := ih hxs
    exact ⟨_, hys, value, hvalue, .openValue h (forall_head?_of_alike happart hys hnext)⟩
  | block hopening _ hclosing ih =>
    obtain _ | ⟨hopening', hxs⟩ := hxs
    obtain ⟨_, _ | ⟨hclosing', hys⟩, trees, htrees, h⟩ := ih hxs
    exact ⟨_, hys, _, by simp [Node.map, htrees],
      .block (hopening'.isDelimiter hopening) h (hclosing'.isDelimiter hclosing)⟩
  | noParam => exact ⟨xs', hxs, [], rfl, .noParam⟩
  | someParams _ _ ih₁ ih₂ =>
    obtain ⟨_, hys, tree, htree, h₁⟩ := ih₁ hxs
    obtain ⟨_, hzs, trees, htrees, h₂⟩ := ih₂ hys
    exact ⟨_, hzs, tree :: trees, by simp [htree, htrees], .someParams h₁ h₂⟩
  | noFurtherParam => exact ⟨xs', hxs, [], rfl, .noFurtherParam⟩
  | furtherParam hcomma _ _ ih₁ ih₂ =>
    obtain _ | ⟨hcomma', hxs⟩ := hxs
    obtain ⟨_, hys, tree, htree, h₁⟩ := ih₁ hxs
    obtain ⟨_, hzs, trees, htrees, h₂⟩ := ih₂ hys
    exact ⟨_, hzs, tree :: trees, by simp [htree, htrees],
      .furtherParam (hcomma'.isDelimiter hcomma) h₁ h₂⟩
  | param hname _ ih =>
    obtain _ | ⟨hname', hxs⟩ := hxs
    obtain ⟨_, hys, typeName, htypeName, h⟩ := ih hxs
    exact ⟨_, hys, _, by simp [Node.map, htypeName, hname'.lexeme],
      .param (hname'.kind.symm.trans hname) h⟩
  | noType => exact ⟨xs', hxs, none, rfl, .noType⟩
  | someType hcolon hname =>
    obtain _ | ⟨hcolon', _ | ⟨hname', hys⟩⟩ := hxs
    exact ⟨_, hys, _, by simp [Node.map, nameOf, hname'.lexeme],
      .someType (hcolon'.isDelimiter hcolon) (hname'.kind.symm.trans hname)⟩
  | noCapture => exact ⟨xs', hxs, none, rfl, .noCapture⟩
  | someCapture hopening _ hclosing ih =>
    obtain _ | ⟨hopening', hxs⟩ := hxs
    obtain ⟨_, _ | ⟨hclosing', hys⟩, tree, htree, h⟩ := ih hxs
    exact ⟨_, hys, some tree, by simp [htree],
      .someCapture (hopening'.isDelimiter hopening) h (hclosing'.isDelimiter hclosing)⟩
  | value _ ih =>
    obtain ⟨_, hys, tree, htree, h⟩ := ih hxs
    exact ⟨_, hys, tree, htree, .value h⟩
  | assignment _ hop _ ih₁ ih₂ =>
    obtain ⟨_, _ | ⟨hop', hys⟩, left, hleft, h₁⟩ := ih₁ hxs
    obtain ⟨_, hzs, right, hright, h₂⟩ := ih₂ hys
    exact ⟨_, hzs, _, by simp [Node.map, hleft, hright, hop'.lexeme],
      .assignment h₁ (hop'.kind.symm.trans hop) h₂⟩
  | single _ ih =>
    obtain ⟨_, hys, tree, htree, h⟩ := ih hxs
    exact ⟨_, hys, tree, htree, .single h⟩
  | binary hop hrank hleast _ _ ih₁ ih₂ =>
    obtain ⟨_, _ | ⟨hop', hys⟩, left, hleft, h₁⟩ := ih₁ hxs
    obtain ⟨_, hzs, right, hright, h₂⟩ := ih₂ hys
    rw [hop'.lexeme] at hrank hleast h₁ h₂
    exact ⟨_, hzs, _, by simp [Node.map, hleft, hright, hop'.lexeme],
      .binary (hop'.kind.symm.trans hop) hrank hleast h₁ h₂⟩
  | plain _ ih =>
    obtain ⟨_, hys, tree, htree, h⟩ := ih hxs
    exact ⟨_, hys, tree, htree, .plain h⟩
  | unary hop _ ih =>
    obtain _ | ⟨hop', hxs⟩ := hxs
    obtain ⟨_, hys, tree, htree, h⟩ := ih hxs
    exact ⟨_, hys, _, by simp [Node.map, htree, hop'.lexeme], .unary (isUnary_of_alike hop' hop) h⟩
  | bare _ ih =>
    obtain ⟨_, hys, tree, htree, h⟩ := ih hxs
    exact ⟨_, hys, tree, htree, .bare h⟩
  | call _ hopening _ hclosing ih₁ ih₂ =>
    obtain ⟨_, _ | ⟨hopening', hys⟩, callee, hcallee, h₁⟩ := ih₁ hxs
    obtain ⟨_, _ | ⟨hclosing', hzs⟩, args, hargs, h₂⟩ := ih₂ hys
    exact ⟨_, hzs, _, by simp [Node.map, hcallee, hargs],
      .call h₁ (hopening'.isDelimiter hopening) h₂ (hclosing'.isDelimiter hclosing)⟩
  | member _ hdot hname ih =>
    obtain ⟨_, _ | ⟨hdot', _ | ⟨hname', hys⟩⟩, object, hobject, h⟩ := ih hxs
    exact ⟨_, hys, _, by simp [Node.map, nameOf, hobject, hname'.lexeme],
      .member h (hdot'.isDelimiter hdot) (hname'.kind.symm.trans hname)⟩
  | literal hkind =>
    obtain _ | ⟨htoken, hys⟩ := hxs
    exact ⟨_, hys, _, by simp [Node.map, htoken.lexeme], .literal (htoken.kind ▸ hkind)⟩
  | identifier hkind =>
    obtain _ | ⟨htoken, hys⟩ := hxs
    exact ⟨_, hys, _, by simp [Node.map, nameOf, htoken.lexeme],
      .identifier (htoken.kind.symm.trans hkind)⟩
  | register hkind =>
    obtain _ | ⟨htoken, hys⟩ := hxs
    exact ⟨_, hys, _, by simp [Node.map, htoken.lexeme], .register (htoken.kind.symm.trans hkind)⟩
  | parenthesized hopening _ hclosing ih =>
    obtain _ | ⟨hopening', hxs⟩ := hxs
    obtain ⟨_, _ | ⟨hclosing', hys⟩, tree, htree, h⟩ := ih hxs
    exact ⟨_, hys, tree, htree,
      .parenthesized (hopening'.isDelimiter hopening) h (hclosing'.isDelimiter hclosing)⟩
  | noArgument => exact ⟨xs', hxs, [], rfl, .noArgument⟩
  | someArguments _ _ ih₁ ih₂ =>
    obtain ⟨_, hys, tree, htree, h₁⟩ := ih₁ hxs
    obtain ⟨_, hzs, trees, htrees, h₂⟩ := ih₂ hys
    exact ⟨_, hzs, tree :: trees, by simp [htree, htrees], .someArguments h₁ h₂⟩
  | noFurtherArgument => exact ⟨xs', hxs, [], rfl, .noFurtherArgument⟩
  | trailingComma hcomma =>
    obtain _ | ⟨hcomma', hys⟩ := hxs
    exact ⟨_, hys, [], rfl, .trailingComma (hcomma'.isDelimiter hcomma)⟩
  | furtherArgument hcomma _ _ ih₁ ih₂ =>
    obtain _ | ⟨hcomma', hxs⟩ := hxs
    obtain ⟨_, hys, tree, htree, h₁⟩ := ih₁ hxs
    obtain ⟨_, hzs, trees, htrees, h₂⟩ := ih₂ hys
    exact ⟨_, hzs, tree :: trees, by simp [htree, htrees],
      .furtherArgument (hcomma'.isDelimiter hcomma) h₁ h₂⟩

end Grammar

end RegisterLang
