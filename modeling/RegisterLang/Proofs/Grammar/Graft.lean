import RegisterLang.Proofs.Grammar.Stop

/-!
# Other tokens behind a phrase

What follows a phrase may be exchanged: the tokens of the phrase still derive it. Only a declaration
without a semicolon also looks at the first token that follows it, and it does not end with a stop.
-/

namespace RegisterLang.Grammar

/-- The same tokens stand in front of `ys` in `xs` and in front of `ys'` in `xs'`. -/
def Grafted (xs ys xs' ys' : List Token) : Prop :=
  ∃ taken, xs = taken ++ ys ∧ xs' = taken ++ ys'

/-- If `ys` may follow a declaration without a semicolon, then `ys'` may as well. -/
def StaysApart (apart : Token → Prop) (ys ys' : List Token) : Prop :=
  (∀ next ∈ ys.head?, apart next) → ∀ next ∈ ys'.head?, apart next

namespace Grafted

variable {token : Token} {xs ys zs xs' ys' zs' : List Token}

/-- Nothing may stand in front. -/
theorem refl (ys ys' : List Token) : Grafted ys ys ys' ys' :=
  ⟨[], rfl, rfl⟩

/-- One more token may stand in front of both. -/
theorem cons (h : Grafted xs ys xs' ys') : Grafted (token :: xs) ys (token :: xs') ys' := by
  obtain ⟨taken, rfl, rfl⟩ := h
  exact ⟨token :: taken, rfl, rfl⟩

/-- What stands in front of what stands in front stands in front. -/
theorem trans (h : Grafted xs ys xs' ys') (h' : Grafted ys zs ys' zs') :
    Grafted xs zs xs' zs' := by
  obtain ⟨taken, rfl, rfl⟩ := h
  obtain ⟨taken', rfl, rfl⟩ := h'
  exact ⟨taken ++ taken', by rw [List.append_assoc], by rw [List.append_assoc]⟩

/-- A token in front of what follows belongs to what is taken as well. -/
theorem behind (h : Grafted xs (token :: ys) xs' (token :: ys')) : Grafted xs ys xs' ys' :=
  h.trans (cons (refl ys ys'))

/-- Either nothing is taken, or both lists start with the same token. -/
theorem eq_or_exists (h : Grafted xs ys xs' ys') :
    (xs = ys ∧ xs' = ys') ∨ ∃ first us us', xs = first :: us ∧ xs' = first :: us' ∧
      Grafted us ys us' ys' := by
  obtain ⟨taken, rfl, rfl⟩ := h
  cases taken with
  | nil => exact .inl ⟨rfl, rfl⟩
  | cons first taken => exact .inr ⟨first, _, _, rfl, rfl, taken, rfl, rfl⟩

/-- Behind the same tokens, what may follow in the one list may follow in the other. -/
theorem staysApart {apart : Token → Prop} (h : Grafted xs ys xs' ys')
    (hys : StaysApart apart ys ys') : StaysApart apart xs xs' := by
  rcases h.eq_or_exists with ⟨rfl, rfl⟩ | ⟨first, us, us', rfl, rfl, _⟩
  · exact hys
  · exact id

end Grafted

/-- The same first token follows in both lists. -/
theorem StaysApart.cons {apart : Token → Prop} (token : Token) (ys ys' : List Token) :
    StaysApart apart (token :: ys) (token :: ys') := id

/-- What is taken from `xs` in front of `ys` may stand in front of `ys'`: it ends with a stop, or
`ys'` may follow a declaration without a semicolon if `ys` may. -/
def Exchangeable (apart : Token → Prop) (xs ys ys' : List Token) : Prop :=
  Stopped xs ys ∨ StaysApart apart ys ys'

namespace Exchangeable

variable {apart : Token → Prop} {token : Token} {xs ys zs ys' zs' : List Token}

/-- What may be exchanged behind tokens may be exchanged behind the last of them. -/
theorem of_suffix (h : Exchangeable apart xs zs zs') (hsuffix : ys <:+ xs) :
    Exchangeable apart ys zs zs' :=
  h.imp_left fun hstopped => hstopped.of_suffix hsuffix

/-- What may be exchanged behind tokens may be exchanged behind all but the first of them. -/
theorem of_cons (h : Exchangeable apart (token :: xs) ys ys') : Exchangeable apart xs ys ys' :=
  h.of_suffix (List.suffix_cons token xs)

/-- Tokens that are taken behind a phrase may be exchanged together with what follows them. -/
theorem of_grafted (h : Exchangeable apart xs zs zs') (hgrafted : Grafted ys zs ys' zs') :
    Exchangeable apart xs ys ys' := by
  rcases hgrafted.eq_or_exists with ⟨rfl, rfl⟩ | ⟨first, us, us', rfl, rfl, _⟩
  · exact h
  · exact .inr (.cons first us us')

/-- Behind tokens that do not end with a stop, what follows has to stay apart. -/
theorem staysApart (h : Exchangeable apart xs ys ys') (hunstopped : Unstopped xs ys) :
    StaysApart apart ys ys' :=
  h.resolve_left hunstopped.not_stopped

end Exchangeable

/-- The start of an expression statement is not touched behind its second token. -/
theorem StartsExpressionStatement.congr {first second : Token} {xs xs' : List Token}
    (h : StartsExpressionStatement (first :: second :: xs)) :
    StartsExpressionStatement (first :: second :: xs') :=
  h

variable {α : Type} {mark : Token → α} {apart : Token → Prop}

/-- A phrase that is never empty takes its first token. -/
theorem Derives.exists_cons_of_grafted {n : Nat} {phrase : Phrase α} {xs ys xs' ys' : List Token}
    (h : Derives mark apart n phrase xs ys) (hne : phrase.nonempty)
    (hgrafted : Grafted xs ys xs' ys') :
    ∃ first us us', xs = first :: us ∧ xs' = first :: us' ∧ Grafted us ys us' ys' := by
  rcases hgrafted.eq_or_exists with ⟨rfl, rfl⟩ | hexists
  · have hlength := h.length_le
    rw [hne, Bool.toNat_true] at hlength
    omega
  · exact hexists

/-- A phrase is read in front of any other tokens that may be exchanged for those behind it. -/
theorem Derives.graft_of_exchangeable {n : Nat} {phrase : Phrase α} {xs ys ys' : List Token}
    (h : Derives mark apart n phrase xs ys) (hys : Exchangeable apart xs ys ys') :
    ∃ xs', Grafted xs ys xs' ys' ∧ Derives mark apart n phrase xs' ys' := by
  induction h generalizing ys' with
  | noStatement => exact ⟨ys', .refl _ _, .noStatement⟩
  | moreStatements hfirst _ ih₁ ih₂ =>
    obtain ⟨us, hus, h₂⟩ := ih₂ (hys.of_suffix hfirst.suffix)
    obtain ⟨xs', hxs', h₁⟩ := ih₁ (hys.of_grafted hus)
    exact ⟨xs', hxs'.trans hus, .moreStatements h₁ h₂⟩
  | declares _ ih =>
    obtain ⟨xs', hxs', h⟩ := ih hys
    exact ⟨xs', hxs', .declares h⟩
  | declaresConst hkeyword _ ih =>
    obtain ⟨xs', hxs', h⟩ := ih hys.of_cons
    exact ⟨_, hxs'.cons, .declaresConst hkeyword h⟩
  | returnsNothing hkeyword hsemicolon =>
    exact ⟨_, (Grafted.refl _ _).cons.cons, .returnsNothing hkeyword hsemicolon⟩
  | returnsValue hkeyword _ hsemicolon ih =>
    obtain ⟨xs', hxs', h⟩ := ih (.inr (.cons _ _ ys'))
    exact ⟨_, hxs'.behind.cons, .returnsValue hkeyword h hsemicolon⟩
  | imports hkeyword hopening hpath hclosing hsemicolon =>
    exact ⟨_, (Grafted.refl _ _).cons.cons.cons.cons.cons,
      .imports hkeyword hopening hpath hclosing hsemicolon⟩
  | function hkeyword hname hopening hparams hclosing htype _ ih₁ ih₂ ih₃ =>
    have htail := (hys.of_cons.of_cons.of_cons.of_suffix hparams.suffix).of_cons
    obtain ⟨zs', hzs, h₃⟩ := ih₃ (htail.of_suffix htype.suffix)
    obtain ⟨us, hus, h₂⟩ := ih₂ (htail.of_grafted hzs)
    obtain ⟨xs', hxs', h₁⟩ := ih₁ (.inr (.cons _ _ us))
    exact ⟨_, (hxs'.behind.trans (hus.trans hzs)).cons.cons.cons,
      .function hkeyword hname hopening h₁ hclosing h₂ h₃⟩
  | loop hkeyword hopening hcondition hclosing hcapture _ ih₁ ih₂ ih₃ =>
    have htail := (hys.of_cons.of_cons.of_suffix hcondition.suffix).of_cons
    obtain ⟨zs', hzs, h₃⟩ := ih₃ (htail.of_suffix hcapture.suffix)
    obtain ⟨us, hus, h₂⟩ := ih₂ (htail.of_grafted hzs)
    obtain ⟨xs', hxs', h₁⟩ := ih₁ (.inr (.cons _ _ us))
    exact ⟨_, (hxs'.behind.trans (hus.trans hzs)).cons.cons,
      .loop hkeyword hopening h₁ hclosing h₂ h₃⟩
  | @evaluates n tree semicolon xs ys hstarts hexpression hsemicolon ih =>
    obtain ⟨xs', hxs', h⟩ := ih (.inr (.cons _ _ ys'))
    refine ⟨xs', hxs'.behind, .evaluates ?_ h hsemicolon⟩
    -- The expression and its semicolon are the first two tokens at least.
    obtain ⟨first, us, us', rfl, rfl, hus⟩ := hexpression.exists_cons_of_grafted rfl hxs'
    rcases hus.eq_or_exists with ⟨rfl, rfl⟩ | ⟨second, vs, vs', rfl, rfl, _⟩
    · exact hstarts.congr
    · exact hstarts.congr
  | plainDeclaration hregister hequals _ ih =>
    obtain ⟨xs', hxs', h⟩ := ih hys.of_cons.of_cons
    exact ⟨_, hxs'.cons.cons, .plainDeclaration hregister hequals h⟩
  | typedDeclaration hregister htype hequals _ ih =>
    obtain ⟨xs', hxs', h⟩ := ih hys.of_cons.of_cons.of_cons
    exact ⟨_, hxs'.cons.cons.cons, .typedDeclaration hregister htype hequals h⟩
  | statementDeclaration hregister htype hnext hstatement ih =>
    obtain ⟨xs', hxs', h⟩ := ih hys.of_cons.of_cons
    refine ⟨_, hxs'.cons.cons, .statementDeclaration hregister htype ?_ h⟩
    obtain ⟨first, us, us', rfl, rfl, _⟩ := hstatement.exists_cons_of_grafted rfl hxs'
    exact hnext
  | closedValue _ hsemicolon ih =>
    obtain ⟨xs', hxs', h⟩ := ih (.inr (.cons _ _ ys'))
    exact ⟨xs', hxs'.behind, .closedValue h hsemicolon⟩
  | openValue hvalue hnext ih =>
    obtain ⟨xs', hxs', h⟩ := ih hys
    exact ⟨xs', hxs', .openValue h (hys.staysApart (hvalue.unstopped rfl) hnext)⟩
  | block hopening _ hclosing ih =>
    obtain ⟨xs', hxs', h⟩ := ih (.inr (.cons _ _ ys'))
    exact ⟨_, hxs'.behind.cons, .block hopening h hclosing⟩
  | noParam => exact ⟨ys', .refl _ _, .noParam⟩
  | someParams hparam _ ih₁ ih₂ =>
    obtain ⟨us, hus, h₂⟩ := ih₂ (hys.of_suffix hparam.suffix)
    obtain ⟨xs', hxs', h₁⟩ := ih₁ (hys.of_grafted hus)
    exact ⟨xs', hxs'.trans hus, .someParams h₁ h₂⟩
  | noFurtherParam => exact ⟨ys', .refl _ _, .noFurtherParam⟩
  | furtherParam hcomma hparam _ ih₁ ih₂ =>
    obtain ⟨us, hus, h₂⟩ := ih₂ (hys.of_cons.of_suffix hparam.suffix)
    obtain ⟨xs', hxs', h₁⟩ := ih₁ (hys.of_cons.of_grafted hus)
    exact ⟨_, (hxs'.trans hus).cons, .furtherParam hcomma h₁ h₂⟩
  | param hname _ ih =>
    obtain ⟨xs', hxs', h⟩ := ih hys.of_cons
    exact ⟨_, hxs'.cons, .param hname h⟩
  | noType => exact ⟨ys', .refl _ _, .noType⟩
  | someType hcolon hname => exact ⟨_, (Grafted.refl _ _).cons.cons, .someType hcolon hname⟩
  | noCapture => exact ⟨ys', .refl _ _, .noCapture⟩
  | someCapture hopening _ hclosing ih =>
    obtain ⟨xs', hxs', h⟩ := ih (.inr (.cons _ _ ys'))
    exact ⟨_, hxs'.behind.cons, .someCapture hopening h hclosing⟩
  | value _ ih =>
    obtain ⟨xs', hxs', h⟩ := ih hys
    exact ⟨xs', hxs', .value h⟩
  | assignment hleft hop _ ih₁ ih₂ =>
    obtain ⟨us, hus, h₂⟩ := ih₂ (hys.of_suffix hleft.suffix).of_cons
    obtain ⟨xs', hxs', h₁⟩ := ih₁ (.inr (.cons _ _ us))
    exact ⟨xs', hxs'.behind.trans hus, .assignment h₁ hop h₂⟩
  | single _ ih =>
    obtain ⟨xs', hxs', h⟩ := ih hys
    exact ⟨xs', hxs', .single h⟩
  | binary hop hrank hleast hleft _ ih₁ ih₂ =>
    obtain ⟨us, hus, h₂⟩ := ih₂ (hys.of_suffix hleft.suffix).of_cons
    obtain ⟨xs', hxs', h₁⟩ := ih₁ (.inr (.cons _ _ us))
    exact ⟨xs', hxs'.behind.trans hus, .binary hop hrank hleast h₁ h₂⟩
  | plain _ ih =>
    obtain ⟨xs', hxs', h⟩ := ih hys
    exact ⟨xs', hxs', .plain h⟩
  | unary hop _ ih =>
    obtain ⟨xs', hxs', h⟩ := ih hys.of_cons
    exact ⟨_, hxs'.cons, .unary hop h⟩
  | bare _ ih =>
    obtain ⟨xs', hxs', h⟩ := ih hys
    exact ⟨xs', hxs', .bare h⟩
  | call _ hopening _ hclosing ih₁ ih₂ =>
    obtain ⟨us, hus, h₂⟩ := ih₂ (.inr (.cons _ _ ys'))
    obtain ⟨xs', hxs', h₁⟩ := ih₁ (.inr (.cons _ _ us))
    exact ⟨xs', hxs'.behind.trans hus.behind, .call h₁ hopening h₂ hclosing⟩
  | member _ hdot hname ih =>
    obtain ⟨xs', hxs', h⟩ := ih (.inr (.cons _ _ (_ :: ys')))
    exact ⟨xs', hxs'.behind.behind, .member h hdot hname⟩
  | literal hkind => exact ⟨_, (Grafted.refl _ _).cons, .literal hkind⟩
  | identifier hkind => exact ⟨_, (Grafted.refl _ _).cons, .identifier hkind⟩
  | register hkind => exact ⟨_, (Grafted.refl _ _).cons, .register hkind⟩
  | parenthesized hopening _ hclosing ih =>
    obtain ⟨xs', hxs', h⟩ := ih (.inr (.cons _ _ ys'))
    exact ⟨_, hxs'.behind.cons, .parenthesized hopening h hclosing⟩
  | noArgument => exact ⟨ys', .refl _ _, .noArgument⟩
  | someArguments hargument _ ih₁ ih₂ =>
    obtain ⟨us, hus, h₂⟩ := ih₂ (hys.of_suffix hargument.suffix)
    obtain ⟨xs', hxs', h₁⟩ := ih₁ (hys.of_grafted hus)
    exact ⟨xs', hxs'.trans hus, .someArguments h₁ h₂⟩
  | noFurtherArgument => exact ⟨ys', .refl _ _, .noFurtherArgument⟩
  | trailingComma hcomma => exact ⟨_, (Grafted.refl _ _).cons, .trailingComma hcomma⟩
  | furtherArgument hcomma hargument _ ih₁ ih₂ =>
    obtain ⟨us, hus, h₂⟩ := ih₂ (hys.of_cons.of_suffix hargument.suffix)
    obtain ⟨xs', hxs', h₁⟩ := ih₁ (hys.of_cons.of_grafted hus)
    exact ⟨_, (hxs'.trans hus).cons, .furtherArgument hcomma h₁ h₂⟩

/-- A phrase is read in front of any other tokens, as long as these may follow a declaration if the
first ones may. -/
theorem Derives.graft {n : Nat} {phrase : Phrase α} {xs ys ys' : List Token}
    (h : Derives mark apart n phrase xs ys) (hapart : StaysApart apart ys ys') :
    ∃ xs', Grafted xs ys xs' ys' ∧ Derives mark apart n phrase xs' ys' :=
  h.graft_of_exchangeable (.inr hapart)

/-- An expression, or a part of one, is read in front of any other tokens. -/
theorem Derives.graft_of_isExpression {n : Nat} {phrase : Phrase α} {xs ys : List Token}
    (h : Derives mark apart n phrase xs ys) (hexpression : phrase.isExpression)
    (ys' : List Token) :
    ∃ xs', Grafted xs ys xs' ys' ∧ Derives mark apart n phrase xs' ys' := by
  induction h generalizing ys' with
  | value _ ih =>
    obtain ⟨xs', hxs', h⟩ := ih rfl ys'
    exact ⟨xs', hxs', .value h⟩
  | assignment _ hop _ ih₁ ih₂ =>
    obtain ⟨us, hus, h₂⟩ := ih₂ rfl ys'
    obtain ⟨xs', hxs', h₁⟩ := ih₁ rfl (_ :: us)
    exact ⟨xs', hxs'.behind.trans hus, .assignment h₁ hop h₂⟩
  | single _ ih =>
    obtain ⟨xs', hxs', h⟩ := ih rfl ys'
    exact ⟨xs', hxs', .single h⟩
  | binary hop hrank hleast _ _ ih₁ ih₂ =>
    obtain ⟨us, hus, h₂⟩ := ih₂ rfl ys'
    obtain ⟨xs', hxs', h₁⟩ := ih₁ rfl (_ :: us)
    exact ⟨xs', hxs'.behind.trans hus, .binary hop hrank hleast h₁ h₂⟩
  | plain _ ih =>
    obtain ⟨xs', hxs', h⟩ := ih rfl ys'
    exact ⟨xs', hxs', .plain h⟩
  | unary hop _ ih =>
    obtain ⟨xs', hxs', h⟩ := ih rfl ys'
    exact ⟨_, hxs'.cons, .unary hop h⟩
  | bare _ ih =>
    obtain ⟨xs', hxs', h⟩ := ih rfl ys'
    exact ⟨xs', hxs', .bare h⟩
  | call _ hopening harguments hclosing ih =>
    -- The arguments are no expression, but their closing parenthesis stays.
    obtain ⟨us, hus, h₂⟩ := harguments.graft (.cons _ _ ys')
    obtain ⟨xs', hxs', h₁⟩ := ih rfl (_ :: us)
    exact ⟨xs', hxs'.behind.trans hus.behind, .call h₁ hopening h₂ hclosing⟩
  | member _ hdot hname ih =>
    obtain ⟨xs', hxs', h⟩ := ih rfl (_ :: _ :: ys')
    exact ⟨xs', hxs'.behind.behind, .member h hdot hname⟩
  | literal hkind => exact ⟨_, (Grafted.refl _ _).cons, .literal hkind⟩
  | identifier hkind => exact ⟨_, (Grafted.refl _ _).cons, .identifier hkind⟩
  | register hkind => exact ⟨_, (Grafted.refl _ _).cons, .register hkind⟩
  | parenthesized hopening _ hclosing ih =>
    obtain ⟨xs', hxs', h⟩ := ih rfl (_ :: ys')
    exact ⟨_, hxs'.behind.cons, .parenthesized hopening h hclosing⟩
  | _ => cases hexpression

end RegisterLang.Grammar
