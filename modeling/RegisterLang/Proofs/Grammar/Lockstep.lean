import RegisterLang.Proofs.Grammar.Pace
import RegisterLang.Proofs.Grammar.Rounds

/-!
# The grammar keeps pace

Every step of the grammar keeps pace with itself, if what opens a level of nesting does. Trees are
compared by their forms and by what is seen of their places. `keepsPace_produceWithin` closes the
levels, for two limits of which the first one may be lower.
-/

namespace RegisterLang.Grammar

open Parse Comparison

section

variable {κ : Type} {c : Comparison κ}

/-- Nodes of a token look the same when the token does. -/
theorem keepsPace_identifier {x y : Token} (h : c.seen x = c.seen y) :
    KeepsPace c c.tree (identifier x) (identifier y) :=
  .pure (by simp [tree, Node.map, lexeme_eq h, view_eq h])

/-- Repetitions that keep pace in every room do so in the room that the cursor leaves them. -/
theorem keepsPace_room {α β γ : Type} {loop loop' : List Token → α → Parse β} {view : β → γ}
    {a a' : α} (hloop : ∀ room, KeepsPace c view (loop room a) (loop' room a'))
    (hany : RunsInAnyRoom loop) (hany' : RunsInAnyRoom loop') :
    KeepsPace c view (room >>= fun room => loop room a) (room >>= fun room => loop' room a') where
  left s := (hloop s.rest).left s
  right t := (hloop t.rest).right t
  matched := by
    intro horizon s t hst hbelow
    have hleft := s.length_pending_le
    have hright := t.length_pending_le
    -- The two cursors leave different room; both loops also run in one that is large enough.
    have hrun : loop s.rest a s = loop (s.rest ++ t.rest) a s :=
      hany _ _ a s hleft (by rw [List.length_append]; omega)
    have hrun' : loop' t.rest a' t = loop' (s.rest ++ t.rest) a' t :=
      hany' _ _ a' t hright (by rw [List.length_append]; omega)
    rw [room_bind_run] at hbelow ⊢
    rw [room_bind_run, hrun']
    rw [hrun] at hbelow ⊢
    exact (hloop (s.rest ++ t.rest)).matched horizon s t hst hbelow

/-- Repetitions in the room that the cursor leaves them, and what follows them. -/
theorem keepsPace_room_bind {α β γ δ ε : Type} {loop loop' : List Token → α → Parse β}
    {view : β → γ} {view' : δ → ε} {further further' : β → Parse δ} (a a' : α)
    (hloop : ∀ room, KeepsPace c view (loop room a) (loop' room a'))
    (hany : RunsInAnyRoom loop) (hany' : RunsInAnyRoom loop')
    (hfurther : ∀ b b', view b = view b' → KeepsPace c view' (further b) (further' b')) :
    KeepsPace c view' (room >>= fun room => loop room a >>= further)
      (room >>= fun room => loop' room a' >>= further') :=
  (keepsPace_room hloop hany hany').bind hfurther

/-! ### Parts that open no level -/

/-- Members of objects that look the same look the same. -/
theorem keepsPace_member {x y : Tree} (h : c.tree x = c.tree y) :
    KeepsPace c c.tree (member x) (member y) := by
  refine KeepsPace.advance.discard.bind fun _ _ _ => ?_
  refine KeepsPace.consume.bind fun name name' hname => ?_
  refine (keepsPace_identifier hname).bind fun property property' hproperty => .pure ?_
  simp only [tree] at h hproperty
  simp [tree, Node.map, tag_eq h, h, hproperty]

/-- An optional type is there in both texts or in neither. -/
theorem keepsPace_typeAfterColon {what : String} :
    KeepsPace c (Option.map c.tree) (typeAfterColon what) (typeAfterColon what) := by
  refine KeepsPace.matchDelimiter.bind ?_
  rintro found _ rfl
  cases found with
  | true =>
    refine KeepsPace.consume.bind fun x y h => ?_
    exact (keepsPace_identifier h).bind fun _ _ hname => .pure (congrArg some hname)
  | false => exact .pure rfl

/-- Parameters are read alike: their names have the same text, and their types look the same. -/
theorem keepsPace_param : KeepsPace c c.tree param param := by
  refine KeepsPace.consume.bind fun name name' hname => ?_
  refine keepsPace_typeAfterColon.bind fun typeName typeName' htype => .pure ?_
  have htype' : typeName.map (Node.map c.view) = typeName'.map (Node.map c.view) := htype
  simp [tree, Node.map, lexeme_eq hname, view_eq hname, htype']

/-- There are as many parameters in both texts, and each looks like its counterpart. -/
theorem keepsPace_furtherParams (room : List Token) :
    KeepsPace c (List.map c.tree) (furtherParams room) (furtherParams room) := by
  induction room with
  | nil => exact .pure rfl
  | cons _ room ih =>
    refine KeepsPace.matchDelimiter.bind ?_
    rintro found _ rfl
    cases found with
    | true =>
      refine keepsPace_param.bind fun first first' hfirst => ih.bind fun others others' h => ?_
      exact .pure (by rw [List.map_cons, List.map_cons, hfirst, h])
    | false => exact .pure rfl

/-- Parameters look the same when the tokens do that they are placed at. -/
theorem keepsPace_paramsBehind {x y : Token} (h : c.seen x = c.seen y) :
    KeepsPace c c.tree (paramsBehind x) (paramsBehind y) := by
  have hparams {list list' : List Tree} (hlist : list.map c.tree = list'.map c.tree) :
      c.tree (.params x.location list) = c.tree (.params y.location list') := by
    have hlist' : list.map (Node.map c.view) = list'.map (Node.map c.view) := hlist
    simp [tree, Node.map, view_eq h, hlist']
  refine KeepsPace.checkDelimiter.bind ?_
  rintro found _ rfl
  cases found with
  | true => exact KeepsPace.consumeDelimiter.discard.bind fun _ _ _ => .pure (hparams rfl)
  | false =>
    refine keepsPace_param.bind fun first first' hfirst => ?_
    refine keepsPace_room_bind () () keepsPace_furtherParams
      runsInAnyRoom_furtherParams runsInAnyRoom_furtherParams fun others others' hothers => ?_
    refine KeepsPace.consumeDelimiter.discard.bind fun _ _ _ => .pure (hparams ?_)
    rw [List.map_cons, List.map_cons, hfirst, hothers]

/-- The parameters carry the place of the token in front of them. -/
theorem keepsPace_params : KeepsPace c c.tree params params := by
  have hprevious : KeepsPace c c.seen (do return (← get).previous) (do return (← get).previous) :=
    .look fun _ _ _ hst hbelow => hst.previous (by omega)
  exact hprevious.bind fun _ _ => keepsPace_paramsBehind

/-- Imports are read alike: which path stands there, and what it is, are both seen. -/
theorem keepsPace_importUnit : KeepsPace c c.tree importUnit importUnit := by
  refine KeepsPace.consumeDelimiter.discard.bind fun _ _ _ => ?_
  refine KeepsPace.next.bind fun path path' hpath => ?_
  have himport : c.tree (.importUnit path.location path.lexeme) =
      c.tree (.importUnit path'.location path'.lexeme) := by
    simp [tree, Node.map, view_eq hpath, lexeme_eq hpath]
  rw [kind_eq hpath]
  split
  · refine (KeepsPace.fail : KeepsPace c (id : PUnit → PUnit) _ _).bind fun _ _ _ => ?_
    refine KeepsPace.advance.discard.bind fun _ _ _ => ?_
    refine KeepsPace.consumeDelimiter.discard.bind fun _ _ _ => ?_
    exact KeepsPace.consumeDelimiter.discard.bind fun _ _ _ => .pure himport
  · refine KeepsPace.advance.discard.bind fun _ _ _ => ?_
    refine KeepsPace.consumeDelimiter.discard.bind fun _ _ _ => ?_
    exact KeepsPace.consumeDelimiter.discard.bind fun _ _ _ => .pure himport

end

/-! ### Expressions -/

section

variable {κ : Type} {c : Comparison κ} {n n' : Nat} {inner inner' : Production → Parse Tree}
  (hinner : ∀ production, KeepsPace c c.tree (inner production) (inner' production))
include hinner

/-- What an expression starts with is chosen by the kind and the text of a token, which both texts
have in common. -/
theorem keepsPace_primary : KeepsPace c c.tree (primary inner) (primary inner') := by
  refine KeepsPace.next.bind fun x y h => ?_
  have hdelimiter : x.isDelimiter "(" = y.isDelimiter "(" := (seen_eq_iff.mp h).1.isDelimiter_eq "("
  rw [kind_eq h, hdelimiter]
  cases literalKind? y.kind with
  | some kind =>
    refine KeepsPace.advance.discard.bind fun _ _ _ => .pure ?_
    simp [tree, Node.map, view_eq h, lexeme_eq h]
  | none =>
    simp only
    split
    · refine KeepsPace.advance.discard.bind fun _ _ _ => .pure ?_
      simp [tree, Node.map, view_eq h, lexeme_eq h]
    · split
      · refine KeepsPace.advance.discard.bind fun _ _ _ => .pure ?_
        simp [tree, Node.map, view_eq h, lexeme_eq h]
      · split
        · refine KeepsPace.advance.discard.bind fun _ _ _ => ?_
          refine (hinner .expression).bind fun content content' hcontent => ?_
          exact KeepsPace.consumeDelimiter.discard.bind fun _ _ _ => .pure hcontent
        · exact .fail

/-- There are as many arguments in both texts. A comma that is left over at the end is so in
both. -/
theorem keepsPace_furtherArguments (room : List Token) :
    KeepsPace c (List.map c.tree) (furtherArguments inner room) (furtherArguments inner' room) := by
  induction room with
  | nil => exact .pure rfl
  | cons _ room ih =>
    refine KeepsPace.matchDelimiter.bind ?_
    rintro found _ rfl
    cases found with
    | false => exact .pure rfl
    | true =>
      refine KeepsPace.checkDelimiter.bind ?_
      rintro closes _ rfl
      cases closes with
      | true => exact .pure rfl
      | false =>
        refine (hinner .expression).bind fun argument argument' hargument => ?_
        refine ih.bind fun others others' hothers => .pure ?_
        rw [List.map_cons, List.map_cons, hargument, hothers]

/-- Calls of callees that look the same look the same. -/
theorem keepsPace_call (hsound : Sound n inner) (hsound' : Sound n' inner') {x y : Tree}
    (h : c.tree x = c.tree y) : KeepsPace c c.tree (call inner x) (call inner' y) := by
  have hcall {args args' : List Tree} (hargs : args.map c.tree = args'.map c.tree) :
      c.tree (.call x.tag x args) = c.tree (.call y.tag y args') := by
    have hargs' : args.map (Node.map c.view) = args'.map (Node.map c.view) := hargs
    have htag := tag_eq h
    simp only [tree] at h
    simp [tree, Node.map, htag, h, hargs']
  refine KeepsPace.advance.discard.bind fun _ _ _ => ?_
  refine KeepsPace.checkDelimiter.bind ?_
  rintro found _ rfl
  cases found with
  | true => exact KeepsPace.consumeDelimiter.discard.bind fun _ _ _ => .pure (hcall rfl)
  | false =>
    refine (hinner .expression).bind fun argument argument' hargument => ?_
    refine keepsPace_room_bind () () (keepsPace_furtherArguments hinner)
      (runsInAnyRoom_furtherArguments hsound) (runsInAnyRoom_furtherArguments hsound')
      fun others others' hothers => ?_
    refine KeepsPace.consumeDelimiter.discard.bind fun _ _ _ => .pure (hcall ?_)
    rw [List.map_cons, List.map_cons, hargument, hothers]

/-- Behind trees that look the same there are the same calls and members. -/
theorem keepsPace_suffixes (hsound : Sound n inner) (hsound' : Sound n' inner') (room : List Token)
    {x y : Tree} (h : c.tree x = c.tree y) :
    KeepsPace c c.tree (suffixes inner room x) (suffixes inner' room y) := by
  induction room generalizing x y with
  | nil => exact .pure h
  | cons _ room ih =>
    refine KeepsPace.checkDelimiter.bind ?_
    rintro opens _ rfl
    cases opens with
    | true => exact (keepsPace_call hinner hsound hsound' h).bind fun _ _ => ih
    | false =>
      refine KeepsPace.checkDelimiter.bind ?_
      rintro dot _ rfl
      cases dot with
      | true => exact (keepsPace_member h).bind fun _ _ => ih
      | false => exact .pure h

/-- Expressions with their calls and members are read alike. -/
theorem keepsPace_suffixed (hsound : Sound n inner) (hsound' : Sound n' inner') :
    KeepsPace c c.tree (suffixed inner) (suffixed inner') := by
  refine (keepsPace_primary hinner).bind fun x y h => ?_
  exact keepsPace_room (fun room => keepsPace_suffixes hinner hsound hsound' room h)
    (runsInAnyRoom_suffixes hsound) (runsInAnyRoom_suffixes hsound')

/-- Expressions with a sign are read alike, and the sign is the same. -/
theorem keepsPace_unary (hsound : Sound n inner) (hsound' : Sound n' inner') :
    KeepsPace c c.tree (unary inner) (unary inner') := by
  refine KeepsPace.next.bind fun x y h => ?_
  have hunary : isUnary x = isUnary y := by
    rw [isUnary, isUnary, kind_eq h, lexeme_eq h]
  rw [hunary]
  split
  · refine KeepsPace.advance.discard.bind fun _ _ _ => ?_
    refine (hinner .operand).bind fun operand operand' hoperand => .pure ?_
    simp only [tree] at hoperand
    simp [tree, Node.map, view_eq h, lexeme_eq h, hoperand]
  · exact keepsPace_suffixed hinner hsound hsound'

omit hinner in
/-- Behind left operands that look the same, the same operators are taken, if right operands are
read alike on higher levels of precedence. -/
theorem keepsPace_climb {right right' : Nat → Parse Tree} {least : Nat}
    (hright : ∀ m, least < m → KeepsPace c c.tree (right m) (right' m)) (room : List Token)
    {x y : Tree} (h : c.tree x = c.tree y) :
    KeepsPace c c.tree (climb right least room x) (climb right' least room y) := by
  induction room generalizing x y with
  | nil => exact .pure h
  | cons _ room ih =>
    refine KeepsPace.next.bind fun op op' hop => ?_
    rw [kind_eq hop, lexeme_eq hop]
    split
    · next hbinds =>
      refine KeepsPace.advance.discard.bind fun _ _ _ => ?_
      refine (hright _ (by omega)).bind fun operand operand' hoperand => ih ?_
      have htag := tag_eq h
      simp only [tree] at h hoperand
      simp [tree, Node.map, htag, h, hoperand]
    · exact .pure h

/-- Expressions between operators are read alike, in as many levels as there are ranks left. -/
theorem keepsPace_binaryWithin (hsound : Sound n inner) (hsound' : Sound n' inner')
    {levels least : Nat} (hlevels : topRank ≤ levels + least) :
    KeepsPace c c.tree (binaryWithin inner levels least) (binaryWithin inner' levels least) := by
  induction levels generalizing least with
  | zero => exact keepsPace_unary hinner hsound hsound'
  | succ levels ih =>
    refine (keepsPace_unary hinner hsound hsound').bind fun x y h => ?_
    refine keepsPace_room (fun room => keepsPace_climb (fun m hm => ih (by omega)) room h)
      (runsInAnyRoom_climb fun m hm s tree s' hrun => ?_)
      (runsInAnyRoom_climb fun m hm s tree s' hrun => ?_)
    · have hlength := (reads_of_binaryWithin hsound (by omega) hrun).1.length_le
      omega
    · have hlength := (reads_of_binaryWithin hsound' (by omega) hrun).1.length_le
      omega

/-- Assignments are read alike, with the same operator or none. -/
theorem keepsPace_assignment (hsound : Sound n inner) (hsound' : Sound n' inner') :
    KeepsPace c c.tree (assignment inner) (assignment inner') := by
  refine (keepsPace_binaryWithin hinner hsound hsound' (Nat.le_refl _)).bind fun x y h => ?_
  refine KeepsPace.check.bind ?_
  rintro assigns _ rfl
  cases assigns with
  | true =>
    refine KeepsPace.advance.bind fun op op' hop => ?_
    refine (hinner .expression).bind fun right right' hright => .pure ?_
    have htag := tag_eq h
    simp only [tree] at h hright
    simp [tree, Node.map, htag, lexeme_eq hop, h, hright]
  | false => exact .pure h

/-! ### Statements -/

/-- Statements are read alike, once what is inside is: the tokens at which they are entered look the
same. -/
theorem keepsPace_statement : KeepsPace c c.tree (statement inner) (statement inner') where
  left s := by
    have hreaches := (hinner .statement).left { s with entered := s.next :: s.entered }
    exact ⟨hreaches.tokens, hreaches.index_le, hreaches.passed⟩
  right t := by
    have hreaches := (hinner .statement).right { t with entered := t.next :: t.entered }
    exact ⟨hreaches.tokens, hreaches.index_le, hreaches.passed⟩
  matched := by
    intro horizon s t hst hbelow
    have hindex : s.index ≤ (final (statement inner s)).index :=
      ((hinner .statement).left { s with entered := s.next :: s.entered }).index_le
    refine (hinner .statement).matched horizon _ _ ?_ hbelow
    exact ⟨hst.depth, hst.passed,
      by rw [List.map_cons, List.map_cons, hst.entered, hst.next (by omega)], hst.ahead⟩

/-- There are as many statements in both texts, if the end is seen from kinds and texts of
tokens. -/
theorem keepsPace_statementsUntil {isEnd : Token → Bool}
    (hend : ∀ x y : Token, x.Alike y → isEnd x = isEnd y) (room : List Token) :
    KeepsPace c (List.map c.tree) (statementsUntil inner isEnd room)
      (statementsUntil inner' isEnd room) := by
  induction room with
  | nil => exact .pure rfl
  | cons _ room ih =>
    refine KeepsPace.next.bind fun x y h => ?_
    rw [hend x y (seen_eq_iff.mp h).1]
    split
    · exact .pure rfl
    · refine (keepsPace_statement hinner).bind fun first first' hfirst => ?_
      refine ih.bind fun others others' hothers => .pure ?_
      rw [List.map_cons, List.map_cons, hfirst, hothers]

/-- Expressions with their semicolons are read alike. -/
theorem keepsPace_expressionStatement :
    KeepsPace c c.tree (expressionStatement inner) (expressionStatement inner') := by
  refine (hinner .expression).bind fun x y h => ?_
  exact KeepsPace.consumeDelimiter.discard.bind fun _ _ _ => .pure h

/-- Values of declarations are read alike. -/
theorem keepsPace_initialValue :
    KeepsPace c c.tree (initialValue inner) (initialValue inner') := by
  refine (hinner .expression).bind fun x y h => ?_
  exact KeepsPace.matchDelimiter.discard.bind fun _ _ _ => .pure h

/-- Declarations are read alike: with a type or without one, with a value or with a statement in its
place. -/
theorem keepsPace_declaration (isConst : Bool) :
    KeepsPace c c.tree (declaration inner isConst) (declaration inner' isConst) := by
  refine KeepsPace.consume.bind fun register register' hregister => ?_
  rw [lexeme_eq hregister]
  have hdeclaration {typeName typeName' : Option Tree}
      (htype : typeName.map (Node.map c.view) = typeName'.map (Node.map c.view))
      {value value' : Tree} (hvalue : c.tree value = c.tree value') :
      c.tree (.declaration register.location register'.lexeme isConst typeName value) =
        c.tree (.declaration register'.location register'.lexeme isConst typeName' value') := by
    simp only [tree] at hvalue
    simp [tree, Node.map, view_eq hregister, htype, hvalue]
  refine KeepsPace.check.bind ?_
  rintro typed _ rfl
  cases typed with
  | true =>
    refine KeepsPace.advance.bind fun x y h => ?_
    refine (keepsPace_identifier h).bind fun typeName typeName' hname => ?_
    have htype : (some typeName).map (Node.map c.view) = (some typeName').map (Node.map c.view) :=
      congrArg some hname
    refine KeepsPace.checkIs.bind ?_
    rintro equals _ rfl
    cases equals with
    | true =>
      refine KeepsPace.advance.discard.bind fun _ _ _ => ?_
      exact (keepsPace_initialValue hinner).bind fun _ _ h => .pure (hdeclaration htype h)
    | false => exact (keepsPace_statement hinner).bind fun _ _ h => .pure (hdeclaration htype h)
  | false =>
    refine KeepsPace.consumeIs.discard.bind fun _ _ _ => ?_
    exact (keepsPace_initialValue hinner).bind fun _ _ h => .pure (hdeclaration rfl h)

/-- Returns are read alike: with a value or without one. -/
theorem keepsPace_returning : KeepsPace c c.tree (returning inner) (returning inner') := by
  refine KeepsPace.advance.bind fun keyword keyword' hkeyword => ?_
  have hreturning {value value' : Option Tree} (hvalue : value.map c.tree = value'.map c.tree) :
      c.tree (.returning keyword.location value) =
        c.tree (.returning keyword'.location value') := by
    have hvalue' : value.map (Node.map c.view) = value'.map (Node.map c.view) := hvalue
    simp [tree, Node.map, view_eq hkeyword, hvalue']
  refine KeepsPace.checkDelimiter.bind ?_
  rintro closes _ rfl
  cases closes with
  | true => exact KeepsPace.consumeDelimiter.discard.bind fun _ _ _ => .pure (hreturning rfl)
  | false =>
    have hsome : ∀ x y, c.tree x = c.tree y → (some x).map c.tree = (some y).map c.tree :=
      fun _ _ => congrArg some
    refine ((hinner .expression).map hsome).bind fun value value' hvalue => ?_
    exact KeepsPace.consumeDelimiter.discard.bind fun _ _ _ => .pure (hreturning hvalue)

/-- Blocks are read alike. Their ends are the same closing brace, or the same end of the text. -/
theorem keepsPace_block (hsound : Sound n inner) (hsound' : Sound n' inner') :
    KeepsPace c c.tree (block inner) (block inner') := by
  refine KeepsPace.consumeDelimiter.bind fun brace brace' hbrace => ?_
  have hend (x y : Token) (h : x.Alike y) :
      (x.kind == .endOfInput || x.isDelimiter closingBrace) =
        (y.kind == .endOfInput || y.isDelimiter closingBrace) := by
    rw [h.kind, h.isDelimiter_eq]
  have hstop (token : Token) (hkind : token.kind = .endOfInput) :
      (token.kind == .endOfInput || token.isDelimiter closingBrace) = true := by
    simp [hkind]
  refine keepsPace_room_bind () () (keepsPace_statementsUntil hinner hend)
    (runsInAnyRoom_statementsUntil hsound hstop) (runsInAnyRoom_statementsUntil hsound' hstop)
    fun trees trees' htrees => ?_
  refine KeepsPace.consumeDelimiter.discard.bind fun _ _ _ => .pure ?_
  have htrees' : trees.map (Node.map c.view) = trees'.map (Node.map c.view) := htrees
  simp [tree, Node.map, view_eq hbrace, htrees']

/-! ### Directives -/

/-- Functions are read alike, with their types and blocks. -/
theorem keepsPace_function (hsound : Sound n inner) (hsound' : Sound n' inner') :
    KeepsPace c c.tree (function inner) (function inner') := by
  refine KeepsPace.consume.bind fun name name' hname => ?_
  refine KeepsPace.consumeDelimiter.discard.bind fun _ _ _ => ?_
  refine keepsPace_params.bind fun list list' hlist => ?_
  refine keepsPace_typeAfterColon.bind fun returnType returnType' htype => ?_
  refine (keepsPace_block hinner hsound hsound').bind fun body body' hbody => .pure ?_
  have htype' : returnType.map (Node.map c.view) = returnType'.map (Node.map c.view) := htype
  simp only [tree] at hlist hbody
  simp [tree, Node.map, view_eq hname, lexeme_eq hname, hlist, htype', hbody]

/-- Loops are read alike from keywords that look the same, with their captures and blocks. -/
theorem keepsPace_whileLoop (hsound : Sound n inner) (hsound' : Sound n' inner') {x y : Token}
    (h : c.seen x = c.seen y) : KeepsPace c c.tree (whileLoop inner x) (whileLoop inner' y) := by
  refine KeepsPace.consumeDelimiter.discard.bind fun _ _ _ => ?_
  refine (hinner .expression).bind fun condition condition' hcondition => ?_
  refine KeepsPace.consumeDelimiter.discard.bind fun _ _ _ => ?_
  have hloop {capture capture' : Option Tree} {body body' : Tree}
      (hcapture : capture.map c.tree = capture'.map c.tree) (hbody : c.tree body = c.tree body') :
      c.tree (.whileLoop x.location condition capture body) =
        c.tree (.whileLoop y.location condition' capture' body') := by
    have hcapture' : capture.map (Node.map c.view) = capture'.map (Node.map c.view) := hcapture
    simp only [tree] at hcondition hbody
    simp [tree, Node.map, view_eq h, hcondition, hcapture', hbody]
  have hblock := keepsPace_block hinner hsound hsound'
  refine KeepsPace.matchDelimiter.bind ?_
  rintro bar _ rfl
  cases bar with
  | true =>
    refine (keepsPace_primary hinner).bind fun capture capture' hcapture => ?_
    refine KeepsPace.consumeDelimiter.discard.bind fun _ _ _ => ?_
    exact hblock.bind fun _ _ hbody => .pure (hloop (congrArg some hcapture) hbody)
  | false => exact hblock.bind fun _ _ hbody => .pure (hloop rfl hbody)

/-- Directives are read alike: both texts have the same word behind the at sign. -/
theorem keepsPace_directive (hsound : Sound n inner) (hsound' : Sound n' inner') :
    KeepsPace c c.tree (directive inner) (directive inner') := by
  refine KeepsPace.advance.bind fun x y h => ?_
  rw [lexeme_eq h]
  cases hword : Directive.ofWord? y.lexeme with
  | none => exact .throw
  | some d =>
    cases d with
    | importUnit => exact keepsPace_importUnit
    | const => exact keepsPace_declaration hinner true
    | func => exact keepsPace_function hinner hsound hsound'
    | whileLoop => exact keepsPace_whileLoop hinner hsound hsound' h
    | typeOf | forLoop => exact .failAt h

/-! ### Any statement -/

/-- The token at the cursor is a register, and the one behind it makes it a declaration. -/
def declaresRegister (s : ParseState) : Bool :=
  s.next.kind == .register &&
    ((s.peek 1).kind == .typeName || (s.peek 1).is .assignOperator "=")

omit hinner in
/-- Whether a register is declared is told by tokens that both texts have in common. -/
theorem keepsPace_declaresRegister :
    KeepsPace c id (do return declaresRegister (← get)) (do return declaresRegister (← get)) := by
  refine .look fun horizon s t hst hbelow => congrArg id ?_
  have hnext := kind_eq (hst.next (by omega))
  unfold declaresRegister
  by_cases hkind : s.next.kind = .register
  · have hpeek := hst.peek hbelow (by rw [hkind]; decide)
    rw [hnext, kind_eq hpeek, (seen_eq_iff.mp hpeek).1.is_eq]
  · have hfalse : (s.next.kind == .register) = false := by simpa using hkind
    rw [← hnext, hfalse]
    rfl

omit hinner in
/-- At a register, only the token behind it has to be asked. -/
theorem startsDeclaration_bind_run {β : Type} {further : Bool → Parse β} {s : ParseState}
    (hkind : s.next.kind = .register) :
    (startsDeclaration >>= further) s =
      ((do return declaresRegister (← get)) >>= further) s := by
  refine bind_congr_run ?_
  have hdeclares : declaresRegister s =
      ((s.peek 1).kind == .typeName || (s.peek 1).is .assignOperator "=") := by
    rw [declaresRegister, hkind]
    rfl
  exact congrArg (EStateM.Result.ok · s) hdeclares.symm

/-- Statements are read alike, whatever they start with. -/
theorem keepsPace_statementBody (hsound : Sound n inner) (hsound' : Sound n' inner') :
    KeepsPace c c.tree (statementBody inner) (statementBody inner') := by
  refine KeepsPace.next_bind fun x y h => ?_
  rw [kind_eq h, lexeme_eq h]
  have hexpression := keepsPace_expressionStatement hinner
  cases hkind : y.kind
  case register =>
    refine ⟨_, _, keepsPace_declaresRegister.bind ?_,
      fun s hnext => startsDeclaration_bind_run (by rw [hnext, kind_eq h, hkind]),
      fun t hnext => startsDeclaration_bind_run (by rw [hnext, hkind])⟩
    rintro starts _ rfl
    cases starts with
    | true => exact keepsPace_declaration hinner false
    | false => exact hexpression
  case keyword =>
    refine ⟨_, _, ?_, fun _ _ => rfl, fun _ _ => rfl⟩
    simp only
    split
    · exact keepsPace_returning hinner
    · split
      · exact hexpression
      · exact .fail
  case directive =>
    exact ⟨_, _, keepsPace_directive hinner hsound hsound', fun _ _ => rfl, fun _ _ => rfl⟩
  all_goals
    refine ⟨_, _, ?_, fun _ _ => rfl, fun _ _ => rfl⟩
    simp only
    split
    · exact hexpression
    · exact .fail

end

/-! ### All levels -/

section

variable {κ : Type} {c : Comparison κ}

/-- Every production is read alike, if those one level deeper are. -/
theorem keepsPace_body {n n' : Nat} {inner inner' : Production → Parse Tree}
    (hinner : ∀ production, KeepsPace c c.tree (inner production) (inner' production))
    (hsound : Sound n inner) (hsound' : Sound n' inner') (production : Production) :
    KeepsPace c c.tree (body inner production) (body inner' production) := by
  cases production with
  | statement => exact keepsPace_statementBody hinner hsound hsound'
  | expression => exact keepsPace_assignment hinner hsound hsound'
  | operand => exact keepsPace_unary hinner hsound hsound'

/-- Whatever the limit and the levels, reading only moves forward. -/
theorem forward_produceWithin (limit : Int) (levels : Nat) (production : Production) :
    Forward (produceWithin limit levels production) := by
  have hself (levels : Nat) (production : Production) :
      KeepsPace (everything (Int.le_refl limit)) (everything (Int.le_refl limit)).tree
        (produceWithin limit levels production) (produceWithin limit levels production) := by
    induction levels generalizing production with
    | zero => exact .fail
    | succ levels ih =>
      exact (keepsPace_body ih (produceWithin_sound limit levels)
        (produceWithin_sound limit levels) production).nested
  exact (hself levels production).left

/-- Every production keeps pace with itself below a limit that is not lower and with no fewer levels
left. -/
theorem keepsPace_produceWithin {levels levels' : Nat} (hle : levels ≤ levels')
    (hsame : c.limit = c.limit' → levels = levels') (production : Production) :
    KeepsPace c c.tree (produceWithin c.limit levels production)
      (produceWithin c.limit' levels' production) := by
  induction levels generalizing levels' production with
  | zero =>
    rcases Int.lt_or_eq_of_le c.limit_le with hlimit | hlimit
    · refine ⟨ParseState.Reaches.refl, forward_produceWithin _ _ _, ?_⟩
      intro horizon s t hst hbelow
      refine .cut hlimit ?_
      rw [hst.index]
      exact (forward_produceWithin _ _ _ t).index_le
    · obtain rfl := hsame hlimit
      rw [← hlimit]
      exact .fail
  | succ levels ih =>
    obtain ⟨levels', rfl⟩ : ∃ m, levels' = m + 1 := ⟨levels' - 1, by omega⟩
    exact (keepsPace_body (fun production => ih (by omega) (fun h => by have := hsame h; omega)
      production) (produceWithin_sound _ _) (produceWithin_sound _ _) production).nested

/-- Every production is read alike, with the limit of each text. -/
theorem keepsPace_produce (production : Production) :
    KeepsPace c c.tree (produce c.limit production) (produce c.limit' production) where
  left s := forward_produceWithin _ _ _ s
  right t := forward_produceWithin _ _ _ t
  matched := by
    intro horizon s t hst hbelow
    have hle := c.limit_le
    have hkeeps : KeepsPace c c.tree
        (produceWithin c.limit (c.limit - s.depth).toNat production)
        (produceWithin c.limit' (c.limit' - t.depth).toNat production) := by
      rw [hst.depth]
      refine keepsPace_produceWithin (by omega) (fun h => ?_) production
      rw [h]
    exact hkeeps.matched horizon s t hst hbelow

end

end RegisterLang.Grammar
