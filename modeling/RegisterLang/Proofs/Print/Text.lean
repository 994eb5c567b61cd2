import RegisterLang.Proofs.Print.Derivation
import RegisterLang.Proofs.Print.Spelling
import RegisterLang.Proofs.Token.Lawful

/-!
# The canonical text of a program is scanned as its canonical items

A tree that is derived from the tokens of a text has a canonical text that is scanned as its
canonical items. The tokens matter, since not every tree has such a text: a member whose name starts
with a digit, for one, can only be written behind a name.
-/

namespace RegisterLang

/-- The last token of the node is a name, so that a member may follow whose name starts with a
digit. -/
def Node.endsInName {α : Type} : Node α → Bool
  | primary .. | member .. | literal _ .boolean _ => true
  | _ => false

/-- Nothing binds more tightly than an expression that ends in a name. -/
theorem Node.level_of_endsInName {α : Type} {tree : Node α} (h : tree.endsInName) :
    tree.level = 10 := by
  cases tree <;> first | rfl | cases h

namespace Print

open Scanner Grammar

variable {mode mode' mode'' : Mode} {its : List Item} {tree : Node Unit} {ys : List Char}
  {kind : TokenKind} {lexeme : String} {c : Char}

/-! ### What follows an expression -/

/-- The text continues no expression. -/
structure Closes (ys : List Char) : Prop where
  word : Stops isWordChar ys
  colon : Stops (· == ':') ys
  dot : Stops (· == '.') ys

/-- The text may follow the canonical text of the expression. A member may follow if the expression
binds as tightly as that, but one that starts with a digit only behind a name. -/
structure Follows (tree : Node Unit) (ys : List Char) : Prop where
  word : Stops isWordChar ys
  colon : Stops (· == ':') ys
  dot : tree.level < 10 → Stops (· == '.') ys
  number : tree.endsInName = false → EndsNumber ys

/-- What follows an expression with an operator continues no expression. -/
theorem Follows.closes (h : Follows tree ys) (hlevel : tree.level < 10) : Closes ys :=
  ⟨h.word, h.colon, h.dot hlevel⟩

/-- What continues no expression continues no number. -/
theorem Closes.endsNumber (h : Closes ys) : EndsNumber ys := by
  rintro c zs rfl
  cases h.dot '.' rfl

/-- What continues no expression may follow any of them. -/
theorem Closes.follows (h : Closes ys) (tree : Node Unit) : Follows tree ys :=
  ⟨h.word, h.colon, fun _ => h.dot, fun _ => h.endsNumber⟩

/-- The characters that canonical items put behind an expression that is no object. -/
def closers : List Char :=
  [' ', ';', ')', ',', '|', '(']

/-- Behind an expression, its closers continue none. -/
theorem closes_cons (hc : c ∈ closers) : Closes (c :: ys) := by
  have hall : ∀ d ∈ closers, isWordChar d = false ∧ (d == ':') = false ∧ (d == '.') = false := by
    decide
  exact ⟨stops_cons (hall c hc).1, stops_cons (hall c hc).2.1, stops_cons (hall c hc).2.2⟩

/-! ### Tokens -/

/-- What has been read may be followed by nothing that leads to another mode. -/
theorem Prints.leave (h : Prints mode its mode' ys) (ht : Takes mode' [] none mode'' ys) :
    Prints mode its mode'' ys :=
  fun file p rest hrest => h file p rest (@Scans.skip file _ _ _ [] _ _ ht hrest)

/-- A token that is no operator, delimiter or type is scanned where anything may come. -/
theorem prints_token (h : Spellable kind lexeme) (hoperator : kind.isOperator = false)
    (hdelimiter : kind ≠ .delimiter) (htype : kind ≠ .typeName)
    (hdigit : Mode.behind kind = .name → Stops Char.isDigit lexeme.toList)
    (hword : Stops isWordChar ys) (hnumber : kind = .number → EndsNumber ys) :
    Prints .free [.token kind lexeme] (.behind kind) ys := by
  obtain ⟨text, zs, hspells⟩ := h
  refine .token (.token (hspells.respell hoperator hdelimiter htype hword hnumber) htype ?_)
  intro hbehind
  have hspelling : spelling kind lexeme = lexeme.toList := by
    cases kind <;> first | rfl | cases hbehind
  rw [hspelling]
  exact hdigit hbehind

/-- A name may be followed by a member. -/
theorem prints_name (h : Spellable kind lexeme) (hbehind : Mode.behind kind = .name)
    (hdigit : Stops Char.isDigit lexeme.toList) (hword : Stops isWordChar ys) :
    Prints .free [.token kind lexeme] .name ys := by
  have hkind : kind.isOperator = false ∧ kind ≠ .delimiter ∧ kind ≠ .typeName ∧ kind ≠ .number := by
    cases kind <;> first | (cases hbehind; done) | decide
  rw [← hbehind]
  exact prints_token h hkind.1 hkind.2.1 hkind.2.2.1 (fun _ => hdigit) hword
    fun hnumber => absurd hnumber hkind.2.2.2

/-- A name that no member follows is left behind. -/
theorem prints_name_free (h : Spellable kind lexeme) (hbehind : Mode.behind kind = .name)
    (hdigit : Stops Char.isDigit lexeme.toList) (hword : Stops isWordChar ys)
    (hdot : Stops (· == '.') ys) : Prints .free [.token kind lexeme] .free ys :=
  (prints_name h hbehind hdigit hword).leave (.unchained hdot)

/-- A register is scanned as itself, if its word ends. -/
theorem prints_register (h : Spellable .register lexeme) (hword : Stops isWordChar ys) :
    Prints .free [.token .register lexeme] .register ys :=
  prints_token h rfl (by decide) (by decide) nofun hword nofun

/-- The keyword of a return is scanned as itself, if nothing continues it. -/
theorem prints_return (hys : Closes ys) :
    Prints .free [.token .keyword "return"] .free ys := by
  have hspells : Spells .keyword "return" "return".toList [] :=
    @Spells.word "return".toList [] (by decide) (by decide) (by simp [Stops])
  exact prints_name_free ⟨_, _, hspells⟩ rfl (by unfold Stops; decide) hys.word hys.dot

/-- A directive is scanned as itself, if its word ends. -/
theorem prints_directive (d : Directive) (hword : Stops isWordChar ys) :
    Prints .free [.token .directive d.word] .free ys :=
  .token (.token (.directive d hword) (by decide) nofun)

/-- A string is scanned as itself, in front of anything but a word. -/
theorem prints_string (h : Spellable .string lexeme) (hword : Stops isWordChar ys) :
    Prints .free [.token .string lexeme] .free ys :=
  prints_token h rfl (by decide) (by decide) nofun hword nofun

/-! ### Lists -/

/-- Parts with a separator between them, where the separator may follow every part. -/
theorem prints_intercalate (may : List Char → Prop) {sep : List Item} {parts : List (List Item)}
    (hmay : ∀ ys, may (written sep ++ ys)) (hsep : ∀ ys, Prints .free sep .free ys)
    (h : ∀ part ∈ parts, ∀ ys, may ys → Prints .free part .free ys) (hys : may ys) :
    Prints .free (sep.intercalate parts) .free ys := by
  cases parts with
  | nil => exact .nil _ _
  | cons part parts =>
    rw [intercalate_cons]
    induction parts generalizing part with
    | nil => simpa using h part List.mem_cons_self ys hys
    | cons next parts ih =>
      rw [List.flatMap_cons, List.append_assoc]
      have hnext := ih next fun part hpart => h part (List.mem_cons_of_mem _ hpart)
      refine .append (h part List.mem_cons_self _ ?_) (.append (hsep _) hnext)
      rw [written_append, List.append_assoc]
      exact hmay _

/-- Statements on lines of their own are scanned, if each of them is. -/
theorem prints_lines {trees : List (Node Unit)}
    (h : ∀ tree ∈ trees, ∀ ys, Prints .free (statementItems tree) .free ys) (ys : List Char) :
    Prints .free ([.newline].intercalate (trees.map statementItems)) .free ys := by
  refine prints_intercalate (fun _ => True) (fun _ => trivial) .newline ?_ trivial
  rintro part hpart ys -
  obtain ⟨tree, htree, rfl⟩ := List.mem_map.mp hpart
  exact h tree htree ys

/-- Trees with commas between them are scanned, if each of them is. -/
theorem prints_listed {f : Node Unit → List Item} {trees : List (Node Unit)}
    (h : ∀ tree ∈ trees, ∀ ys, Closes ys → Prints .free (f tree) .free ys) (hys : Closes ys) :
    Prints .free ([delimiter ",", .space].intercalate (trees.map f)) .free ys := by
  refine prints_intercalate Closes (fun ys => closes_cons (by decide)) (fun ys => ?_) ?_ hys
  · exact .cons (.delimiter (by decide) _) (.space ys)
  · intro part hpart ys hys
    obtain ⟨tree, htree, rfl⟩ := List.mem_map.mp hpart
    exact h tree htree ys hys

/-! ### Expressions -/

/-- Where scanning stands behind an expression. -/
def behind (tree : Node Unit) : Mode :=
  if tree.endsInName then .name else .free

/-- The canonical text of the expression is scanned as its items. -/
structure Readable (tree : Node Unit) : Prop where
  isExpression : tree.isExpression
  /-- No expression starts with a bar. -/
  bar : ∀ ys, Stops (· == '|') (written (items tree) ++ ys)
  prints : ∀ ys, Follows tree ys → Prints .free (items tree) (behind tree) ys

/-- Behind an expression that no member follows, anything may come. -/
theorem Readable.free (h : Readable tree) (hys : Closes ys) :
    Prints .free (items tree) .free ys := by
  have hprints := h.prints ys (hys.follows tree)
  unfold behind at hprints
  split at hprints
  · exact hprints.leave (.unchained hys.dot)
  · exact hprints

/-- An expression in parentheses is scanned, whatever follows it. -/
theorem Readable.parenthesized (h : Readable tree) (ys : List Char) :
    Prints .free (wrapped true (items tree)) .free ys :=
  .cons (.delimiter (by decide) _)
    (.append (h.free (closes_cons (by decide))) (.delimiter (by decide) ys))

/-- An expression in its place is scanned, with its parentheses if it needs them. -/
theorem Readable.wrapped (h : Readable tree) (needed : Bool) (hys : Closes ys) :
    Prints .free (wrapped needed (items tree)) .free ys := by
  cases needed with
  | true => exact h.parenthesized _
  | false => exact h.free hys

/-- No expression in its place starts with a bar. -/
theorem Readable.bar_wrapped (h : Readable tree) (needed : Bool) (its : List Item)
    (ys : List Char) :
    Stops (· == '|') (written (Print.wrapped needed (items tree) ++ its) ++ ys) := by
  cases needed with
  | true => exact stops_cons (by decide)
  | false =>
    rw [written_append, List.append_assoc]
    exact h.bar _

/-- The object of a member and what is called, in parentheses if they are needed. -/
theorem Readable.object (h : Readable tree) (hword : Stops isWordChar ys)
    (hcolon : Stops (· == ':') ys) (hnumber : tree.endsInName = false → EndsNumber ys) :
    Prints .free (Print.wrapped (tree.level < 10) (items tree)) (behind tree) ys := by
  by_cases hlevel : tree.level < 10
  · have hname : ¬ tree.endsInName := fun hname => by
      have hten := Node.level_of_endsInName hname
      omega
    rw [decide_eq_true hlevel, behind, if_neg hname]
    exact h.parenthesized ys
  · rw [decide_eq_false hlevel]
    exact h.prints ys ⟨hword, hcolon, fun hlt => absurd hlt hlevel, hnumber⟩

/-- Only a delimiter and operators start with a bar. -/
theorem stops_bar_token (h : Spellable kind lexeme) (hoperator : kind.isOperator = false)
    (hdelimiter : kind ≠ .delimiter) (ys : List Char) :
    Stops (· == '|') (written [.token kind lexeme] ++ ys) := by
  have hne {p : Char → Bool} (hp : p '|' = false) (c : Char) (hc : p c) : (c == '|') = false := by
    rw [beq_eq_false_iff_ne]
    rintro rfl
    rw [hp] at hc
    cases hc
  obtain ⟨_, _, hspells⟩ := h
  rw [written_cons, written_nil, List.append_nil, Item.text]
  cases hspells with
  | string hquote hcontent =>
    have hquote' := (ne_quoteOf hquote fun c hc => (hcontent c hc).1).1
    exact stops_cons (hne (by decide) _ hquote')
  | register => exact stops_cons (by decide)
  | directive => exact stops_cons (by decide)
  | typeName => exact stops_cons (by decide)
  | integer hrun hdigits =>
    rw [spelling_number, String.toList_ofList]
    exact stops_run hrun hdigits (hne (by decide)) ys
  | decimal hrun hwhole =>
    rw [spelling_number, String.toList_ofList, List.append_assoc]
    exact stops_run hrun hwhole (hne (by decide)) _
  | radix r =>
    have hspelling : spelling r.kind = fun lexeme => lexeme.toList := by cases r <;> rfl
    rw [hspelling]
    simpa using stops_cons (by decide)
  | word hrun hname =>
    rw [spelling_wordKind, String.toList_ofList]
    exact stops_run hrun hname (hne (by decide)) ys
  | delimiter => exact absurd rfl hdelimiter
  | bar => exact absurd rfl hdelimiter
  | operator hop =>
    rw [isOperator_of_kind? hop] at hoperator
    cases hoperator

/-- No boolean starts with a digit. -/
theorem stops_isDigit_of_boolean (h : Spellable .boolean lexeme) :
    Stops Char.isDigit lexeme.toList := by
  obtain ⟨_, _, hspells⟩ := h
  have hword := (hspells.of_word rfl).1
  have hmem : lexeme ∈ booleanWords := by
    by_contra hnone
    rw [wordKind, if_neg hnone] at hword
    split at hword <;> cases hword
  have hall : ∀ word ∈ booleanWords, ∀ c ∈ word.toList.head?, c.isDigit = false := by decide
  exact hall lexeme hmem

/-- Literals are scanned as they are written. -/
theorem readable_literal {kind : LiteralKind} (h : Spellable kind.tokenKind lexeme) :
    Readable (.literal () kind lexeme) where
  isExpression := rfl
  bar := stops_bar_token h (by cases kind <;> rfl) (by cases kind <;> decide)
  prints ys hys := by
    have hdigit (hbehind : Mode.behind kind.tokenKind = .name) :
        Stops Char.isDigit lexeme.toList := by
      cases kind <;> first | exact stops_isDigit_of_boolean h | cases hbehind
    have hprints := prints_token h (by cases kind <;> rfl) (by cases kind <;> decide)
      (by cases kind <;> decide) hdigit hys.word fun hnumber => hys.number (by
        cases kind <;> first | rfl | cases hnumber)
    have hbehind : behind (.literal () kind lexeme) = .behind kind.tokenKind := by
      cases kind <;> rfl
    rw [hbehind]
    exact hprints

/-- Names are scanned as they are written, if they start with no digit. -/
theorem readable_identifier (h : Spellable .identifier lexeme)
    (hdigit : Stops Char.isDigit lexeme.toList) :
    Readable (.primary () .identifier lexeme) where
  isExpression := rfl
  bar := stops_bar_token h rfl (by decide)
  prints _ hys := prints_name h rfl hdigit hys.word

/-- Registers are scanned as they are written. -/
theorem readable_register (h : Spellable .register lexeme) :
    Readable (.primary () .register lexeme) where
  isExpression := rfl
  bar := stops_bar_token h rfl (by decide)
  prints _ hys := (prints_register h hys.word).leave (.untyped hys.colon)

/-- A member whose name starts with a digit is behind a name. -/
theorem readable_member {object : Node Unit} (hobject : Readable object)
    (h : Spellable .identifier lexeme)
    (hdigit : object.endsInName ∨ Stops Char.isDigit lexeme.toList) :
    Readable (.member () object (.primary () .identifier lexeme)) where
  isExpression := rfl
  bar := hobject.bar_wrapped _ _
  prints ys hys := by
    have hdot (zs : List Char) : Stops isWordChar ('.' :: zs) := stops_cons (by decide)
    have hcolon (zs : List Char) : Stops (· == ':') ('.' :: zs) := stops_cons (by decide)
    have hwritten : written [delimiter ".", .token .identifier lexeme] ++ ys =
        '.' :: (lexeme.toList ++ ys) := by
      simp [Item.text, spelling]
    obtain ⟨c, name, hname, hc⟩ := h.exists_cons
    cases hends : object.endsInName with
    | true =>
      have hprints := hobject.object (hdot _) (hcolon (lexeme.toList ++ ys)) (by simp [hends])
      rw [behind, if_pos hends, ← hwritten] at hprints
      have hnext : c ∈ (written [.token .identifier lexeme] ++ ys).head? := by
        simp [Item.text, spelling, hname]
      exact hprints.append (.cons (.token (.dot ⟨c, hnext, hc⟩)) (.token (h.takes_member hys.word)))
    | false =>
      have hdigit' := hdigit.resolve_left (by simp [hends])
      have hprints := hobject.object (hdot _) (hcolon (lexeme.toList ++ ys)) fun _ => by
        rintro d zs heq
        rw [hname, List.cons_append, List.cons.injEq, List.cons.injEq] at heq
        rw [← heq.2.1, hdigit' c (by rw [hname]; rfl)]
        decide
      rw [behind, if_neg (by simp [hends]), ← hwritten] at hprints
      exact hprints.append (.cons (.delimiter (by decide) _) (prints_name h rfl hdigit' hys.word))

/-- An operator between two operands. -/
theorem prints_between {its its' : List Item} (hop : Operator.kind? lexeme = some kind)
    (hleft : ∀ ys, Closes ys → Prints .free its .free ys) (hright : Prints .free its' .free ys) :
    Prints .free (its ++ .space :: .token kind lexeme :: .space :: its') .free ys :=
  .append (hleft _ (closes_cons (by decide)))
    (.cons (.space _) (.cons (.operator hop _) (.cons (.space _) hright)))

/-- Operators are scanned with the blanks around them, and so are their operands. -/
theorem readable_binary {left right : Node Unit} (hop : Spellable .binaryOperator lexeme)
    (hleft : Readable left) (hright : Readable right) :
    Readable (.binary () lexeme left right) where
  isExpression := rfl
  bar := hleft.bar_wrapped _ _
  prints ys hys := by
    have hlevel : (Node.binary () lexeme left right).level < 10 := by
      have hle := rank_le lexeme
      rw [Node.level]
      omega
    rw [items]
    exact prints_between (hop.kind?_eq rfl) (fun _ => hleft.wrapped _)
      (hright.wrapped _ (hys.closes hlevel))

/-- Assignments are scanned with the blanks around their operator, and so are both their sides. -/
theorem readable_assignment {left right : Node Unit} (hop : Spellable .assignOperator lexeme)
    (hleft : Readable left) (hright : Readable right) :
    Readable (.assignment () lexeme left right) where
  isExpression := rfl
  bar := hleft.bar_wrapped _ _
  prints ys hys := by
    rw [items]
    exact prints_between (hop.kind?_eq rfl) (fun _ => hleft.wrapped _)
      (hright.free (hys.closes (by rw [Node.level]; decide)))

/-- Every operator in front of an operand is written as one. -/
theorem kind?_of_isUnary {op : Token} (hop : Spellable op.kind op.lexeme) (hunary : isUnary op) :
    Operator.kind? op.lexeme =
      some (if op.lexeme ∈ Operator.signs then .binaryOperator else .unaryOperator) := by
  have hsigns : ∀ sign ∈ Operator.signs, Operator.kind? sign = some .binaryOperator := by
    decide
  simp only [isUnary, Bool.or_eq_true, Bool.and_eq_true, beq_iff_eq,
    List.contains_iff_mem] at hunary
  split
  · next hsign => exact hsigns _ hsign
  · next hsign =>
    have hkind := hunary.resolve_right fun h => hsign h.2
    rw [hop.kind?_eq (by rw [hkind]; rfl), hkind]

/-- An operator in front of an operand is scanned, and so is the operand. -/
theorem readable_unary {operand : Node Unit} {op : Token} (hop : Spellable op.kind op.lexeme)
    (hunary : isUnary op) (hoperand : Readable operand) :
    Readable (.unary () op.lexeme operand) where
  isExpression := rfl
  bar ys := by
    have hall : ∀ op ∈ Operator.binary ++ Operator.unary ++ Operator.assignment,
        Operator.kind? op =
          some (if op ∈ Operator.signs then .binaryOperator else .unaryOperator) →
        op.toList.head?.any (· != '|') := by decide
    have hkind := kind?_of_isUnary hop hunary
    obtain ⟨c, hhead, hc⟩ :=
      (Option.any_eq_true _ _).mp (hall op.lexeme (mem_of_kind? hkind) hkind)
    obtain ⟨cs, hcs⟩ := List.head?_eq_some_iff.mp hhead
    have hspelling : (prefixItem op.lexeme).text = op.lexeme.toList := by
      rw [prefixItem]
      split <;> rfl
    rw [items, written_cons, hspelling, hcs]
    exact stops_cons (by simpa using hc)
  prints ys hys := by
    rw [items, prefixItem]
    exact .cons (.operator (kind?_of_isUnary hop hunary) _)
      (.cons (.space _) (hoperand.wrapped _ (hys.closes (by rw [Node.level]; decide))))

/-- Calls are scanned as their callees and their arguments between parentheses. -/
theorem readable_call {callee : Node Unit} {args : List (Node Unit)} (hcallee : Readable callee)
    (hargs : ∀ arg ∈ args, Readable arg) : Readable (.call () callee args) where
  isExpression := rfl
  bar := hcallee.bar_wrapped _ _
  prints ys _ := by
    have hlist (zs : List Char) :
        Prints .free ([delimiter ",", .space].intercalate (args.map items)) .free (')' :: zs) :=
      prints_listed (fun arg harg _ => (hargs arg harg).free) (closes_cons (by decide))
    rw [items, itemsAll_eq]
    exact .append (hcallee.wrapped _ (closes_cons (by decide))) (.cons (.delimiter (by decide) _)
      (.append (hlist _) (.delimiter (by decide) ys)))

/-! ### Statements -/

/-- The text of the items starts with neither a blank nor a dot, so it may stand behind a type and a
space. -/
def StartsApart (its : List Item) : Prop :=
  ∃ c cs, written its = c :: cs ∧ Text.isBlank c = false ∧ c ≠ '.'

/-- An expression with a semicolon behind it. -/
theorem Readable.terminated (h : Readable tree) (ys : List Char) :
    Prints .free (items tree ++ [delimiter ";"]) .free ys :=
  .append (h.free (closes_cons (by decide))) (.delimiter (by decide) ys)

/-- The value of a declaration, with the equals sign in front. -/
theorem Readable.assigned (h : Readable tree) (ys : List Char) :
    Prints .free (.token .assignOperator "=" :: .space :: (items tree ++ [delimiter ";"])) .free
      ys :=
  .cons (.operator (by decide) _) (.cons (.space _) (h.terminated ys))

/-- A declaration, up to the equals sign or the statement that follows its type. -/
theorem prints_declaration {name : String} {typeName : Option (Node Unit)}
    (hname : Spellable .register name)
    (htype : ∀ t ∈ typeName, Spellable .typeName t.nameText)
    (h : ∀ ys, Prints .free its .free ys) (hfirst : StartsApart its) (ys : List Char) :
    Prints .free (.token .register name :: (typeItems typeName ++ .space :: its)) .free ys := by
  cases typeName with
  | none =>
    have hspace : Closes (' ' :: (written its ++ ys)) := closes_cons (by decide)
    have hregister := (prints_register hname hspace.word).leave (.untyped hspace.colon)
    exact .cons (hregister.leave (.unchained hspace.dot)) (.cons (.space _) (h ys))
  | some typeName =>
    obtain ⟨_, _, hspells⟩ := htype typeName rfl
    obtain ⟨c, cs, hwritten, hblank, hdot⟩ := hfirst
    have hstops {p : Char → Bool} (hp : p c = false) : Stops p (written its ++ ys) := by
      rw [hwritten]
      exact stops_cons hp
    have hbehind : Prints .name its .free ys := .of_name (h ys) (hstops (by simpa using hdot))
    have htyped : Prints .type (.space :: its) .free ys :=
      .cons (.space_behind_type (hstops hblank)) hbehind
    exact .cons (prints_register hname (stops_cons (by decide)))
      (.cons (.token (.typed (hspells.respell_type _))) htyped)

/-- A return with a value is scanned, with its semicolon. -/
theorem prints_returning (h : Readable tree) (ys : List Char) :
    Prints .free (items (.returning () (some tree))) .free ys :=
  .cons (prints_return (closes_cons (by decide))) (.cons (.space _) (h.terminated ys))

/-- An import is scanned, with its path between quotes. -/
theorem prints_importUnit {path : String} (h : Spellable .string path) (ys : List Char) :
    Prints .free (items (.importUnit () path)) .free ys := by
  have hclosing : Prints .free [delimiter ")", delimiter ";"] .free ys :=
    .cons (.delimiter (by decide) _) (.delimiter (by decide) ys)
  have hpath : Prints .free [.token .string path, delimiter ")", delimiter ";"] .free ys :=
    .cons (prints_string h (stops_cons (by decide))) hclosing
  exact .cons (prints_directive .importUnit (stops_cons (by decide)))
    (.cons (.delimiter (by decide) _) hpath)

/-- A block is scanned, if each of its statements is. -/
theorem prints_block {trees : List (Node Unit)}
    (h : ∀ tree ∈ trees, ∀ ys, Prints .free (statementItems tree) .free ys) (ys : List Char) :
    Prints .free (items (.block () trees)) .free ys := by
  have hopening (zs : List Char) : Prints .free [delimiter openingBrace, .space] .free zs :=
    .cons (.delimiter (by decide) _) (.space zs)
  have hclosing : Prints .free [.space, delimiter closingBrace] .free ys :=
    .cons (.space _) (.delimiter (by decide) ys)
  rw [items, statementItemsAll_eq]
  exact .append (.append (hopening _) (prints_lines h _)) hclosing

/-- What follows a name may be a colon. -/
theorem Closes.colonItems (hys : Closes ys) (typeName : Option (Node Unit)) :
    Stops isWordChar (written (colonItems typeName) ++ ys) ∧
      Stops (· == '.') (written (colonItems typeName) ++ ys) := by
  cases typeName with
  | none => exact ⟨hys.word, hys.dot⟩
  | some => exact ⟨stops_cons (by decide), stops_cons (by decide)⟩

/-- A type behind a colon is scanned, if it starts with no digit. -/
theorem prints_colonItems (h : Spellable .identifier lexeme)
    (hdigit : Stops Char.isDigit lexeme.toList) (hys : Closes ys) :
    Prints .free (colonItems (some (.primary () .identifier lexeme))) .free ys :=
  .cons (.delimiter (by decide) _)
    (.cons (.space _) (prints_name_free h rfl hdigit hys.word hys.dot))

/-- A parameter is scanned, if its type is. -/
theorem prints_param {typeName : Option (Node Unit)} (h : Spellable .identifier lexeme)
    (hdigit : Stops Char.isDigit lexeme.toList)
    (htype : ∀ ys, Closes ys → Prints .free (colonItems typeName) .free ys) (hys : Closes ys) :
    Prints .free (.token .identifier lexeme :: colonItems typeName) .free ys := by
  obtain ⟨hword, hdot⟩ := hys.colonItems typeName
  exact .cons (prints_name_free h rfl hdigit hword hdot) (htype ys hys)

/-- A function is scanned, if its parameters, its type and its block are. -/
theorem prints_function {name : String} {params : List (Node Unit)}
    {returnType : Option (Node Unit)} {body : Node Unit} (hname : Spellable .identifier name)
    (hdigit : Stops Char.isDigit name.toList)
    (hparams : ∀ tree ∈ params, ∀ ys, Closes ys → Prints .free (paramItems tree) .free ys)
    (htype : ∀ ys, Closes ys → Prints .free (colonItems returnType) .free ys)
    (hbody : ∀ ys, Prints .free (items body) .free ys) (ys : List Char) :
    Prints .free (items (.function () name (.params () params) returnType body)) .free ys := by
  have hhead (zs : List Char) : Prints .free
      [.token .directive "func", .space, .token .identifier name, delimiter "("] .free zs := by
    have hparenthesis : Closes ('(' :: zs) := closes_cons (by decide)
    exact .cons (prints_directive .func (stops_cons (by decide))) (.cons (.space _)
      (.cons (prints_name_free hname rfl hdigit hparenthesis.word hparenthesis.dot)
        (.delimiter (by decide) zs)))
  have hlist (zs : List Char) : Prints .free (items (.params () params)) .free (')' :: zs) :=
    prints_listed hparams (closes_cons (by decide))
  have hrest : Prints .free (colonItems returnType ++ .space :: items body) .free ys :=
    .append (htype _ (closes_cons (by decide))) (.cons (.space _) (hbody ys))
  exact .append (.append (hhead _) (hlist _)) (.cons (.delimiter (by decide) _) hrest)

/-- The bars around a capture are delimiters, since no expression starts with a bar. -/
theorem prints_captureItems (h : Readable tree) (hys : Stops (· == '|') ys) :
    Prints .free (captureItems (some tree)) .free ys := by
  have hbar (zs : List Char) := h.bar_wrapped (!tree.isAtom) [] zs
  simp only [List.append_nil] at hbar
  exact .append (.append (.cons (.space _) (.bar (hbar _)))
    (h.wrapped _ (closes_cons (by decide)))) (.bar hys)

/-- A loop is scanned, if its condition, its capture and its block are. -/
theorem prints_whileLoop {condition body : Node Unit} {capture : Option (Node Unit)}
    (hcondition : Readable condition)
    (hcapture : ∀ ys, Stops (· == '|') ys → Prints .free (captureItems capture) .free ys)
    (hbody : ∀ ys, Prints .free (items body) .free ys) (ys : List Char) :
    Prints .free (items (.whileLoop () condition capture body)) .free ys := by
  have hhead (zs : List Char) :
      Prints .free [.token .directive "while", .space, delimiter "("] .free zs :=
    .cons (prints_directive .whileLoop (stops_cons (by decide)))
      (.cons (.space _) (.delimiter (by decide) zs))
  have hrest : Prints .free (captureItems capture ++ .space :: items body) .free ys :=
    .append (hcapture _ (stops_cons (by decide))) (.cons (.space _) (hbody ys))
  exact .append (.append (hhead _) (hcondition.free (closes_cons (by decide))))
    (.cons (.delimiter (by decide) _) hrest)

/-! ### Programs -/

/-- What a derivation says about the canonical text of what is read as its phrase; `mode` is where
the tokens of the phrase lead to. -/
def PrintsItems (mode : Mode) : Phrase Unit → Prop
  | .statements trees => ∀ tree ∈ trees, ∀ ys, Prints .free (statementItems tree) .free ys
  | .statement tree =>
    (∀ ys, Prints .free (statementItems tree) .free ys) ∧
      (tree.isExpression → Readable tree) ∧ (tree.isExpression = false → StartsApart (items tree))
  | .declaration isConst tree =>
    ∃ name typeName value, tree = .declaration () name isConst typeName value ∧
      ∀ ys, Prints .free (items (.declaration () name false typeName value)) .free ys
  | .initialValue tree | .expression tree | .binary _ tree | .operand tree => Readable tree
  | .block tree => ∀ ys, Prints .free (items tree) .free ys
  | .params trees | .furtherParams trees =>
    ∀ tree ∈ trees, ∀ ys, Closes ys → Prints .free (paramItems tree) .free ys
  | .param tree => ∀ ys, Closes ys → Prints .free (paramItems tree) .free ys
  | .typeAfterColon tree => ∀ ys, Closes ys → Prints .free (colonItems tree) .free ys
  | .capture tree => ∀ ys, Stops (· == '|') ys → Prints .free (captureItems tree) .free ys
  | .suffixed tree | .primary tree => (mode = .name → tree.endsInName) ∧ Readable tree
  | .arguments trees | .furtherArguments trees => ∀ tree ∈ trees, Readable tree

/-- Statements that are no expressions have nothing behind them. -/
theorem printsItems_statement (hnone : tree.isExpression = false)
    (h : ∀ ys, Prints .free (items tree) .free ys) (hfirst : StartsApart (items tree)) :
    PrintsItems mode (.statement tree) := by
  refine ⟨?_, fun hexpression => ?_, fun _ => hfirst⟩
  · rwa [statementItems, Print.terminated, hnone]
  · rw [hnone] at hexpression
    cases hexpression

/-- A declaration whose value is an expression. -/
theorem printsItems_declaration {name : String} {typeName : Option (Node Unit)} {isConst : Bool}
    (hname : Spellable .register name) (htype : ∀ t ∈ typeName, Spellable .typeName t.nameText)
    (h : Readable tree) :
    PrintsItems mode (.declaration isConst (.declaration () name isConst typeName tree)) := by
  refine ⟨name, typeName, tree, rfl, fun ys => ?_⟩
  rw [items, if_pos h.isExpression]
  exact prints_declaration hname htype h.assigned ⟨_, _, rfl, by decide, by decide⟩ ys

/-- A literal is read from a token of the kind that it is written as. -/
theorem kind_of_literalKind? {kind : LiteralKind} {kind' : TokenKind}
    (h : literalKind? kind' = some kind) : kind' = kind.tokenKind := by
  cases kind' <;> cases h <;> rfl

/-- The canonical text of what is derived from the tokens of a text is scanned as its items. -/
theorem prints_of_forms {n : Nat} {phrase : Phrase Unit} {xs ys : List Token}
    (h : Forms n phrase xs ys) {mode : Mode} (hxs : Fresh mode xs) :
    ∃ mode', Fresh mode' ys ∧ PrintsItems mode' phrase := by
  induction h generalizing mode with
  | noStatement | noParam | noFurtherParam | noArgument | noFurtherArgument =>
    exact ⟨mode, hxs, List.forall_mem_nil _⟩
  | noType | noCapture => exact ⟨mode, hxs, fun _ _ => .nil _ _⟩
  | moreStatements _ _ ih₁ ih₂ =>
    obtain ⟨mode₁, hys, h₁⟩ := ih₁ hxs
    obtain ⟨mode₂, hzs, h₂⟩ := ih₂ hys
    exact ⟨mode₂, hzs, List.forall_mem_cons.mpr ⟨h₁.1, h₂⟩⟩
  | someParams _ _ ih₁ ih₂ | someArguments _ _ ih₁ ih₂ =>
    obtain ⟨mode₁, hys, h₁⟩ := ih₁ hxs
    obtain ⟨mode₂, hzs, h₂⟩ := ih₂ hys
    exact ⟨mode₂, hzs, List.forall_mem_cons.mpr ⟨h₁, h₂⟩⟩
  | furtherParam hcomma _ _ ih₁ ih₂ | furtherArgument hcomma _ _ ih₁ ih₂ =>
    obtain ⟨mode₁, hys, h₁⟩ := ih₁ (hxs.lawful.fresh_of_isDelimiter hcomma (by decide))
    obtain ⟨mode₂, hzs, h₂⟩ := ih₂ hys
    exact ⟨mode₂, hzs, List.forall_mem_cons.mpr ⟨h₁, h₂⟩⟩
  | trailingComma hcomma =>
    exact ⟨_, hxs.lawful.fresh_of_isDelimiter hcomma (by decide), List.forall_mem_nil _⟩
  | declares _ ih =>
    obtain ⟨mode', hys, name, typeName, value, rfl, hprints⟩ := ih hxs
    exact ⟨mode', hys, printsItems_statement rfl hprints ⟨_, _, rfl, rfl, by decide⟩⟩
  | declaresConst hkeyword _ ih =>
    obtain ⟨mode', hys, name, typeName, value, rfl, hprints⟩ :=
      ih (hxs.lawful.fresh_of_is hkeyword (by decide))
    have hconst (ys : List Char) :
        Prints .free (items (.declaration () name true typeName value)) .free ys :=
      .cons (prints_directive .const (stops_cons (by decide))) (.cons (.space _) (hprints ys))
    exact ⟨mode', hys, printsItems_statement rfl hconst ⟨_, _, rfl, rfl, by decide⟩⟩
  | returnsNothing hkeyword hsemicolon =>
    have hys := (hxs.lawful.fresh_of_is hkeyword (by decide)).lawful
    have hprints (ys : List Char) : Prints .free (items (.returning () none)) .free ys :=
      .cons (prints_return (closes_cons (by decide))) (.delimiter (by decide) ys)
    exact ⟨_, hys.fresh_of_isDelimiter hsemicolon (by decide),
      printsItems_statement rfl hprints ⟨_, _, rfl, rfl, by decide⟩⟩
  | returnsValue hkeyword _ hsemicolon ih =>
    obtain ⟨_, hys, hvalue⟩ := ih (hxs.lawful.fresh_of_is hkeyword (by decide))
    exact ⟨_, hys.lawful.fresh_of_isDelimiter hsemicolon (by decide),
      printsItems_statement rfl (prints_returning hvalue) ⟨_, _, rfl, rfl, by decide⟩⟩
  | imports hkeyword hopening hpath hclosing hsemicolon =>
    have hrest := (hxs.lawful.fresh_of_is hkeyword (by decide)).lawful
    have hpath' := (hrest.fresh_of_isDelimiter hopening (by decide)).lawful
    have hclosing' := (hpath'.fresh_of_kind hpath (by decide)).lawful
    have hsemicolon' := (hclosing'.fresh_of_isDelimiter hclosing (by decide)).lawful
    exact ⟨_, hsemicolon'.fresh_of_isDelimiter hsemicolon (by decide), printsItems_statement rfl
      (prints_importUnit (hpath'.spellable hpath)) ⟨_, _, rfl, rfl, by decide⟩⟩
  | function hkeyword hname hopening _ hclosing _ _ ih₁ ih₂ ih₃ =>
    have hname' := hxs.lawful.fresh_of_is hkeyword (by decide)
    have hopening' := (hname'.lawful.fresh_of_kind hname (by decide)).lawful
    obtain ⟨_, hys, hparams⟩ := ih₁ (hopening'.fresh_of_isDelimiter hopening (by decide))
    obtain ⟨_, hzs, htype⟩ := ih₂ (hys.lawful.fresh_of_isDelimiter hclosing (by decide))
    obtain ⟨mode', hws, hbody⟩ := ih₃ hzs
    have hprints := prints_function (hname'.lawful.spellable hname) (hname'.stops_isDigit hname)
      hparams htype hbody
    exact ⟨mode', hws, printsItems_statement rfl hprints ⟨_, _, rfl, rfl, by decide⟩⟩
  | loop hkeyword hopening _ hclosing _ _ ih₁ ih₂ ih₃ =>
    have hopening' := (hxs.lawful.fresh_of_is hkeyword (by decide)).lawful
    obtain ⟨_, hys, hcondition⟩ := ih₁ (hopening'.fresh_of_isDelimiter hopening (by decide))
    obtain ⟨_, hzs, hcapture⟩ := ih₂ (hys.lawful.fresh_of_isDelimiter hclosing (by decide))
    obtain ⟨mode', hws, hbody⟩ := ih₃ hzs
    have hprints := prints_whileLoop hcondition hcapture hbody
    exact ⟨mode', hws, printsItems_statement rfl hprints ⟨_, _, rfl, rfl, by decide⟩⟩
  | evaluates _ _ hsemicolon ih =>
    obtain ⟨_, hys, htree⟩ := ih hxs
    refine ⟨_, hys.lawful.fresh_of_isDelimiter hsemicolon (by decide), ?_, fun _ => htree, ?_⟩
    · rw [statementItems, Print.terminated, if_pos htree.isExpression]
      exact htree.terminated
    · intro hnone
      rw [htree.isExpression] at hnone
      cases hnone
  | plainDeclaration hregister hequals _ ih =>
    have hequals' := (hxs.lawful.fresh_of_kind hregister (by decide)).lawful
    obtain ⟨mode', hys, hvalue⟩ := ih (hequals'.fresh_of_is hequals (by decide))
    refine ⟨mode', hys, printsItems_declaration (hxs.lawful.spellable hregister) ?_ hvalue⟩
    rintro _ ⟨⟩
  | typedDeclaration hregister htype hequals _ ih =>
    have htype' := (hxs.lawful.fresh_of_kind hregister (by decide)).lawful
    have hequals' := (htype'.fresh_of_kind htype (by decide)).lawful
    obtain ⟨mode', hys, hvalue⟩ := ih (hequals'.fresh_of_is hequals (by decide))
    refine ⟨mode', hys, printsItems_declaration (hxs.lawful.spellable hregister) ?_ hvalue⟩
    rintro _ ⟨⟩
    exact htype'.spellable htype
  | @statementDeclaration n isConst value register typeName xs ys hregister htype _ _ ih =>
    have htype' := (hxs.lawful.fresh_of_kind hregister (by decide)).lawful
    obtain ⟨mode', hys, hstatement, hexpression, hfirst⟩ :=
      ih (htype'.fresh_of_kind htype (by decide))
    have htypes : ∀ t ∈ some (nameOf (fun _ => ()) typeName), Spellable .typeName t.nameText := by
      rintro _ ⟨⟩
      exact htype'.spellable htype
    refine ⟨mode', hys, ?_⟩
    cases hvalue : value.isExpression with
    | true =>
      exact printsItems_declaration (hxs.lawful.spellable hregister) htypes (hexpression hvalue)
    | false =>
      refine ⟨_, _, _, rfl, fun ys => ?_⟩
      rw [statementItems, Print.terminated, hvalue] at hstatement
      rw [items, hvalue]
      exact prints_declaration (hxs.lawful.spellable hregister) htypes hstatement (hfirst hvalue) ys
  | closedValue _ hsemicolon ih =>
    obtain ⟨_, hys, htree⟩ := ih hxs
    exact ⟨_, hys.lawful.fresh_of_isDelimiter hsemicolon (by decide), htree⟩
  | openValue _ _ ih | value _ ih | single _ ih | bare _ ih => exact ih hxs
  | block hopening _ hclosing ih =>
    obtain ⟨_, hys, htrees⟩ := ih (hxs.lawful.fresh_of_isDelimiter hopening (by decide))
    exact ⟨_, hys.lawful.fresh_of_isDelimiter hclosing (by decide), prints_block htrees⟩
  | param hname _ ih =>
    obtain ⟨mode', hys, htype⟩ := ih (hxs.lawful.fresh_of_kind hname (by decide))
    exact ⟨mode', hys, fun _ =>
      prints_param (hxs.lawful.spellable hname) (hxs.stops_isDigit hname) htype⟩
  | someType hcolon hname =>
    have hname' := hxs.lawful.fresh_of_isDelimiter hcolon (by decide)
    exact ⟨_, hname'.lawful.fresh_of_kind hname (by decide), fun _ =>
      prints_colonItems (hname'.lawful.spellable hname) (hname'.stops_isDigit hname)⟩
  | someCapture hopening _ hclosing ih =>
    obtain ⟨_, hys, _, htree⟩ := ih (hxs.lawful.fresh_of_isDelimiter hopening (by decide))
    exact ⟨_, hys.lawful.fresh_of_isDelimiter hclosing (by decide), fun _ =>
      prints_captureItems htree⟩
  | assignment _ hop _ ih₁ ih₂ =>
    obtain ⟨_, hys, hleft⟩ := ih₁ hxs
    obtain ⟨mode', hzs, hright⟩ := ih₂ (hys.lawful.fresh_of_kind hop (by decide))
    exact ⟨mode', hzs, readable_assignment (hys.lawful.spellable hop) hleft hright⟩
  | binary hop _ _ _ _ ih₁ ih₂ =>
    obtain ⟨_, hys, hleft⟩ := ih₁ hxs
    obtain ⟨mode', hzs, hright⟩ := ih₂ (hys.lawful.fresh_of_kind hop (by decide))
    exact ⟨mode', hzs, readable_binary (hys.lawful.spellable hop) hleft hright⟩
  | plain _ ih =>
    obtain ⟨mode', hys, _, htree⟩ := ih hxs
    exact ⟨mode', hys, htree⟩
  | unary hop _ ih =>
    obtain ⟨mode', hys, htree⟩ := ih (hxs.lawful.fresh_of_isUnary hop)
    exact ⟨mode', hys, readable_unary (hxs.lawful.spellable rfl) hop htree⟩
  | call _ hopening _ hclosing ih₁ ih₂ =>
    obtain ⟨_, hys, _, hcallee⟩ := ih₁ hxs
    obtain ⟨_, hzs, hargs⟩ := ih₂ (hys.lawful.fresh_of_isDelimiter hopening (by decide))
    refine ⟨_, hzs.lawful.fresh_of_isDelimiter hclosing (by decide), fun hname => ?_,
      readable_call hcallee hargs⟩
    exact absurd hname (Mode.next_ne_name_of_isDelimiter hclosing _)
  | member _ hdot hname ih =>
    -- The only place where an identifier may start with a digit: behind the dot behind a name.
    obtain ⟨_, hys, hends, hobject⟩ := ih hxs
    have hname' := hys.lawful.2.2
    have hdigit := (hname'.2.1 hname).imp_left fun hmode => hends (Mode.of_next_eq_dot hmode)
    exact ⟨_, hname'.fresh_of_kind hname (by decide), fun _ => rfl,
      readable_member hobject (hname'.spellable hname) hdigit⟩
  | @literal n kind token ys hkind =>
    have hkind' := kind_of_literalKind? hkind
    refine ⟨_, hxs.lawful.fresh_of_kind hkind' (by cases kind <;> decide), fun hname => ?_,
      readable_literal (hxs.lawful.spellable hkind')⟩
    have hname' := Mode.of_next_eq_name hname
    rw [hkind'] at hname'
    cases kind <;> first | rfl | exact absurd hname' (by decide)
  | identifier hkind =>
    exact ⟨_, hxs.lawful.fresh_of_kind hkind (by decide), fun _ => rfl,
      readable_identifier (hxs.lawful.spellable hkind) (hxs.stops_isDigit hkind)⟩
  | register hkind =>
    exact ⟨_, hxs.lawful.fresh_of_kind hkind (by decide), fun _ => rfl,
      readable_register (hxs.lawful.spellable hkind)⟩
  | parenthesized hopening _ hclosing ih =>
    obtain ⟨_, hys, htree⟩ := ih (hxs.lawful.fresh_of_isDelimiter hopening (by decide))
    refine ⟨_, hys.lawful.fresh_of_isDelimiter hclosing (by decide), fun hname => ?_, htree⟩
    exact absurd hname (Mode.next_ne_name_of_isDelimiter hclosing _)

end Print

end RegisterLang
