import RegisterLang.Proofs.Grammar.Graft
import RegisterLang.Proofs.Grammar.Places

/-!
# Expressions that are joined

A sign may start an operand, and it may stand between two of them. So where an expression that
starts with a sign stands directly behind another expression, both are one expression. The operands
of the second one go behind those of the first one, at the depths that their precedences give them.
-/

namespace RegisterLang.Grammar

variable {α : Type} {mark : Token → α} {apart : Token → Prop} {n m : Nat} {phrase : Phrase α}
  {taken us xs ys zs ys' : List Token} {sign op : Token}

/-! ### Exchanging what follows -/

/-- The tokens of a phrase derive it in front of other tokens as well. -/
theorem Derives.replace (h : Derives mark apart n phrase (taken ++ ys) ys)
    (hapart : StaysApart apart ys ys') : Derives mark apart n phrase (taken ++ ys') ys' := by
  obtain ⟨xs', ⟨taken', htaken, rfl⟩, h'⟩ := h.graft hapart
  rwa [List.append_cancel_right htaken]

/-- The tokens of an expression derive it in front of any other tokens. -/
theorem Derives.replace_of_isExpression (h : Derives mark apart n phrase (taken ++ ys) ys)
    (hexpression : phrase.isExpression) (ys' : List Token) :
    Derives mark apart n phrase (taken ++ ys') ys' := by
  obtain ⟨xs', ⟨taken', htaken, rfl⟩, h'⟩ := h.graft_of_isExpression hexpression ys'
  rwa [List.append_cancel_right htaken]

/-! ### Signs -/

/-- An operand that starts with a sign is the operand behind the sign. -/
theorem Derives.exists_operand_of_isSign {tree : Node α} (hsign : isSign sign)
    (h : Derives mark apart n (.operand tree) (sign :: us) ys) :
    ∃ m tree', Derives mark apart m (.operand tree') us ys := by
  cases h with
  | plain hsuffixed =>
    obtain ⟨first, tokens, htokens, hstarts⟩ := hsuffixed.starts rfl
    cases htokens
    exact absurd (isUnary_of_isSign hsign) (not_isUnary_of_startsPrimary hstarts)
  | unary _ hoperand => exact ⟨_, _, hoperand⟩

/-! ### Joining -/

/-- An operator goes behind operands, with what it binds more tightly. It takes as its left operand
all that the operators there bind at least as tightly. -/
theorem Derives.exists_binary_append {least : Nat} {left right : Node α}
    (hop : op.kind = .binaryOperator) (hrank : rank op.lexeme ≠ 0) (hleast : least ≤ rank op.lexeme)
    (hleft : Derives mark apart n (.binary least left) xs (op :: ys))
    (hright : Derives mark apart n (.binary (rank op.lexeme + 1) right) ys zs) :
    ∃ tree, Derives mark apart n (.binary least tree) xs zs := by
  generalize hphrase : Phrase.binary least left = phrase, hrest : op :: ys = rest at hleft
  induction hleft generalizing least left with
  | single hoperand =>
    cases hphrase
    subst hrest
    exact ⟨_, .binary hop hrank hleast (.single hoperand) hright⟩
  | @binary n least' first second op' xs us _ hop' hrank' hleast' hfirst hsecond _ ih =>
    cases hphrase
    subst hrest
    by_cases htight : rank op.lexeme ≤ rank op'.lexeme
    · exact ⟨_, .binary hop hrank hleast (.binary hop' hrank' htight hfirst hsecond) hright⟩
    · obtain ⟨tree, htree⟩ := ih (Nat.lt_of_not_le htight) hright rfl rfl
      exact ⟨_, .binary hop' hrank' hleast' hfirst htree⟩
  | _ => cases hphrase

/-- Operands that start with a sign go behind other operands. -/
theorem Derives.exists_binary_join {least : Nat} {left right : Node α} (hsign : isSign sign)
    (hleft : Derives mark apart n (.binary 0 left) xs (sign :: us))
    (hright : Derives mark apart m (.binary least right) (sign :: us) ys) :
    ∃ k tree, Derives mark apart k (.binary 0 tree) xs ys := by
  generalize hphrase : Phrase.binary least right = phrase, hfront : sign :: us = front at hright
  induction hright generalizing least right with
  | single hoperand =>
    subst hfront
    obtain ⟨m', tree, htree⟩ := hoperand.exists_operand_of_isSign hsign
    obtain ⟨tree', htree'⟩ := Derives.exists_binary_append (kind_of_isSign hsign)
      (rank_ne_zero_of_isSign hsign) (Nat.zero_le _) (hleft.mono (Nat.le_max_left n m'))
      (.single (htree.mono (Nat.le_max_right n m')))
    exact ⟨_, tree', htree'⟩
  | @binary m _ _ _ op _ _ _ hop hrank _ _ hsecond ih _ =>
    obtain ⟨k, tree, htree⟩ := ih rfl hfront
    obtain ⟨tree', htree'⟩ := Derives.exists_binary_append hop hrank (Nat.zero_le _)
      (htree.mono (Nat.le_max_left k m)) (hsecond.mono (Nat.le_max_right k m))
    exact ⟨_, tree', htree'⟩
  | _ => cases hphrase

/-- An expression that starts with a sign goes behind another expression. -/
theorem Derives.exists_expression_join {left right : Node α} (hsign : isSign sign)
    (hleft : Derives mark apart n (.expression left) xs (sign :: us))
    (hright : Derives mark apart m (.expression right) (sign :: us) ys) :
    ∃ k tree, Derives mark apart k (.expression tree) xs ys := by
  generalize hphrase : Phrase.expression left = phrase, hrest : sign :: us = rest at hleft
  induction hleft generalizing left with
  | value hbinary =>
    subst hrest
    cases hright with
    | value hbinary' =>
      obtain ⟨k, tree, htree⟩ := hbinary.exists_binary_join hsign hbinary'
      exact ⟨_, tree, .value htree⟩
    | @assignment m _ _ _ _ _ _ hbinary' hop hvalue =>
      obtain ⟨k, tree, htree⟩ := hbinary.exists_binary_join hsign hbinary'
      exact ⟨_, _, .assignment (htree.mono (Nat.le_max_left k m)) hop
        (hvalue.mono (Nat.le_max_right k m))⟩
  | @assignment n _ _ _ _ _ _ hbinary hop _ _ ih =>
    obtain ⟨k, tree, htree⟩ := ih rfl hrest
    exact ⟨_, _, .assignment (hbinary.mono (Nat.le_max_left n k)) hop
      (htree.mono (Nat.le_max_right n k))⟩
  | _ => cases hphrase

/-! ### Items -/

/-- An expression holds the items of its tokens. -/
theorem Derives.items_perm {tree : Tree}
    (h : Derives Token.location apart n (.expression tree) (taken ++ ys) ys) :
    tree.items.Perm ((taken.filter (·.kind.holdsItem)).map Token.item) := by
  obtain ⟨tokens, htokens, hlaid⟩ := h.laidOut
  obtain rfl := List.append_cancel_right htokens
  simpa [Node.items, Phrase.trees, Phrase.readsParams] using hlaid.items

end RegisterLang.Grammar
